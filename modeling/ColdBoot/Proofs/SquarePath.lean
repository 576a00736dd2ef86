import ColdBoot.Proofs.FaultFree
import ColdBoot.Proofs.Rectangle
import ColdBoot.Proofs.StoredDrawings

/-! # The path of the bouncing square

In each direction the square goes to and fro between two edges, and it turns round in front of a
movement, not behind it. So its place alone does not tell where it goes next: at an edge it may still
be headed for that edge. **`Track.Along`** couples the two, by the frame's place in the period.

* **`zigzag`** – to and fro by one step, in closed form;
* **`Track.Along.exists_next`** – one movement along a track, with nothing that bounds it;
* **`Square.next_after`**, **`Square.onPath_after`** – the square of every frame;
* **`Square.isFrame`** – its place, its colour and its pixels;
* **`Square.bounces`** – these are the frames that the program draws. -/

namespace ColdBoot

open Program

/-! ### To and fro -/

/-- Place after `n` steps that are turned round at `turn` and at zero. -/
def zigzag (turn n : Nat) : Nat := min (n % (2 * turn)) (2 * turn - n % (2 * turn))

section Zigzag

variable {turn n : Nat} (positive : 0 < turn)

theorem zigzag_le : zigzag turn n ≤ turn := by
  unfold zigzag
  omega

include positive

/-- The place in a period, one step later. -/
theorem phase_succ : (n + 1) % (2 * turn) =
    if n % (2 * turn) + 1 = 2 * turn then 0 else n % (2 * turn) + 1 := by
  have lt := Nat.mod_lt n (show 2 * turn > 0 by omega)
  rw [Nat.add_mod, Nat.mod_eq_of_lt (show 1 < 2 * turn by omega)]
  split
  · next last => rw [last, Nat.mod_self]
  · exact Nat.mod_eq_of_lt (by omega)

/-- The first half of a period goes up, the second one down. -/
theorem zigzag_succ : zigzag turn (n + 1) =
    if n % (2 * turn) < turn then zigzag turn n + 1 else zigzag turn n - 1 := by
  have lt := Nat.mod_lt n (show 2 * turn > 0 by omega)
  unfold zigzag
  rw [phase_succ positive]
  generalize n % (2 * turn) = phase at lt ⊢
  split <;> split <;> omega

end Zigzag

/-! ### One direction -/

/-- A movement that stays in the sizes does not saturate. -/
theorem Square.toNat_saturatingMove {position : UInt64} {delta : Int64}
    (low : 0 ≤ (position.toNat : Int) + delta.toInt)
    (high : (position.toNat : Int) + delta.toInt < 2 ^ 64) :
    ((saturatingMove position delta).toNat : Int) = position.toNat + delta.toInt := by
  have value : delta.toInt = if 2 * delta.toUInt64.toNat < 2 ^ 64 then
      (delta.toUInt64.toNat : Int) else delta.toUInt64.toNat - 2 ^ 64 :=
    BitVec.toInt_eq_toNat_cond delta.toBitVec
  have sum : (position + delta.toUInt64).toNat =
      (position.toNat + delta.toUInt64.toNat) % 2 ^ 64 := UInt64.toNat_add _ _
  have lt := delta.toUInt64.toNat_lt
  have lt' := position.toNat_lt
  simp only [saturatingMove, Int64.lt_iff_toInt_lt, UInt64.lt_iff_toNat_lt,
    UInt64.le_iff_toNat_le, Int64.toInt_zero]
  -- forth the sum of the words is the sum, back it is a whole turn too large
  by_cases back : delta.toInt < 0
  · rw [if_pos back, if_pos (by omega)]
    omega
  · rw [if_neg back, if_pos (by omega)]
    omega

/-- A direction in which the square goes to and fro. -/
structure Track where
  /-- Movements from one edge to the other. -/
  turn : Nat
  /-- Pixels in a movement. -/
  stride : Nat
  /-- A movement away from the near edge. -/
  step : Int64
  turn_pos : 0 < turn
  stride_pos : 0 < stride
  forth : step.toInt = stride
  back : (-step).toInt = -stride
  short : stride * turn < 2 ^ 32

namespace Track

/-- From left to right. -/
def columns : Track := ⟨148, 2, 2, by decide, by decide, by decide, by decide, by decide⟩

/-- From top to bottom. -/
def rows : Track := ⟨216, 1, 1, by decide, by decide, by decide, by decide, by decide⟩

variable (track : Track)

/-- Pixels of the picture in this direction. -/
def extent : UInt64 := .ofNat (track.stride * track.turn + 24)

/-- The movement from frame `n` to the next one. -/
def heading (n : Nat) : Int64 :=
  if n % (2 * track.turn) < track.turn then track.step else -track.step

/-- A place in frame `n`, and the movement that led there. -/
structure Along (n : Nat) (position : UInt64) (delta : Int64) : Prop where
  position_eq : position.toNat = track.stride * zigzag track.turn n
  /-- In the very first frame nothing led there, at the end of a period it was a movement back. -/
  steps : delta = track.step ∨ delta = -track.step
  phase : 0 < n % (2 * track.turn) →
    delta = if n % (2 * track.turn) ≤ track.turn then track.step else -track.step

/-- A movement that nothing bounds: neither the sizes nor the picture. -/
structure Free (position extent : UInt64) (delta : Int64) (moved : UInt64) : Prop where
  sum : (moved.toNat : Int) = position.toNat + delta.toInt
  /-- The sum does not saturate. -/
  saturating : Square.saturatingMove position delta = moved
  /-- And is not cut to the picture. -/
  cut : min moved (extent - Square.side) = moved

variable {track} {n : Nat} {position : UInt64} {delta : Int64}

theorem toNat_extent : track.extent.toNat = track.stride * track.turn + 24 := by
  have short := track.short
  exact UInt64.toNat_ofNat_of_lt' (show _ < 2 ^ 64 by omega)

theorem phase_lt : n % (2 * track.turn) < 2 * track.turn :=
  Nat.mod_lt _ (Nat.mul_pos Nat.zero_lt_two track.turn_pos)

theorem stride_mul_zigzag_le (track : Track) (n : Nat) :
    track.stride * zigzag track.turn n ≤ track.stride * track.turn :=
  Nat.mul_le_mul_left _ zigzag_le

/-- The heading leads to the next place. -/
theorem stride_mul_zigzag_succ (track : Track) (n : Nat) :
    ((track.stride * zigzag track.turn (n + 1) : Nat) : Int) =
      (track.stride * zigzag track.turn n : Nat) + (track.heading n).toInt := by
  rw [zigzag_succ track.turn_pos, heading]
  by_cases up : n % (2 * track.turn) < track.turn
  · rw [if_pos up, if_pos up, track.forth, Nat.mul_succ]
    omega
  · have lt : n % (2 * track.turn) < 2 * track.turn := phase_lt
    obtain ⟨less, eq⟩ : ∃ less, zigzag track.turn n = less + 1 :=
      Nat.exists_eq_succ_of_ne_zero (by unfold zigzag; omega)
    rw [if_neg up, if_neg up, track.back, eq, Nat.add_sub_cancel, Nat.mul_succ]
    omega

/-- It leads to no other edge in between. -/
theorem heading_eq_of_phase (inside : 0 < (n + 1) % (2 * track.turn)) :
    track.heading n =
      if (n + 1) % (2 * track.turn) ≤ track.turn then track.step else -track.step := by
  have succ := phase_succ track.turn_pos (n := n)
  rw [succ] at inside ⊢
  have middle : n % (2 * track.turn) + 1 ≠ 2 * track.turn := by
    intro last
    rw [if_pos last] at inside
    exact Nat.lt_irrefl 0 inside
  rw [if_neg middle, heading]
  exact if_congr Nat.lt_iff_add_one_le rfl rfl

theorem heading_eq (n : Nat) : track.heading n = track.step ∨ track.heading n = -track.step := by
  rw [heading]
  split
  · exact .inl rfl
  · exact .inr rfl

/-! ### Signs -/

variable (track) in
/-- A movement forth is positive, and one back is negative. -/
theorem signs : (0 < track.step ∧ ¬ track.step < 0) ∧ -track.step < 0 ∧ ¬ 0 < -track.step := by
  have positive := track.stride_pos
  simp only [Int64.lt_iff_toInt_lt, track.forth, track.back, Int64.toInt_zero]
  omega

/-- None of its movements is the one without an opposite. -/
theorem ne_minValue (steps : delta = track.step ∨ delta = -track.step) :
    delta ≠ Int64.minValue := by
  have few : track.stride ≤ track.stride * track.turn := Nat.le_mul_of_pos_right _ track.turn_pos
  have short := track.short
  have least : Int64.minValue.toInt = -2 ^ 63 := by decide
  rintro rfl
  rcases steps with eq | eq
  · have forth := track.forth
    rw [← eq, least] at forth
    omega
  · have back := track.back
    rw [← eq, least] at back
    omega

namespace Along

variable (along : track.Along n position delta)

include along

theorem toNat_lt : position.toNat + Square.side.toNat < UInt64.size := by
  have le : position.toNat ≤ track.stride * track.turn := by
    rw [along.position_eq]
    exact stride_mul_zigzag_le track n
  have short := track.short
  show position.toNat + 24 < 2 ^ 64
  omega

/-- The near edge is met once in a period. -/
theorem eq_zero_iff : position = 0 ↔ n % (2 * track.turn) = 0 := by
  have lt : n % (2 * track.turn) < 2 * track.turn := phase_lt
  have stride : track.stride ≠ 0 := Nat.ne_of_gt track.stride_pos
  rw [← UInt64.toNat_inj, UInt64.toNat_zero, along.position_eq, Nat.mul_eq_zero,
    or_iff_right stride]
  unfold zigzag
  omega

/-- And so is the far edge. -/
theorem extent_le_iff : track.extent ≤ position + Square.side ↔
    n % (2 * track.turn) = track.turn := by
  have sum : (position + Square.side).toNat = position.toNat + 24 := by
    rw [UInt64.toNat_add]
    exact Nat.mod_eq_of_lt along.toNat_lt
  rw [UInt64.le_iff_toNat_le, sum, toNat_extent, along.position_eq, Nat.add_le_add_iff_right,
    Nat.mul_le_mul_left_iff track.stride_pos]
  have lt : n % (2 * track.turn) < 2 * track.turn := phase_lt
  unfold zigzag
  omega

/-- **A movement is turned round in front of an edge** that it leads to, and nowhere else. -/
theorem bounce_eq : Square.bounce position track.extent delta = .ok (track.heading n) := by
  obtain ⟨⟨forth, notBack⟩, back, notForth⟩ := track.signs
  have near := along.eq_zero_iff
  have far := along.extent_le_iff
  have positive := track.turn_pos
  rw [Square.bounce_eq _ along.toNat_lt (ne_minValue along.steps), heading]
  refine congrArg Except.ok ?_
  -- before the turn only the near edge can be in front, and only at the start of a period
  by_cases up : n % (2 * track.turn) < track.turn
  · rw [if_pos up]
    by_cases start : n % (2 * track.turn) = 0
    · rcases along.steps with rfl | rfl
      · rw [if_neg]
        rintro (⟨-, sign⟩ | ⟨edge, -⟩)
        · exact notBack sign
        · exact absurd (far.1 edge) (by omega)
      · rw [if_pos (.inl ⟨near.2 start, back⟩), Int64.neg_neg]
    · have delta_eq := along.phase (by omega)
      rw [if_pos (by omega)] at delta_eq
      subst delta_eq
      rw [if_neg]
      rintro (⟨-, sign⟩ | ⟨edge, -⟩)
      · exact notBack sign
      · exact absurd (far.1 edge) (by omega)
  -- from the turn on only the far edge can be, and only at the turn itself
  · rw [if_neg up]
    have delta_eq := along.phase (by omega)
    by_cases edge : n % (2 * track.turn) = track.turn
    · rw [if_pos (by omega)] at delta_eq
      subst delta_eq
      rw [if_pos (.inr ⟨far.2 edge, forth⟩)]
    · rw [if_neg (by omega)] at delta_eq
      subst delta_eq
      rw [if_neg]
      rintro (⟨start, -⟩ | ⟨-, sign⟩)
      · exact absurd (near.1 start) (by omega)
      · exact notForth sign

/-- **One movement** along a track: nothing bounds it. -/
theorem exists_next : ∃ moved, Square.glide position track.extent (track.heading n) = .ok moved ∧
    Free position track.extent (track.heading n) moved ∧
    track.Along (n + 1) moved (track.heading n) := by
  have short := track.short
  have next := stride_mul_zigzag_succ track n
  have le := stride_mul_zigzag_le track (n + 1)
  -- the next place is on the track as well, so neither bound comes into play
  have large : Square.side ≤ track.extent := by
    rw [UInt64.le_iff_toNat_le, toNat_extent]
    exact Nat.le_add_left _ _
  have sum : ((Square.saturatingMove position (track.heading n)).toNat : Int) =
      position.toNat + (track.heading n).toInt := by
    rw [← along.position_eq] at next
    exact Square.toNat_saturatingMove (by omega) (by omega)
  have place : (Square.saturatingMove position (track.heading n)).toNat =
      track.stride * zigzag track.turn (n + 1) := by
    rw [along.position_eq] at sum
    omega
  have cut : min (Square.saturatingMove position (track.heading n))
      (track.extent - Square.side) = Square.saturatingMove position (track.heading n) := by
    refine if_pos ?_
    rw [UInt64.le_iff_toNat_le, UInt64.toNat_sub_of_le _ _ large, toNat_extent, place]
    exact le
  refine ⟨_, ?_, ⟨sum, rfl, cut⟩, place, heading_eq n, heading_eq_of_phase⟩
  rw [Square.glide, Checked.subSize, if_pos large]
  exact congrArg Except.ok cut

end Along

end Track

/-! ### The square of every frame -/

namespace Square

/-- The square of frame `n`. -/
def after : Nat → Square
  | 0 => start
  | n + 1 =>
      match (after n).next with
      | .ok moved => moved
      | .error _ => after n

/-- A square on its way in both directions. -/
structure OnPath (n : Nat) (square : Square) : Prop where
  across : Track.columns.Along n square.x square.dx
  down : Track.rows.Along n square.y square.dy

theorem onPath_start : start.OnPath 0 where
  across := ⟨rfl, .inl rfl, nofun⟩
  down := ⟨rfl, .inl rfl, nofun⟩

/-- One frame of it. -/
theorem OnPath.exists_next {n : Nat} {square : Square} (onPath : square.OnPath n) :
    ∃ moved, square.next = .ok moved ∧ moved.OnPath (n + 1) ∧
      Track.Free square.x Track.columns.extent moved.dx moved.x ∧
      Track.Free square.y Track.rows.extent moved.dy moved.y := by
  obtain ⟨x, glideX, freeX, across⟩ := onPath.across.exists_next
  obtain ⟨y, glideY, freeY, down⟩ := onPath.down.exists_next
  refine ⟨⟨x, y, _, _⟩, ?_, ⟨across, down⟩, freeX, freeY⟩
  have width : UInt64.ofNat Framebuffer.width = Track.columns.extent := rfl
  have height : UInt64.ofNat Framebuffer.height = Track.rows.extent := rfl
  dsimp only [next]
  rw [width, height, onPath.across.bounce_eq, onPath.down.bounce_eq]
  dsimp only [bind, Except.bind]
  rw [glideX, glideY]
  rfl

/-- **Every frame has its square**, and it is on its way. -/
theorem onPath_after (n : Nat) : (after n).OnPath n := by
  induction n with
  | zero => exact onPath_start
  | succ n ih =>
    obtain ⟨moved, eq, onPath, -⟩ := ih.exists_next
    rw [after, eq]
    exact onPath

theorem next_after (n : Nat) : (after n).next = .ok (after (n + 1)) := by
  obtain ⟨moved, eq, -⟩ := (onPath_after n).exists_next
  rw [after, eq]

/-- The draw function of each frame. -/
theorem drawFunction_after (n : Nat) (before : Framebuffer) :
    (after n).drawFunction before (.ofNat n) =
      .ok ((after n).drawing (.ofNat n), after (n + 1)) :=
  drawFunction_eq (next_after n) before _

/-! ### Colours -/

/-- The shade goes through a period of 64 frames, which the frame counter holds a whole number of. -/
theorem color_ofNat (n : Nat) : color (.ofNat n) = .rgb (.ofNat (n / 2 % 32)) 31 16 := by
  have shade : (UInt32.ofNat n / 2 % 32).toUInt8 = UInt8.ofNat (n / 2 % 32) := by
    rw [← UInt8.toNat_inj, UInt32.toNat_toUInt8, UInt32.toNat_mod, UInt32.toNat_div,
      UInt32.toNat_ofNat', UInt8.toNat_ofNat']
    show n % 2 ^ 32 / 2 % 32 % 2 ^ 8 = n / 2 % 32 % 2 ^ 8
    omega
  rw [color, shade]

/-- The square is greener than the ground. -/
theorem color_ne_background (number : UInt32) : (color number).bits ≠ background.bits := by
  intro same
  -- the lowest bit of the green channel
  have bit := congrArg (fun word : UInt16 => word.toBitVec.getLsbD 6) same
  simp [color, background, Color.rgb] at bit

/-! ### Pixels -/

/-- What is true of frame `n`. -/
structure IsFrame (n : Nat) : Prop where
  /-- The place of the square. -/
  x_eq : (after n).x.toNat = 2 * min (n % 296) (296 - n % 296)
  y_eq : (after n).y.toNat = min (n % 432) (432 - n % 432)
  /-- Its colour, for the frame number as the console counts it. -/
  color_eq : color (.ofNat n) = .rgb (.ofNat (n / 2 % 32)) 31 16
  /-- It lies in the picture. -/
  columns : (after n).x.toNat + side.toNat ≤ Framebuffer.width
  rows : (after n).y.toNat + side.toNat ≤ Framebuffer.height
  /-- So the sums of its drawing do not saturate, and are not cut to the picture. -/
  right : (Drawing.saturatingAdd (after n).x side).toNat = (after n).x.toNat + 24
  bottom : (Drawing.saturatingAdd (after n).y side).toNat = (after n).y.toNat + 24
  /-- Neither are those of its movement to the next frame. -/
  next_eq : (after n).next = .ok (after (n + 1))
  across : Track.Free (after n).x (.ofNat Framebuffer.width) (after (n + 1)).dx (after (n + 1)).x
  down : Track.Free (after n).y (.ofNat Framebuffer.height) (after (n + 1)).dy (after (n + 1)).y
  /-- The square gets its colour, in any framebuffer, and nothing else is changed. -/
  pixels : ∀ (fb : Framebuffer) (i : Fin Framebuffer.pixelCount),
    (fb.paint ((after n).drawing (.ofNat n))).pixels[i] =
      if Drawing.Inside (after n).x.toNat (after n).y.toNat 24 24 i then (color (.ofNat n)).bits
      else fb.pixels[i]
  /-- On the ground these are the pixels that differ afterwards. -/
  differs : (Finset.univ.filter fun i : Fin Framebuffer.pixelCount =>
      ((Framebuffer.uniform background).paint ((after n).drawing (.ofNat n))).pixels[i] ≠
        (Framebuffer.uniform background).pixels[i]) =
    Finset.univ.filter (Drawing.Inside (after n).x.toNat (after n).y.toNat 24 24)
  card : (Finset.univ.filter fun i : Fin Framebuffer.pixelCount =>
    ((Framebuffer.uniform background).paint ((after n).drawing (.ofNat n))).pixels[i] ≠
      (Framebuffer.uniform background).pixels[i]).card = 576

/-- **Every frame** is like that. -/
theorem isFrame (n : Nat) : IsFrame n := by
  obtain ⟨moved, eq, onPath, freeX, freeY⟩ := (onPath_after n).exists_next
  obtain rfl : moved = after (n + 1) := by
    rw [next_after] at eq
    cases eq
    rfl
  have x_eq : (after n).x.toNat = 2 * min (n % 296) (296 - n % 296) :=
    (onPath_after n).across.position_eq
  have y_eq : (after n).y.toNat = min (n % 432) (432 - n % 432) :=
    (onPath_after n).down.position_eq.trans (Nat.one_mul _)
  have columns : (after n).x.toNat + side.toNat ≤ Framebuffer.width := by
    show (after n).x.toNat + 24 ≤ 320
    omega
  have rows : (after n).y.toNat + side.toNat ≤ Framebuffer.height := by
    show (after n).y.toNat + 24 ≤ 240
    omega
  have pixels (fb : Framebuffer) (i : Fin Framebuffer.pixelCount) :
      (fb.paint ((after n).drawing (.ofNat n))).pixels[i] =
        if Drawing.Inside (after n).x.toNat (after n).y.toNat 24 24 i then (color (.ofNat n)).bits
        else fb.pixels[i] := Framebuffer.pixels_paint_rect _ _ _ _ _ fb i
  have differs : (Finset.univ.filter fun i : Fin Framebuffer.pixelCount =>
      ((Framebuffer.uniform background).paint ((after n).drawing (.ofNat n))).pixels[i] ≠
        (Framebuffer.uniform background).pixels[i]) =
      Finset.univ.filter (Drawing.Inside (after n).x.toNat (after n).y.toNat 24 24) := by
    refine Finset.filter_congr fun i _ => ?_
    have ground : (Framebuffer.uniform background).pixels[i] = background.bits :=
      Vector.getElem_replicate _
    rw [pixels, ground]
    split
    · next inside => exact iff_of_true (color_ne_background _) inside
    · next outside => exact iff_of_false (fun ne => ne rfl) outside
  refine ⟨x_eq, y_eq, color_ofNat n, columns, rows, ?_, ?_, eq, freeX, freeY, pixels, differs, ?_⟩
  · exact Drawing.toNat_saturatingAdd (by unfold Framebuffer.width at columns; omega)
  · exact Drawing.toNat_saturatingAdd (by unfold Framebuffer.height at rows; omega)
  · rw [differs]
    exact Drawing.card_inside columns rows

/-! ### The program -/

open Console

/-- What the program stores from the boot on. -/
theorem draws_program (config : Config) (memory : FrameMemory) (entry : Trampoline) (count : Nat) :
    (program config memory entry count).Draws
      ((List.range count).map fun n => (after n).drawing (.ofNat n))
      fun result => result.2 = after count := by
  refine (draws_boot memory .generalException entry background).behind fun console number => ?_
  have mark := (Beacon.notes_mark config .loop).draws_nil fun command note =>
    Command.IsAside.not_isPicture command note.isAside
  refine mark.behind fun _ _ => ?_
  have frames : (Console.frames config drawFunction count console start).Draws _ _ :=
    draws_frames drawFunction_after count 0 number
  rw [Nat.zero_add, ← List.range_eq_range'] at frames
  exact frames

/-- **The bouncing square.** Boot a console and let the square bounce for any number of frames, with
any configuration, memory and trampoline and on any machine. The drawings that are stored are those
of frames 0, 1, 2 and so on, also where a run is cut off; in frame `n` the square is where its closed
form says, in that form's colour, whole, and it changes nothing else. This goes on for ever, also
behind the point where the frame counter starts again. -/
theorem bounces (config : Config) (memory : FrameMemory) (entry : Trampoline) (count : Nat) :
    (∀ n, IsFrame n) ∧
    ∀ ⦃events ending⦄, (program config memory entry count).Runs events ending →
      drawingsIn events <+: (List.range count).map (fun n => (after n).drawing (.ofNat n)) ∧
      ∀ value, ending = .returned value →
        drawingsIn events = (List.range count).map (fun n => (after n).drawing (.ofNat n)) ∧
        value.2 = after count :=
  ⟨isFrame, draws_program config memory entry count⟩

/-- Three frames on a machine that is at rest, and the frame with which the frame counter starts
again. -/
theorem bounces_thrice : ∃ moments result t,
    (Board.hardware directPath).Execution
      (program (.silent true) .secondMegabyte (.ofTarget 0x80000400) 3) (.blank () []) moments
      (.returned result) t ∧
    drawingsIn (moments.map Moment.event) =
      [(after 0).drawing 0, (after 1).drawing 1, (after 2).drawing 2] ∧
    result.2 = after 3 ∧
    (after 4294967296).x.toNat = 208 ∧ (after 4294967296).y.toNat = 32 := by
  have aligned := FrameMemory.secondMegabyte_aligned
  have finishes : (program (.silent true) .secondMegabyte (.ofTarget 0x80000400) 3).Finishes := by
    refine (finishable_boot aligned _ _ _).bind fun eq => ?_
    refine (Beacon.finishable_mark _ .loop).bind fun _ => ?_
    exact finishable_frames_keeping aligned (fun _ => exists_drawn) 3 inside_start eq
  obtain ⟨moments, result, t, -, execution⟩ :=
    (Board.live directPath_total).exists_execution finishes (.blank () [])
  obtain ⟨frames, runs⟩ :=
    bounces (.silent true) .secondMegabyte (.ofTarget 0x80000400) 3
  obtain ⟨-, returned⟩ := runs execution.run
  obtain ⟨drawn, last⟩ := returned result rfl
  exact ⟨moments, result, t, execution, drawn, last, (frames _).x_eq, (frames _).y_eq⟩

end Square

end ColdBoot
