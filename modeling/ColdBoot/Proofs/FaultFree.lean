import ColdBoot.Proofs.ClippedRectangle
import ColdBoot.Proofs.Returning
import ColdBoot.Square

/-! # Nothing breaks off

All arithmetic of the boot program is checked, and so are its descriptors and its bit fields. No
check fails on the way from the handoff through any number of frames, wherever frame memory lies and
whatever the machine answers, unless a draw function fails; and where nothing is waited for in vain,
every call comes back.

* **`Program.NeverFaults`** – whatever the machine answers, the program does not break off;
* **`Program.ComesBack`** – it returns wherever nothing is waited for in vain;
* **`Square.Inside`** – what keeps the bouncing square's own arithmetic in range, and
  **`Square.drawFunction_eq`** – what it draws then;
* **`Console.boot_and_frames_safe`** – both, of the boot and any frames behind it. -/

namespace ColdBoot

open Program

/-! ### Programs without faults -/

namespace Program

variable {α β : Type} {first : α → Prop} {result : β → Prop}

/-- However the machine answers, no run breaks off in a fault, and one that returns gives back a
value in `result`. -/
def FaultFree (result : α → Prop) (program : Program α) : Prop :=
  ∀ ⦃events ending⦄, program.Runs events ending →
    (∀ fault, ending ≠ .stopped (.fault fault)) ∧ ∀ value, ending = .returned value → result value

/-- The same where any value will do. -/
abbrev NeverFaults (program : Program α) : Prop := program.FaultFree fun _ => True

/-- The program returns on any hardware where nothing is waited for in vain, from every state and
whatever the hardware does. -/
def ComesBack (program : Program α) : Prop :=
  ∀ ⦃σ : Type⦄ (hw : Hardware σ) (outstanding : σ → Nat), hw.Fair outstanding →
    ∀ s, hw.Returns (fun _ => True) program s

theorem Finishable.faultFree {program : Program α} (h : program.Finishable first) :
    program.FaultFree first := by
  intro events ending run
  rcases h.ends run with rfl | ⟨value, rfl, member⟩
  · exact ⟨nofun, nofun⟩
  · refine ⟨nofun, fun result returned => ?_⟩
    cases returned
    exact member

theorem Finishable.comesBack {program : Program α} (h : program.Finishes) : program.ComesBack :=
  fun _ _ _ fair s => fair.returns h s

namespace FaultFree

theorem done {value : α} (member : first value) : (Program.done value).FaultFree first :=
  (Finishable.done member).faultFree

theorem stop {reason : Stop} (left : ∀ fault, reason ≠ .fault fault) :
    (Program.stop reason).FaultFree first := by
  intro events ending run
  cases run with
  | stop =>
    refine ⟨fun fault stopped => ?_, nofun⟩
    cases stopped
    exact left fault rfl
  | cut => exact ⟨nofun, nofun⟩

theorem bind {program : Program α} {f : α → Program β} (h : program.FaultFree first)
    (rest : ∀ value, first value → (f value).FaultFree result) :
    (program >>= f).FaultFree result := by
  intro events ending run
  rcases run.of_bind with ⟨early, run, lifted⟩ | ⟨_, _, value, run, behind, -⟩
  · -- the first part does not return, so it is the one that ends
    obtain ⟨spared, -⟩ := h run
    cases early with
    | returned => cases lifted
    | stopped reason =>
      cases lifted
      refine ⟨fun fault stopped => ?_, nofun⟩
      cases stopped
      exact spared fault rfl
    | cut => cases lifted; exact ⟨nofun, nofun⟩
  · exact rest value ((h run).2 value rfl) behind

end FaultFree

end Program

/-! ### The chunks of a clear -/

/-- What is left of a clear and where its next chunk begins, computed with checked arithmetic. -/
structure ClearPlan.InRange (plan : ClearPlan) : Prop where
  rest : Checked.subSize plan.total plan.offset = .ok plan.rest
  offset : Checked.addSize plan.offset plan.chunkLen = .ok plan.advance.offset

/-- No plan gets out of range. -/
theorem ClearPlan.inRange (plan : ClearPlan) : plan.InRange where
  rest := by
    rw [Checked.subSize, if_pos plan.offset_le]
    rfl
  offset := by
    have le : plan.offset.toNat ≤ plan.total.toNat := UInt64.le_iff_toNat_le.1 plan.offset_le
    have lt : plan.total.toNat < UInt64.size := plan.total.toNat_lt
    rw [Checked.addSize, if_pos]
    · rfl
    · rw [plan.toNat_chunkLen]
      omega

/-! ### Draw functions -/

namespace DrawFunction

variable {ρ : Type}

/-- A draw function that does not break off in a fault, and whose result is in `next` where it comes
back. -/
structure Tame (next : ρ → Prop) (function : DrawFunction ρ) : Prop where
  spared : ∀ before number fault, function before number ≠ .error (.fault fault)
  keeps : ∀ before number drawing result,
    function before number = .ok (drawing, result) → next result

/-- A draw function that always comes back. -/
def AlwaysReturns (function : DrawFunction ρ) : Prop :=
  ∀ before number, ∃ drawing result, function before number = .ok (drawing, result)

end DrawFunction

/-! ### The bouncing square -/

namespace Square

/-- The square lies in the picture, and moves by one of its two steps in each direction. -/
structure Inside (square : Square) : Prop where
  column : square.x.toNat ≤ 296
  row : square.y.toNat ≤ 216
  dx : square.dx = 2 ∨ square.dx = -2
  dy : square.dy = 1 ∨ square.dy = -1

/-- A movement goes on, or is turned round at an edge that it leads to, wherever the square is in the
picture. -/
theorem bounce_eq {position : UInt64} (extent : UInt64) {delta : Int64}
    (low : position.toNat + side.toNat < UInt64.size) (moderate : delta ≠ Int64.minValue) :
    bounce position extent delta =
      .ok (if (position = 0 ∧ delta < 0) ∨ (extent ≤ position + side ∧ 0 < delta) then -delta
        else delta) := by
  have turned : Checked.negSize delta = .ok (-delta) := by
    rw [Checked.negSize, if_neg moderate]
  have far : Checked.addSize position side = .ok (position + side) := by
    rw [Checked.addSize, if_pos low]
  rw [bounce, turned, far]
  by_cases near : position = 0 ∧ delta < 0
  · rw [if_pos near, if_pos (.inl near)]
  · rw [if_neg near]
    show (ite (extent ≤ position + side ∧ 0 < delta) _ _) = _
    by_cases edge : extent ≤ position + side ∧ 0 < delta
    · rw [if_pos edge, if_pos (.inr edge)]
    · rw [if_neg edge, if_neg (not_or.2 ⟨near, edge⟩)]
      rfl

/-- So it keeps being one of two opposite steps. -/
theorem exists_bounce {position : UInt64} (extent : UInt64) {delta step : Int64}
    (low : position.toNat + side.toNat < UInt64.size) (moderate : step ≠ Int64.minValue)
    (opposite : -step ≠ Int64.minValue) (steps : delta = step ∨ delta = -step) :
    ∃ turned, bounce position extent delta = .ok turned ∧ (turned = step ∨ turned = -step) := by
  rcases steps with rfl | rfl
  · refine ⟨_, bounce_eq extent low moderate, ?_⟩
    split
    · exact .inr rfl
    · exact .inl rfl
  · refine ⟨_, bounce_eq extent low opposite, ?_⟩
    split
    · exact .inl Int64.neg_neg
    · exact .inr rfl

/-- The square stays in a picture that it fits into. -/
theorem exists_glide (position extent : UInt64) (delta : Int64) (large : side ≤ extent) :
    ∃ moved, glide position extent delta = .ok moved ∧ moved ≤ extent - side := by
  refine ⟨min (saturatingMove position delta) (extent - side), ?_, Std.min_le_right⟩
  rw [glide, Checked.subSize, if_pos large]
  rfl

/-- **The square moves on**: all its arithmetic is in range, and it stays in the picture. -/
theorem exists_next {square : Square} (inside : square.Inside) :
    ∃ moved, square.next = .ok moved ∧ moved.Inside := by
  have column := inside.column
  have row := inside.row
  have low {position : UInt64} (le : position.toNat ≤ 296) :
      position.toNat + side.toNat < UInt64.size := by
    show position.toNat + 24 < 2 ^ 64
    omega
  obtain ⟨dx, eqDx, stepX⟩ := exists_bounce (.ofNat Framebuffer.width) (low column)
    (by decide) (by decide) inside.dx
  obtain ⟨dy, eqDy, stepY⟩ := exists_bounce (.ofNat Framebuffer.height)
    (low (Nat.le_trans row (by decide))) (by decide) (by decide) inside.dy
  obtain ⟨x, eqX, leX⟩ := exists_glide square.x (.ofNat Framebuffer.width) dx (by decide)
  obtain ⟨y, eqY, leY⟩ := exists_glide square.y (.ofNat Framebuffer.height) dy (by decide)
  refine ⟨⟨x, y, dx, dy⟩, ?_, UInt64.le_iff_toNat_le.1 leX, UInt64.le_iff_toNat_le.1 leY, stepX,
    stepY⟩
  dsimp only [next]
  rw [eqDx, eqDy]
  dsimp only [bind, Except.bind]
  rw [eqX, eqY]
  rfl

theorem inside_start : start.Inside := ⟨by decide, by decide, .inl rfl, .inl rfl⟩

/-- The square as a drawing. -/
def drawing (square : Square) (number : UInt32) : Drawing :=
  .rect square.x square.y side side (color number)

/-- Painting the square comes to that drawing, so the draw function comes back where the square can
be moved on. -/
theorem drawFunction_eq {square moved : Square} (eq : square.next = .ok moved)
    (before : Framebuffer) (number : UInt32) :
    square.drawFunction before number = .ok (square.drawing number, moved) := by
  rw [drawFunction, drawAndMove, Drawing.fillRect_eq, eq]
  rfl

/-- So its draw function comes back in every frame. -/
theorem exists_drawn {square : Square} (inside : square.Inside) (before : Framebuffer)
    (number : UInt32) : ∃ drawing moved,
      square.drawFunction before number = .ok (drawing, moved) ∧ moved.Inside := by
  obtain ⟨moved, eq, kept⟩ := exists_next inside
  exact ⟨square.drawing number, moved, drawFunction_eq eq before number, kept⟩

theorem tame_drawFunction {square : Square} (inside : square.Inside) :
    square.drawFunction.Tame Inside where
  spared := by
    intro before number fault failed
    obtain ⟨drawing, moved, eq, -⟩ := exists_drawn inside before number
    rw [eq] at failed
    cases failed
  keeps := by
    intro before number drawing moved drawn
    obtain ⟨_, _, eq, kept⟩ := exists_drawn inside before number
    rw [eq] at drawn
    cases drawn
    exact kept

end Square

/-! ### The console -/

namespace Console

variable {ρ σ : Type} {memory : FrameMemory} (aligned : memory.Aligned) {config : Config}
  {console : Console}

/-- A framebuffer is drawn into without a fault by a draw function that has none. -/
theorem faultFree_draw {function : DrawFunction ρ} {next : ρ → Prop} (tame : function.Tame next)
    (vaddr number : UInt32) : (draw function vaddr number).FaultFree next := by
  refine .bind (Finishable.perform (.loadFrame vaddr)).faultFree fun before _ => ?_
  cases eq : function before number with
  | error reason =>
    apply FaultFree.stop
    rintro fault rfl
    exact tame.spared before number fault eq
  | ok drawn =>
    obtain ⟨drawing, result⟩ := drawn
    refine .bind (Finishable.perform (.storePixels vaddr drawing)).faultFree fun _ _ => ?_
    exact .done (tame.keeps before number drawing result eq)

include aligned

theorem faultFree_frame {function : DrawFunction ρ} {next : ρ → Prop} (tame : function.Tame next)
    (eq : console.video.memory = memory) :
    (console.frame config function).FaultFree fun result =>
      result.1.video.memory = memory ∧ next result.2 := by
  subst eq
  refine (Video.finishable_clearFramebuffer (aligned.frames _)).faultFree.bind fun _ _ => ?_
  refine (faultFree_draw tame _ _).bind fun result member => ?_
  have waited : Video.vblankWait.Finishes :=
    (Idle.finishable_spin .fence).bind fun _ => .done trivial
  refine waited.faultFree.bind fun _ _ => ?_
  refine Video.finishable_swapBuffers.faultFree.bind fun video eq => ?_
  subst eq
  refine .bind (Finishable.perform (.setFence false)).faultFree fun _ _ => ?_
  exact .done ⟨rfl, member⟩

/-- No frame breaks off, however many there are. -/
theorem faultFree_frames {function : σ → DrawFunction σ} {invariant : σ → Prop}
    (tame : ∀ state, invariant state → (function state).Tame invariant) (count : Nat) {state : σ}
    (start : invariant state) (eq : console.video.memory = memory) :
    (frames config function count console state).NeverFaults := by
  induction count generalizing console state with
  | zero => exact .done trivial
  | succ count ih =>
    refine (faultFree_frame aligned (tame state start) eq).bind fun result kept => ?_
    exact ih kept.2 kept.1

omit aligned

/-- Boot a console and let it show `count` frames. -/
def bootAndShow (config : Config) (memory : FrameMemory) (slot : VectorSlot) (entry : Trampoline)
    (color : Color) (function : σ → DrawFunction σ) (state : σ) (count : Nat) :
    Program (Console × σ) := do
  let console ← boot config memory slot entry color
  frames config function count console state

include aligned

theorem finishes_frames_of_tame {function : σ → DrawFunction σ} {invariant : σ → Prop}
    (tame : ∀ state, invariant state → (function state).Tame invariant)
    (returns : ∀ state, invariant state → (function state).AlwaysReturns) (count : Nat) {state : σ}
    (start : invariant state) (eq : console.video.memory = memory) :
    (frames config function count console state).Finishes := by
  refine finishable_frames_keeping aligned ?_ count start eq
  intro state member before number
  obtain ⟨drawing, result, drawn⟩ := returns state member before number
  exact ⟨drawing, result, drawn, (tame state member).keeps before number drawing result drawn⟩

/-- **Nothing breaks off, and everything comes back.** Take any configuration, frame memory with the
framebuffers on 64 bytes and the staging page on 16 anywhere in the address space, any trampoline and
clear colour, and draw functions that do not fault from a state on. Whatever the machine answers, the
boot and any number of frames meet no fault; and where every transfer retires and vertical blank
comes, after however many looks, every call returns if the draw functions do. The bouncing square is
such a draw function, and its own arithmetic meets no fault in any frame. Nor does the arithmetic of
a clear's chunks leave its range. -/
theorem boot_and_frames_safe (config : Config) (slot : VectorSlot) (entry : Trampoline)
    (color : Color) {function : σ → DrawFunction σ} {invariant : σ → Prop}
    (tame : ∀ state, invariant state → (function state).Tame invariant) {state : σ}
    (start : invariant state) (count : Nat) :
    (bootAndShow config memory slot entry color function state count).NeverFaults ∧
    ((∀ state, invariant state → (function state).AlwaysReturns) →
      (bootAndShow config memory slot entry color function state count).ComesBack) ∧
    (Square.program config memory entry count).NeverFaults ∧
    (Square.program config memory entry count).ComesBack ∧
    ∀ plan : ClearPlan, plan.InRange := by
  have boots (slot : VectorSlot) (color : Color) :
      (boot config memory slot entry color).Finishable fun console =>
        console.video.memory = memory := finishable_boot aligned slot entry color
  refine ⟨?_, fun returns => ?_, ?_, ?_, ClearPlan.inRange⟩
  · refine (boots slot color).faultFree.bind fun console eq => ?_
    exact faultFree_frames aligned tame count start eq
  · refine ((boots slot color).bind fun {console} eq => ?_).comesBack
    exact finishes_frames_of_tame aligned tame returns count start eq
  · refine (boots .generalException Square.background).faultFree.bind fun console eq => ?_
    refine (Beacon.finishable_mark config .loop).faultFree.bind fun _ _ => ?_
    exact faultFree_frames aligned (fun _ => Square.tame_drawFunction) count Square.inside_start eq
  · refine ((boots .generalException Square.background).bind fun {console} eq => ?_).comesBack
    refine (Beacon.finishable_mark config .loop).bind fun _ => ?_
    exact finishable_frames_keeping aligned (fun _ => Square.exists_drawn) count
      Square.inside_start eq

omit aligned

/-- Three frames of the square on a framebuffer that goes round at the end of the address space, with
every record logged and three transfers outstanding at the start. -/
theorem boot_and_frames_safe_wrapped :
    (⟨0xFFFFFFC0, 0x80225800, 0x80100000⟩ : FrameMemory).Aligned ∧
    Countdown.hardware.Fair Countdown.outstanding ∧
    (bootAndShow ⟨true, true, none, ⟨some .trace⟩⟩ ⟨0xFFFFFFC0, 0x80225800, 0x80100000⟩
      .generalException (.ofTarget 0x80000400) ⟨0xF801⟩ Square.drawFunction Square.start
      3).NeverFaults ∧
    Countdown.hardware.Returns (fun _ => True)
      (bootAndShow ⟨true, true, none, ⟨some .trace⟩⟩ ⟨0xFFFFFFC0, 0x80225800, 0x80100000⟩
        .generalException (.ofTarget 0x80000400) ⟨0xF801⟩ Square.drawFunction Square.start 3)
      ⟨[2, 0, 5], 7⟩ := by
  have aligned : (⟨0xFFFFFFC0, 0x80225800, 0x80100000⟩ : FrameMemory).Aligned :=
    ⟨by decide, by decide⟩
  obtain ⟨spared, returns, -⟩ := boot_and_frames_safe aligned ⟨true, true, none, ⟨some .trace⟩⟩
    .generalException (.ofTarget 0x80000400) ⟨0xF801⟩ (fun _ => Square.tame_drawFunction)
    Square.inside_start 3
  refine ⟨aligned, Countdown.fair, spared, returns (fun square inside before number => ?_) _ _
    Countdown.fair _⟩
  obtain ⟨drawing, moved, drawn, -⟩ := Square.exists_drawn inside before number
  exact ⟨drawing, moved, drawn⟩

end Console

end ColdBoot
