import ColdBoot.Proofs.BootSequence
import ColdBoot.Proofs.FrameCycle
import ColdBoot.Proofs.LiveBoard
import ColdBoot.Proofs.TransferQueue

/-! # The render loop and the interrupt

The render loop and the interrupt meet in the vblank flag only. Frames follow the cycle of phases
whatever the interrupt does, and the boot lowers the flag once and never looks at it; so everything
that is known of `Rendered` histories is known of the loop.

* **`Console.ensures_frames`** – frames follow the cycle;
* **`Console.initialized_of_boot`** – what the boot leaves behind;
* **`Console.run_follows_vblanks`** – no framebuffer is shown without a vertical blank of its own,
  and no vertical blank is lost. -/

namespace ColdBoot

open Hardware Timeline Program

/-- The history ends in a phase of frames behind a given past. -/
def Timeline.InPhase (start : Controls) (past : List Tick) (phase : Phase) (now : List Tick) : Prop :=
  ∃ ticks, now = past ++ ticks ∧ Rendered start past phase ticks

namespace Console

section Frames

variable {gate : Controls → Prop} {start : Controls} {past : List Tick}

/-- The history is one of frames at every moment. -/
def frameGuard (start : Controls) (past : List Tick) : Guard (List Tick) :=
  .always fun now => ∃ phase, InPhase start past phase now

theorem keeps_plain (phase : Phase) : (Timeline.hardware gate start).Keeps (frameGuard start past)
    Command.IsPlain (InPhase start past phase) := by
  refine Timeline.keeps (fun _ h => ⟨phase, h⟩) (fun _ _ _ h => ⟨phase, h⟩) ?_ ?_
  · rintro _ - ⟨ticks, rfl, h⟩
    exact ⟨ticks ++ [.vblank], List.append_assoc .., .tick h (.vblank phase)⟩
  · rintro _ command answer plain ⟨ticks, rfl, h⟩ -
    exact ⟨ticks ++ [.access ⟨command, answer⟩], List.append_assoc .., .tick h (.plain phase plain)⟩

theorem sound_inPhase (phase : Phase) :
    (Timeline.hardware gate start).Sound (frameGuard start past) (InPhase start past phase) :=
  (keeps_plain phase).toSound

/-- An access that turns a phase into the next one. -/
theorem inPhase_of_responds {command : Command} {answer : command.Answer} {phase phase' : Phase}
    {met behind : List Tick} (h : InPhase start past phase met)
    (responded : (Timeline.hardware gate start).responds met command answer behind)
    (turns : (start.behind met).Answers command answer →
      Turns (start.behind met).flag phase (.access ⟨command, answer⟩) phase') :
    InPhase start past phase' behind := by
  obtain ⟨ticks, rfl, h⟩ := h
  obtain ⟨answered, rfl⟩ := responded
  exact ⟨ticks ++ [.access ⟨command, answer⟩], List.append_assoc .., .tick h (turns answered)⟩

variable {config : Config} {video : Video}

/-- A part of a frame that stays in its phase. -/
theorem ensures_plain {α : Type} {program : Program α} (plain : program.Accesses Command.IsPlain)
    (phase : Phase) : (Timeline.hardware gate start).Ensures (frameGuard start past)
      (InPhase start past phase) program fun _ => InPhase start past phase :=
  (keeps_plain phase).ensures plain

theorem plain_clearTarget : (video.clearTarget config).Accesses Command.IsPlain :=
  (Video.paced_clearFramebuffer config video _).accesses (fun _ h => h.isPlain) fun _ h => h.isPlain

/-- The draw function may also leave for good. -/
theorem ensures_draw {ρ : Type} (function : DrawFunction ρ) (vaddr number : UInt32) :
    (Timeline.hardware gate start).Ensures (frameGuard start past) (InPhase start past .rendering)
      (draw function vaddr number) fun _ => InPhase start past .drawn := by
  refine .bind (ensures_plain (.perform (.loadFrame _) trivial) .rendering) fun before => ?_
  cases function before number with
  | error reason => exact .stop (sound_inPhase _)
  | ok drawn =>
    refine .bind (.perform (sound_inPhase _) (fun _ => sound_inPhase .drawn) ?_ ?_) fun _ =>
      .done (sound_inPhase _) fun _ h => h
    · exact fun _ h => ⟨_, h⟩
    · exact fun _ _ _ h responded => inPhase_of_responds h responded fun _ => .draw

/-- A wait ends with the look that finds the flag up. -/
theorem ensures_vblankWait : (Timeline.hardware gate start).Ensures (frameGuard start past)
    (InPhase start past .drawn) Video.vblankWait fun _ => InPhase start past .woken := by
  have status (phase : Phase) : (Timeline.hardware gate start).Keeps (frameGuard start past)
      Command.IsStatus (InPhase start past phase) :=
    (keeps_plain phase).mono fun _ => Command.IsStatus.isPlain
  have waited : (Timeline.hardware gate start).Ensures (frameGuard start past)
      (InPhase start past .drawn) (Idle.spin .getFence id) fun _ => InPhase start past .woken := by
    refine Idle.ensures_spin (status .drawn) (fun _ => status .woken) ?_ ?_ ?_
    · exact fun _ h => ⟨_, h⟩
    · intro met answer behind h responded refused
      obtain rfl : answer = false := refused
      exact inPhase_of_responds h responded fun same => .refuse (Eq.symm same)
    · intro met answer behind h responded taken
      obtain rfl : answer = true := taken
      exact inPhase_of_responds h responded fun same => .accept (Eq.symm same)
  exact .bind waited fun _ => .done (sound_inPhase _) fun _ h => h

theorem ensures_swapBuffers : (Timeline.hardware gate start).Ensures (frameGuard start past)
    (InPhase start past .woken) video.swapBuffers fun _ => InPhase start past .shown := by
  have plain := (Cpu.accesses_writeBackRange (video.memory.framebuffer video.rendering)
    Framebuffer.byteSize.toUInt32).mono fun _ h => h.isPlain
  refine .bind (ensures_plain plain .woken) fun _ => ?_
  refine .bind (.perform (sound_inPhase _) (fun _ => sound_inPhase .shown) ?_ ?_) fun _ =>
    .done (sound_inPhase _) fun _ h => h
  · exact fun _ h => ⟨_, h⟩
  · exact fun _ _ _ h responded => inPhase_of_responds h responded fun _ => .flip

theorem ensures_vblankEnd : (Timeline.hardware gate start).Ensures (frameGuard start past)
    (InPhase start past .shown) Video.vblankEnd fun _ => InPhase start past .rendering := by
  refine .perform (sound_inPhase _) (fun _ => sound_inPhase .rendering) ?_ ?_
  · exact fun _ h => ⟨_, h⟩
  · exact fun _ _ _ h responded => inPhase_of_responds h responded fun _ => .lower

variable {ρ σ : Type}

/-- **A frame** goes once round the cycle. -/
theorem ensures_frame (console : Console) (function : DrawFunction ρ) :
    (Timeline.hardware gate start).Ensures (frameGuard start past) (InPhase start past .rendering)
      (console.frame config function) fun _ => InPhase start past .rendering := by
  refine .bind (ensures_plain plain_clearTarget .rendering) fun _ => ?_
  refine .bind (ensures_draw function _ _) fun result => ?_
  refine .bind ensures_vblankWait fun _ => ?_
  refine .bind ensures_swapBuffers fun video => ?_
  exact .bind ensures_vblankEnd fun _ => .done (sound_inPhase _) fun _ h => h

/-- **Frames**, however many, go round and round. -/
theorem ensures_frames (function : σ → DrawFunction σ) (count : Nat) (console : Console) (state : σ) :
    (Timeline.hardware gate start).Ensures (frameGuard start past) (InPhase start past .rendering)
      (frames config function count console state) fun _ => InPhase start past .rendering := by
  induction count generalizing console state with
  | zero => exact .done (sound_inPhase _) fun _ h => h
  | succ count ih => exact .bind (ensures_frame console (function state)) fun result => ih _ _

/-- **The render loop** is a beacon, and frames. -/
theorem ensures_run (function : σ → DrawFunction σ) (count : Nat) (console : Console) (state : σ) :
    (Timeline.hardware gate start).Ensures (frameGuard start past) (InPhase start past .rendering)
      (run config console function state count) fun _ => InPhase start past .rendering := by
  have beacon : (Beacon.mark config .loop).Accesses Command.IsPlain :=
    (Beacon.writes_mark config .loop).mono fun _ h => h.isPlain nofun
  exact .bind (ensures_plain beacon .rendering) fun _ => ensures_frames function count console state

/-- What is ensured of frames says what their histories are. -/
theorem exists_rendered {α : Type} {program : Program α} {after : α → List Tick → Prop}
    (h : (Timeline.hardware gate start).Ensures (frameGuard start past)
      (InPhase start past .rendering) program after) {now : List Tick}
    {moments : List (Moment (List Tick))} {ending : Ending α}
    (execution : (Timeline.hardware gate start).Execution program past moments ending now) :
    ∃ phase ticks, now = past ++ ticks ∧ accesses ticks = moments.map Moment.event ∧
      Rendered start past phase ticks := by
  obtain ⟨-, ⟨phase, ticks, rfl, rendered⟩, -⟩ :=
    h ⟨[], (List.append_nil past).symm, .nil⟩ execution
  -- the ticks of the phase are those that have been added
  obtain ⟨ticks', same, eq⟩ := Timeline.exists_ticks execution.course
  obtain rfl := List.append_cancel_left same
  exact ⟨phase, ticks, rfl, eq, rendered⟩

end Frames

end Console

/-! ### Behind the boot -/

/-- What a history does to the flag is among the accesses to it. -/
theorem Timeline.countP_flag {p : Tick → Bool} (blank : p .vblank = false)
    (flag : ∀ event, p (.access event) = true → event.command.IsFlag) (ticks : List Tick) :
    ticks.countP p =
      ((accesses ticks).filter (·.command.IsFlag)).countP fun event => p (.access event) := by
  induction ticks with
  | nil => rfl
  | cons tick rest ih =>
    cases tick with
    | vblank =>
      rw [List.countP_cons_of_neg (by simp [blank]), ih]
      rfl
    | access event =>
      have split : accesses (.access event :: rest) = event :: accesses rest := rfl
      rw [List.countP_cons, ih, split, List.filter_cons]
      by_cases on : event.command.IsFlag
      · simp [on, List.countP_cons]
      · have off : p (.access event) = false := by
          by_contra h
          exact on (flag event (by simpa using h))
        simp [on, off]

/-- A history that lowers the flag once and leaves it alone otherwise is one of a start. -/
theorem Initialized.of_commandsIn {ticks : List Tick}
    (h : commandsIn Command.IsFlag (accesses ticks) = [.setFence false]) : Initialized ticks := by
  have events : ∃ answer, (accesses ticks).filter (·.command.IsFlag) =
      [⟨.setFence false, answer⟩] := by
    -- nothing is known of the answer, and it does not matter
    rw [commandsIn, List.filter_map, List.map_eq_singleton_iff] at h
    obtain ⟨⟨command, answer⟩, eq, rfl⟩ := h
    exact ⟨answer, eq⟩
  obtain ⟨answer, eq⟩ := events
  have never {p : Tick → Bool} (count : ticks.countP p = 0) : ∀ tick ∈ ticks, p tick = false :=
    fun tick member => by simpa using List.countP_eq_zero.1 count tick member
  refine ⟨?_, never ?_, never ?_⟩
  · rw [countP_flag rfl ?_, eq]
    · rfl
    · rintro ⟨command, _⟩ low
      cases command <;> trivial
  · rw [countP_flag rfl ?_, eq]
    · rfl
    · rintro ⟨command, _⟩ high
      cases command <;> trivial
  · rw [countP_flag rfl ?_, eq]
    · rfl
    · rintro ⟨command, _⟩ polls
      cases command <;> trivial

/-- The render loop keeps step with the vertical blanks: of the ticks of the loop, behind the past
that the boot has left behind. -/
structure FollowsVblanks (start : Controls) (past ticks : List Tick) : Prop where
  /-- Once the flag has been lowered, it is up at any moment if and only if a vertical blank has come
  since it was lowered for the last time. -/
  flag (now : List Tick) (part : now <+: past ++ ticks) (lowered : ∃ tick ∈ now, lowers tick = true) :
    (start.behind now).flag = true ↔ .vblank ∈ sinceLowered now
  /-- So far no more framebuffers have been shown than vertical blanks have come since the boot lowered
  the flag. -/
  count (front : List Tick) (part : front <+: ticks) :
    front.countP Tick.flips ≤ (sinceLowered past ++ front).countP Tick.isVblank
  /-- A framebuffer is shown where a vertical blank has come since the flag was lowered. -/
  blank (front back : List Tick) (flip : Tick) (eq : ticks = front ++ flip :: back)
    (flips : flip.flips = true) : .vblank ∈ sinceLowered (past ++ front)
  /-- Between two framebuffers the flag is lowered, and another vertical blank comes. -/
  another (front middle back : List Tick) (flip flip' : Tick)
    (eq : ticks = front ++ flip :: middle ++ flip' :: back) (flips : flip.flips = true)
    (flips' : flip'.flips = true) :
    ∃ before low after, middle = before ++ low :: after ∧ lowers low = true ∧ .vblank ∈ after
  /-- A vertical blank that comes while the flag has not been seen is found by the next look. -/
  found (front middle back : List Tick) (answer : Bool)
    (eq : past ++ ticks = front ++ .vblank :: middle ++ .access ⟨.getFence, answer⟩ :: back)
    (lowered : ∃ tick ∈ front, lowers tick = true) (unseen : awake front = false)
    (next : ∀ tick ∈ middle, tick.polls = false) : answer = true
  /-- The flag is looked at until it has been seen, and not again before it is lowered: the look that
  finds it up is the last one of its wait. -/
  last (front back : List Tick) (answer : Bool)
    (eq : past ++ ticks = front ++ .access ⟨.getFence, answer⟩ :: back) : awake front = false

namespace Rendered

variable {start : Controls} {past ticks : List Tick} {phase : Phase}

/-- Frames keep step with the vertical blanks. -/
theorem followsVblanks (initialized : Initialized past) (h : Rendered start past phase ticks) :
    FollowsVblanks start past ticks where
  flag now part lowered :=
    Timeline.flag_iff start lowered fun tick member => h.quiet initialized tick (part.subset member)
  count front part := by
    obtain ⟨_, h⟩ := h.of_prefix part
    exact Nat.le_trans (Nat.le_add_right _ _) (h.flips_add_le initialized)
  blank front back flip eq flips := by
    subst eq
    obtain ⟨_, _, h, turns, -⟩ := h.at_tick
    obtain ⟨rfl, -⟩ := turns.of_flips flips
    exact h.vblank_of_woken initialized
  another front middle back flip flip' eq flips flips' :=
    h.blank_between_flips initialized eq flips flips'
  found front middle back answer eq lowered unseen next := by
    have part : front ++ .vblank :: middle ++ [.access ⟨.getFence, answer⟩] <+: past ++ ticks :=
      ⟨back, by simp [eq]⟩
    obtain ⟨same, -⟩ := h.of_poll initialized part
    have up := h.flag_behind_vblank initialized ((List.prefix_append _ _).trans part) lowered unseen
      next
    rw [same, up.1]
  last front back answer eq := by
    have part : front ++ [.access ⟨.getFence, answer⟩] <+: past ++ ticks := ⟨back, by simp [eq]⟩
    exact (h.of_poll initialized part).2

end Rendered

namespace Console

variable {gate : Controls → Prop} {start : Controls} {config : Config} {memory : FrameMemory}
  {slot : VectorSlot} {entry : Trampoline} {color : Color} {console : Console} {past now : List Tick}
  {booting rendering : List (Moment (List Tick))} {σ : Type}

/-- What the boot leaves behind. -/
theorem initialized_of_boot (booted : (Timeline.hardware gate start).Execution
    (boot config memory slot entry color) [] booting (.returned console) past) :
    Initialized past := by
  obtain ⟨ticks, rfl, eq⟩ := Timeline.exists_ticks booted.course
  refine .of_commandsIn ?_
  rw [eq]
  exact emits_boot_flag config memory slot entry color booted.run

/-- **The render loop follows the vertical blanks**, wherever they come, and however far the loop has
come: no framebuffer is shown without a vertical blank of its own, and no vertical blank is lost. -/
theorem run_follows_vblanks (booted : (Timeline.hardware gate start).Execution
      (boot config memory slot entry color) [] booting (.returned console) past)
    (function : σ → DrawFunction σ) (state : σ) (count : Nat) {ending : Ending (Console × σ)}
    (execution : (Timeline.hardware gate start).Execution
      (run config console function state count) past rendering ending now) :
    ∃ ticks, now = past ++ ticks ∧ accesses ticks = rendering.map Moment.event ∧
      FollowsVblanks start past ticks := by
  obtain ⟨phase, ticks, rfl, eq, rendered⟩ :=
    exists_rendered (ensures_run function count console state) execution
  exact ⟨ticks, rfl, eq, rendered.followsVblanks (initialized_of_boot booted)⟩

/-- Two frames that are left as they are cleared, on a console whose loader has left the flag up. -/
theorem run_follows_vblanks_twice : ∃ console past booting now rendering ticks result,
    (Timeline.hardware (fun _ => True) ⟨0, 0, true⟩).Execution silentBoot [] booting
      (.returned console) past ∧
    (Timeline.hardware (fun _ => True) ⟨0, 0, true⟩).Execution
      (run (.silent true) console leaveClear () 2) past rendering (.returned result) now ∧
    now = past ++ ticks ∧ FollowsVblanks ⟨0, 0, true⟩ past ticks := by
  have live : (Timeline.hardware (fun _ => True) ⟨0, 0, true⟩).Live :=
    Timeline.live fun _ _ => trivial
  obtain ⟨booting, console, past, eq, booted⟩ := live.exists_execution finishable_silentBoot []
  obtain ⟨rendering, result, now, -, execution⟩ :=
    live.exists_execution (finishes_run_leaveClear eq 2) past
  obtain ⟨ticks, rfl, -, follows⟩ := run_follows_vblanks booted leaveClear () 2 execution
  exact ⟨console, past, booting, _, rendering, ticks, result, booted, execution, rfl, follows⟩

end Console

end ColdBoot
