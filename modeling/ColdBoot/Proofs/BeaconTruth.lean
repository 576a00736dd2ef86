import ColdBoot.Proofs.Silence

/-! # The boot beacon tells the truth

A debugger reads the beacon after a hang, at whatever moment that happened. So all that is said here
is said of every moment of the way from the handoff into the loop, whether or not the way is ever
gone to its end.

* **`Console.honest_patchVector`**, **`Console.honest_arm`** – what is done to interrupts is told
when it is done, and not begun before the step in front of it is told;
* **`Console.honest_bringUp`** – the picture is complete when it is up, and nothing on the way to it
lets interrupts through;
* **`Console.beacon_never_lies`** – every access is honest, and without the beacon its words are left
alone. -/

namespace ColdBoot

open Hardware Program

/-! ### The way into the loop -/

namespace Flags

/-- A word without the interrupt enable. -/
theorem without_ie_of_not_contains {a : Flags} (off : a.contains CpuStatus.ie = false) :
    a.without CpuStatus.ie = a := by
  have single (i : Nat) : CpuStatus.ie.bit i = decide (i = 0) :=
    bit_two_pow (show 0 < 32 by decide) i
  apply without_of_inter
  rw [inter_of_single single, off]
  rfl

end Flags

namespace Console

open Beacon Timeline Controls

variable {config : Config} {memory : FrameMemory} {slot : VectorSlot} {entry : Trampoline}
  {color : Color} {gate : Controls → Prop} {start : Controls}

/-- **Patching the vector** is begun when the first stage is told, and is done with interrupts
masked. -/
theorem honest_patchVector (marked : config.bootBeacon = true) :
    (hardware gate start).Ensures (honestGuard config memory slot entry start)
      (Knows start (Told [] fun events _ _ => Quiet events)) (patchVector config slot entry)
      fun _ => Knows start (Told [.entry] fun events status lines =>
        Quiet events ∧ Patched slot entry events status lines) := by
  have onRoute : [BootStage.entry] <+: route := by decide
  refine .bind (ensures_mark marked onRoute lasting_quiet fun _ _ _ _ => trivial) fun _ => ?_
  -- what is known behind each of the five accesses
  let closed (events : List Event) (status _ : Flags) : Prop :=
    Quiet events ∧ status.contains CpuStatus.ie = false
  let masked (events : List Event) (status lines : Flags) : Prop :=
    closed events status lines ∧ lines.inter Lines.all = 0 ∧
      .write MiRegister.mask (LineMask.clearing Lines.all) ∈ events.map Event.command
  let written (events : List Event) (status lines : Flags) : Prop :=
    masked events status lines ∧
      ∃ front, events.map Event.command = front ++ [.storeDoubleword slot.uncached entry.word]
  refine .via (fun _ => Knows start (Told [.entry] closed)) (.via
    (fun _ => Knows start (Told [.entry] fun events _ _ => Quiet events))
    (ensures_access onRoute id (List.nil_subset _) fun _ _ _ h => h.concat id) fun status => ?_)
    fun _ => ?_
  · have off := Flags.contains_without_self status (b := CpuStatus.ie) (by decide)
    have needs : (Command.setStatus (status.without CpuStatus.ie)).needs ⊆ [.entry] := by
      simp [Command.needs, off]
    refine .via (fun _ => Knows start (Told [.entry] closed))
      (ensures_access onRoute id needs fun _ _ _ h => ⟨h.concat id, off⟩) fun _ => ?_
    exact .done (sound_told onRoute) fun _ h => h
  refine .via (fun _ => Knows start (Told [.entry] masked))
    (ensures_access onRoute (by decide) (by decide) ?_) fun _ => ?_
  · intro events controls _ h
    have elsewhere : MiRegister.mask.block ≠ .sp := by decide
    refine ⟨⟨h.1.concat elsewhere, h.2⟩, ?_, ?_⟩
    · rw [Controls.after, if_pos rfl, LineMask.apply_clearing_all]
      exact Flags.without_inter_self _ _
    · simp
  refine .via (fun _ => Knows start (Told [.entry] written))
    (ensures_access onRoute id (List.Subset.refl _) ?_) fun _ => ?_
  · intro events controls _ h
    refine ⟨⟨⟨h.1.1.concat id, h.1.2⟩, h.2.1, ?_⟩, events.map Event.command, by simp⟩
    rw [List.map_append]
    exact List.mem_append_left _ h.2.2
  refine ensures_access onRoute id (List.Subset.refl _) ?_
  intro events controls _ h
  obtain ⟨⟨⟨quiet, off⟩, lines, mask⟩, front, split⟩ := h
  refine ⟨quiet.concat id, off, ?_, lines, front, [.cache .invalidateInstruction slot.cached], ?_,
    by simp, List.mem_singleton_self _⟩
  · rw [List.map_append]
    exact List.mem_append_left _ mask
  · rw [List.map_append, split, List.append_assoc]
    rfl

/-- What is known once the loader's word for the television standard has been read. -/
def Looked (word : UInt32) (events : List Event) (status _ : Flags) : Prop :=
  (Quiet events ∧ status.contains CpuStatus.ie = false) ∧
    ⟨.read HandoffRegister.tvType, word⟩ ∈ events

theorem lasting_looked (word : UInt32) : Lasting (Looked word) :=
  (lasting_quiet.and lasting_closed).and (.mem _)

/-- The loader's block is read. -/
theorem honest_readParams {stages : List BootStage} (onRoute : stages <+: route) :
    (hardware gate start).Ensures (honestGuard config memory slot entry start)
      (Knows start (Told stages fun events status _ =>
        Quiet events ∧ status.contains CpuStatus.ie = false)) BootParams.read
      fun params => Knows start (Told stages fun events status lines =>
        ∃ word, params.tvType = .ofCode word ∧ Looked word events status lines) := by
  refine .via (fun word => Knows start (Told stages (Looked word)))
    (ensures_access onRoute id (List.nil_subset _) ?_) fun word => ?_
  · intro events controls word h
    exact ⟨⟨h.1.concat id, h.2⟩, by simp⟩
  have look {register : Register} (ram : register.block = .ram) :
      (Program.read register).Accesses Command.IsPlainNote := .perform _ ⟨.inl ram, id⟩
  iterate 5 refine .bind (ensures_notes onRoute (look rfl) (lasting_looked word)) fun _ => ?_
  exact .done (sound_told onRoute) fun past h => ⟨h.1, word, rfl, h.2⟩

/-- The platform that is detected is the one that the loader's word selects. -/
theorem honest_detect {stages : List BootStage} (onRoute : stages <+: route) {word : UInt32}
    {params : BootParams} (eq : params.tvType = .ofCode word) :
    (hardware gate start).Ensures (honestGuard config memory slot entry start)
      (Knows start (Told stages (Looked word))) (Platform.detect config params)
      fun platform => Knows start (Told stages fun events status lines =>
        platform = Platform.ofWord config word ∧ Looked word events status lines) := by
  obtain ⟨log, viewer, detects⟩ := Platform.exists_detect config params word
  rw [← eq] at detects
  rw [detects]
  have plain : log.Accesses Command.IsPlainNote :=
    viewer.mono fun _ h => ⟨h.isNote (.inr rfl), h.not_isBeacon nofun⟩
  refine .bind (ensures_notes onRoute plain (lasting_looked word)) fun _ => ?_
  exact .done (sound_told onRoute) fun past h => ⟨h.1, rfl, h.2⟩

/-- The survey tells that the vector is patched, and finds the platform that the loader's word
selects. -/
theorem honest_survey (marked : config.bootBeacon = true) :
    (hardware gate start).Ensures (honestGuard config memory slot entry start)
      (Knows start (Told [.entry] fun events status lines =>
        Quiet events ∧ Patched slot entry events status lines)) (survey config entry)
      fun found => Knows start (Told [.entry, .trampoline] fun events status lines =>
        ∃ word, found.2 = Platform.ofWord config word ∧ Looked word events status lines) := by
  have onRoute : [BootStage.entry, .trampoline] <+: route := by decide
  have patched : Lasting fun events status lines =>
      Quiet events ∧ Patched slot entry events status lines := lasting_quiet.and lasting_patched
  refine .bind (ensures_notes (by decide) (LogRecord.plain_emit _ _) patched) fun _ => ?_
  refine .bind (ensures_mark marked onRoute patched fun _ _ _ h => h.2) fun _ => ?_
  refine .bind ((honest_readParams onRoute).of_imp fun _ h => ⟨h.1, h.2.1, h.2.2.closed⟩)
    fun params => ?_
  -- which platform is detected depends on the word, so the word is fixed first
  refine .of_each fun past known => ?_
  obtain ⟨told, word, eq, looked⟩ := known
  have met : ∀ ⦃now⦄, now = past → Knows start (Told [.entry, .trampoline] (Looked word)) now := by
    rintro now rfl
    exact ⟨told, looked⟩
  refine .bind ((honest_detect onRoute eq).of_imp met) fun platform => ?_
  have lasting : Lasting fun events status lines =>
      platform = Platform.ofWord config word ∧ Looked word events status lines :=
    fun _ _ _ _ note h => ⟨h.1, lasting_looked word note h.2⟩
  refine .bind (ensures_notes onRoute (LogRecord.plain_emit _ _) lasting) fun _ => ?_
  exact .done (sound_told onRoute) fun now h => ⟨h.1, word, h.2⟩

/-! ### The picture -/

/-- Bringing the video output up tells no stage. -/
theorem accesses_bringUp_plain (platform : Platform) :
    (Video.bringUp config memory platform color).Accesses fun command => ¬ command.IsBeacon := by
  rw [Video.bringUp_eq_light]
  refine .bind (.write nofun) fun _ => .bind (.perform _ id) fun _ => ?_
  refine (Video.paced_setClearColor _ _).silent.plain.bind fun _ => ?_
  refine (Video.paced_clearFramebuffer _ _ _).silent.plain.bind fun _ => ?_
  refine (Video.paced_clearFramebuffer _ _ _).silent.plain.bind fun _ => ?_
  refine Accesses.bind ((LogRecord.plain_emit _ _).mono fun _ h => h.2) fun _ => ?_
  exact (Video.silent_writeTiming _ _).plain.bind fun _ => .done _

/-- What is told to the video interface ends with the control word. -/
theorem exists_ctrl_of_bringUp {platform : Platform} {events : List Event} {video : Video}
    (run : (Video.bringUp config memory platform color).Runs events (.returned video)) :
    ∃ front ctrl, commandsIn (Command.IsOn .vi) events = front ++ [.write ViRegister.ctrl ctrl] ∧
      platform.profile.ctrl .resampleOnly = .ok ctrl ∧ ctrl ≠ 0 := by
  obtain ⟨x, y, ctrl, eqX, eqY, eqCtrl, lit⟩ := platform.exists_values
  rw [Video.bringUp_eq] at run
  obtain ⟨preparing, _, _, prepared, rest, rfl⟩ := run.of_bind_returned
  obtain ⟨showing, nothing, _, shown, returning, rfl⟩ := rest.of_bind_returned
  cases returning
  have written := Video.emits_writeTiming memory platform eqX eqY eqCtrl shown
  refine ⟨commandsIn (Command.IsOn .vi) preparing ++
    Video.writes (Video.pictureValues memory platform.profile x y), ctrl, ?_, eqCtrl, lit⟩
  rw [commandsIn_append, commandsIn_append, written, commandsIn_nil, List.append_nil,
    List.append_assoc]

/-- **The picture is complete when it is up.** -/
theorem lit_of_bringUp {word : UInt32} {past made : List Event} {video : Video}
    (quiet : Quiet past) (looked : ⟨.read HandoffRegister.tvType, word⟩ ∈ past)
    (run : (Video.bringUp config memory (.ofWord config word) color).Runs made (.returned video)) :
    Lit config memory (past ++ made) := by
  obtain ⟨front, ctrl, shown, value, lit⟩ := exists_ctrl_of_bringUp run
  obtain ⟨before, found, back, split, idle, rest⟩ :=
    settles_bringUp_idle (Platform.ofWord config word) color run
  refine ⟨?_, ⟨past ++ before, found, back, ?_, idle, rest⟩, word, ctrl,
    List.mem_append_left _ looked, value, lit, fun prior => ?_⟩
  · rw [commandsIn_append, quiet, List.nil_append]
    exact emits_bringUp_clears (Platform.ofWord config word) color run
  · rw [split, List.append_assoc]
  · have last : commandsIn (Command.IsOn .vi) (past ++ made) =
        (commandsIn (Command.IsOn .vi) past ++ front) ++ [.write ViRegister.ctrl ctrl] := by
      rw [commandsIn_append, shown, List.append_assoc]
    exact Register.held_of_last prior last

/-- **The picture comes up** without a stage being told, and without letting interrupts through. -/
theorem honest_bringUp (word : UInt32) :
    (hardware Interruptible start).Ensures (honestGuard config memory slot entry start)
      (Knows start (Told [.entry, .trampoline] (Looked word)))
      (Video.bringUp config memory (.ofWord config word) color)
      fun _ => Knows start (Told [.entry, .trampoline] fun events _ _ => Lit config memory events) := by
  have onRoute : [BootStage.entry, .trampoline] <+: route := by decide
  intro past moments ending now h execution
  have masked : Masked (start.behind past).status (start.behind past).lines (fun _ => True)
      (start.behind past) :=
    ⟨by rw [Flags.without_ie_of_not_contains h.2.1.2], rfl, trivial⟩
  obtain ⟨guarded, -, -⟩ := Video.leads_bringUp config memory color _ masked execution
  -- what is told stays told
  let told := Knows start (Told [.entry, .trampoline] fun _ _ _ => True)
  have keeps : (hardware Interruptible start).Keeps (.always told)
      (fun command => ¬ command.IsBeacon) told := by
    refine ⟨sound_knows fun _ h => h, fun _ _ _ h => h, ?_⟩
    rintro past command answer _ plain h ⟨-, rfl⟩
    exact knows_concat.2 ⟨(commandsIn_concat_of_not _ plain).trans h.1, trivial⟩
  have plain : (Video.bringUp config memory (.ofWord config word) color).Accesses
      fun command => ¬ command.IsBeacon := accesses_bringUp_plain _
  obtain ⟨met, final, -⟩ := keeps.ensures plain ⟨h.1, trivial⟩ execution
  have final : told now := final
  have words := plain.of_runs execution.run
  refine ⟨fun moment member => ?_, ?_, ?_⟩
  · have told : told moment.state := met moment member
    exact honest_of_told (words _ (List.mem_map_of_mem member))
      (guarded moment member).2.needs_subset told
  · show commandsIn Command.IsBeacon (accesses now) <+: marks route
    rw [final.1]
    exact marks_prefix onRoute
  · rintro video rfl
    obtain ⟨ticks, rfl, same⟩ := exists_ticks execution.course
    refine ⟨final.1, ?_⟩
    rw [accesses_append, same]
    exact lit_of_bringUp h.2.1.1 h.2.2 execution.run

/-- The picture is told when it is up. -/
theorem honest_bringUpPicture (marked : config.bootBeacon = true) :
    (hardware Interruptible start).Ensures (honestGuard config memory slot entry start)
      (Knows start (Told [.entry] fun events status lines =>
        Quiet events ∧ Patched slot entry events status lines))
      (bringUpPicture config memory entry color)
      fun _ => Knows start (Told [.entry, .trampoline, .video] fun _ _ _ => True) := by
  have onRoute : [BootStage.entry, .trampoline] ++ [.video] <+: route := by decide
  refine .bind (honest_survey marked) fun ⟨params, platform⟩ => .of_each fun past known => ?_
  obtain ⟨told, word, rfl, looked⟩ := known
  have met : ∀ ⦃now⦄, now = past → Knows start (Told [.entry, .trampoline] (Looked word)) now := by
    rintro now rfl
    exact ⟨told, looked⟩
  refine .bind ((honest_bringUp word).of_imp met) fun video => ?_
  refine .bind (ensures_mark marked onRoute lasting_lit fun _ _ _ h => h) fun _ => ?_
  exact .done (sound_told onRoute) fun _ h => ⟨h.1, trivial⟩

/-! ### From the picture into the loop -/

/-- Letting interrupts through is begun when the picture is told, and told when it is done. -/
theorem honest_arm (marked : config.bootBeacon = true) :
    (hardware gate start).Ensures (honestGuard config memory slot entry start)
      (Knows start (Told [.entry, .trampoline, .video] fun _ _ _ => True)) (arm config)
      fun _ => Knows start (Told [.entry, .trampoline, .video, .armed] fun _ _ _ => True) := by
  have onRoute : [BootStage.entry, .trampoline, .video] <+: route := by decide
  have last : [BootStage.entry, .trampoline, .video] ++ [.armed] <+: route := by decide
  let unmasked (events : List Event) (_ _ : Flags) : Prop :=
    .write MiRegister.mask (LineMask.setting InterruptSource.vi.line) ∈ events.map Event.command
  let armed (events : List Event) (status _ : Flags) : Prop := Armed events status
  refine .via (fun _ => Knows start (Told [.entry, .trampoline, .video] unmasked))
    (ensures_access onRoute (by decide) (by decide) ?_) fun _ => ?_
  · intro events controls _ _
    simp [unmasked]
  refine .via (fun _ => Knows start (Told [.entry, .trampoline, .video] armed)) (.via
    (fun _ => Knows start (Told [.entry, .trampoline, .video] unmasked))
    (ensures_access onRoute id (List.nil_subset _) ?_) fun status => ?_) fun _ => ?_
  · intro events controls _ h
    simp only [unmasked, List.map_append]
    exact List.mem_append_left _ h
  · have needs : (Command.setStatus (Interrupts.armedStatus status)).needs ⊆
        [.entry, .trampoline, .video] := by
      rw [Command.needs]
      split <;> decide
    refine .via (fun _ => Knows start (Told [.entry, .trampoline, .video] armed))
      (ensures_access onRoute id needs fun events controls _ h => ?_) fun _ =>
        .done (sound_told onRoute) fun _ h => h
    refine ⟨?_, ?_, Flags.contains_union_right (by decide), Flags.contains_union_right (by decide)⟩
    · rw [List.map_append]
      exact List.mem_append_left _ h
    · simp [Controls.after]
  refine .bind (ensures_notes onRoute (LogRecord.plain_emit _ _) lasting_armed) fun _ => ?_
  refine (ensures_mark marked last lasting_armed fun _ _ _ h => h).mono (fun _ h => h) ?_
  exact fun _ _ h => ⟨h.1, trivial⟩

section

variable {σ : Type} (function : σ → DrawFunction σ) (count : Nat) (console : Console) (state : σ)

/-- Once the loop is told, there is nothing left to tell. -/
theorem honest_frames :
    (hardware gate start).Ensures (honestGuard config memory slot entry start)
      (Knows start (Told route fun _ _ _ => True)) (frames config function count console state)
      fun _ => Knows start (Told route fun _ _ _ => True) := by
  have keeps : (hardware gate start).Keeps (honestGuard config memory slot entry start)
      (fun command => ¬ command.IsBeacon) (Knows start (Told route fun _ _ _ => True)) := by
    refine ⟨sound_told (List.prefix_refl _), fun past command plain h => ?_, ?_⟩
    · exact honest_of_told plain (List.Subset.trans command.needs_subset_route (by decide)) h
    · rintro past command answer _ plain h ⟨-, rfl⟩
      exact knows_concat.2 ⟨(commandsIn_concat_of_not _ plain).trans h.1, trivial⟩
  exact keeps.ensures (silent_frames config function count console state).plain

/-- From the handoff into the loop. -/
def bootAndRun (config : Config) (memory : FrameMemory) (slot : VectorSlot) (entry : Trampoline)
    (color : Color) (function : σ → DrawFunction σ) (state : σ) (count : Nat) :
    Program (Console × σ) := do
  let console ← boot config memory slot entry color
  run config console function state count

/-- Without the beacon nobody writes its words. -/
theorem accesses_bootAndRun_plain (unmarked : config.bootBeacon = false) :
    (bootAndRun config memory slot entry color function state count).Accesses
      fun command => ¬ command.IsBeacon := by
  have silent (stage : BootStage) : mark config stage = .done () := by
    rw [mark, unmarked]
    rfl
  have log (record : LogRecord) : (record.emit config.logFilter).Accesses
      fun command => ¬ command.IsBeacon := (LogRecord.plain_emit _ _).mono fun _ h => h.2
  rw [bootAndRun, boot_eq]
  refine .bind (.bind ?_ fun _ => .bind ?_ fun _ => .bind ?_ fun _ => .done _) fun console => ?_
  · rw [patchVector, silent, done_bind]
    refine Accesses.bind (.step id fun _ => .step id fun _ => .done _) fun _ => ?_
    exact .bind (.write (by decide)) fun _ => .bind (.perform _ id) fun _ => .perform _ id
  · simp only [bringUpPicture, survey, silent, bind_assoc, done_bind]
    refine (log _).bind fun _ => BootParams.silent_read.plain.bind fun params => ?_
    refine .bind ?_ fun _ => (log _).bind fun _ => (accesses_bringUp_plain _).bind fun _ => .done _
    exact (Platform.writes_detect config params).mono fun _ h => h.not_isBeacon (by decide)
  · rw [arm, silent]
    refine .bind (.write (by decide)) fun _ => ?_
    refine Accesses.bind (.step id fun _ => .step id fun _ => .done _) fun _ => ?_
    exact (log _).bind fun _ => .done _
  · rw [run, silent]
    exact (silent_frames config function count console state).plain

/-- **The beacon never lies.** Follow the console from the handoff into its loop, on any machine, and
stop wherever. With the beacon on, every access has been honest: its words come in the order of the
route, each behind the mark; none is written before it is true; and no step is begun before the word
in front of it is in place. With the beacon off, its words have not been written at all. -/
theorem beacon_never_lies {moments : List (Moment (List Tick))} {ending : Ending (Console × σ)}
    {now : List Tick} (execution : (hardware Interruptible start).Execution
      (bootAndRun config memory slot entry color function state count) [] moments ending now) :
    (config.bootBeacon = true →
      (∀ moment ∈ moments,
        Honest config memory slot entry start moment.state moment.event.command) ∧
      commandsIn Command.IsBeacon (accesses now) <+: marks route) ∧
    (config.bootBeacon = false → ∀ moment ∈ moments, ¬ moment.event.command.IsBeacon) := by
  constructor
  · intro marked
    have last : [BootStage.entry, .trampoline, .video, .armed] ++ [.loop] <+: route := by decide
    have way : (hardware Interruptible start).Ensures (honestGuard config memory slot entry start)
        (Knows start (Told [] fun events _ _ => Quiet events))
        (bootAndRun config memory slot entry color function state count)
        fun _ => Knows start (Told route fun _ _ _ => True) := by
      rw [bootAndRun, boot_eq]
      refine .via (fun _ => Knows start (Told [.entry, .trampoline, .video, .armed] fun _ _ _ => True))
        (.bind (honest_patchVector marked) fun _ => .bind (honest_bringUpPicture marked) fun _ =>
          .bind (honest_arm marked) fun _ => .done (sound_told (by decide)) fun _ h => h)
        fun console => ?_
      refine .bind (ensures_mark marked last (fun _ _ _ _ _ h => h) fun _ _ _ h => h) fun _ => ?_
      exact honest_frames function count console state
    have begins : Knows start (Told [] fun events _ _ => Quiet events) [] := ⟨rfl, rfl⟩
    obtain ⟨guarded, final, -⟩ := way begins execution
    exact ⟨guarded, final⟩
  · intro unmarked moment member
    exact (accesses_bootAndRun_plain function count state unmarked).of_runs execution.run _
      (List.mem_map_of_mem member)

end

/-- A console with the beacon on that the loader leaves with interrupts on, all the way into its
loop. -/
theorem beacon_never_lies_interruptible : ∃ moments result now,
    (hardware Interruptible ⟨0x2000FF01, 0x3F, true⟩).Execution
      (bootAndRun ⟨true, true, none, .off⟩ .secondMegabyte .generalException (.ofTarget 0x80000400)
        ⟨0x0001⟩ leaveClear () 0) [] moments (.returned result) now ∧
    (∀ moment ∈ moments, Honest ⟨true, true, none, .off⟩ .secondMegabyte .generalException
      (.ofTarget 0x80000400) ⟨0x2000FF01, 0x3F, true⟩ moment.state moment.event.command) ∧
    commandsIn Command.IsBeacon (accesses now) <+: marks route := by
  have finishes : (bootAndRun ⟨true, true, none, .off⟩ .secondMegabyte .generalException
      (.ofTarget 0x80000400) ⟨0x0001⟩ leaveClear () 0).Finishes := by
    refine (finishable_boot FrameMemory.secondMegabyte_aligned _ _ _).bind fun eq => ?_
    exact finishable_run FrameMemory.secondMegabyte_aligned (fun _ _ _ => ⟨[], (), rfl⟩) () 0 eq
  have noFlag : (bootAndRun ⟨true, true, none, .off⟩ .secondMegabyte .generalException
      (.ofTarget 0x80000400) ⟨0x0001⟩ leaveClear () 0).Accesses (· ≠ .getFence) := by
    refine (accesses_boot _ _ _ _ _).bind fun console => ?_
    exact .bind (.bind (.write nofun) fun _ => .write nofun) fun _ => .done _
  obtain ⟨moments, result, now, -, execution⟩ :=
    (liveWithin Interruptible ⟨0x2000FF01, 0x3F, true⟩).exists_execution finishes noFlag []
  obtain ⟨honest, words⟩ := (beacon_never_lies leaveClear 0 () execution).1 rfl
  exact ⟨moments, result, now, execution, honest, words⟩

end Console

end ColdBoot
