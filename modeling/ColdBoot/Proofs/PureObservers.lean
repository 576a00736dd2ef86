import ColdBoot.Proofs.LiveBoard
import ColdBoot.Proofs.Remarks

/-! # The log and the beacon only observe

How much is logged and whether the beacon is on is decided when a program is built. It decides which
remarks are made on the way, and nothing else: whatever is done with a console, from the handoff on,
is done by programs that are kin.

* **`Console.kin_boot`** – boots with more or less to say are kin;
* **`Console.Request`**, **`Console.bootAndServe`** – what is asked of a console, with the results
that come back;
* **`Console.kin_bootAndServe`** – all of that is kin as well;
* **`Console.remarks_change_nothing`** – so hardware that takes no notice of remarks cannot tell them
apart;
* **`recorder`** – such hardware: a machine at rest, which remembers all that is done to it. -/

namespace ColdBoot

open Program

/-! ### Remarks and nothing else -/

theorem Viewer.onlyRemarks_fill (slot : Nat) (words : List (List UInt8)) :
    OnlyRemarks (Viewer.fill slot words) := by
  induction words generalizing slot with
  | nil => exact .done ()
  | cons word rest ih => exact (OnlyRemarks.write (.inl rfl) _).bind (ih (slot + 1))

theorem Viewer.onlyRemarks_write (text : String) : OnlyRemarks (Viewer.write text) :=
  .forM _ fun _ => (Viewer.onlyRemarks_fill 0 _).bind (.write (.inl rfl) _)

theorem LogRecord.onlyRemarks_emit (filter : LogFilter) (record : LogRecord) :
    OnlyRemarks (record.emit filter) := by
  unfold LogRecord.emit
  split
  · exact .forM _ Viewer.onlyRemarks_write
  · exact .done ()

theorem Beacon.onlyRemarks_mark (config : Config) (stage : BootStage) :
    OnlyRemarks (Beacon.mark config stage) := by
  unfold Beacon.mark
  split
  · exact (OnlyRemarks.write (.inr (.inl rfl)) _).bind (.write (.inr (.inr rfl)) _)
  · exact .done ()

/-- However much is logged, a record is logged with remarks only. -/
theorem LogRecord.kin_emit (filter filter' : LogFilter) (record : LogRecord) :
    Kin (record.emit filter) (record.emit filter') :=
  (onlyRemarks_emit filter record).kin (onlyRemarks_emit filter' record)

/-- With the beacon or without, a stage is told with remarks only. -/
theorem Beacon.kin_mark (config config' : Config) (stage : BootStage) :
    Kin (Beacon.mark config stage) (Beacon.mark config' stage) :=
  (onlyRemarks_mark config stage).kin (onlyRemarks_mark config' stage)

/-! ### Programs with more or less to say -/

/-- A program's choices, with the beacon on or off, and so much logged. -/
def Config.saying (config : Config) (bootBeacon : Bool) (logFilter : LogFilter) : Config :=
  { config with bootBeacon, logFilter }

section

variable (config : Config) (beacon beacon' : Bool) (filter filter' : LogFilter)

theorem Platform.kin_detect (params : BootParams) :
    Kin (Platform.detect (config.saying beacon filter) params)
      (Platform.detect (config.saying beacon' filter') params) := by
  unfold Platform.detect
  dsimp only [Config.saying]
  cases config.pinnedPlatform with
  | some platform => exact .done platform
  | none =>
    cases Platform.ofTvType params.tvType with
    | ok platform => exact .done platform
    | error error => exact (LogRecord.kin_emit _ _ _).bind fun _ => .done _

theorem Video.kin_bringUp (memory : FrameMemory) (platform : Platform) (color : Color) :
    Kin (Video.bringUp (config.saying beacon filter) memory platform color)
      (Video.bringUp (config.saying beacon' filter') memory platform color) := by
  refine .behind (silent_write (by decide) _) fun _ => .behind (.perform _ trivial) fun _ => ?_
  refine .behind (paced_setClearColor _ color).silent fun _ => ?_
  refine .behind (paced_clearFramebuffer config _ 0).silent fun _ => ?_
  refine .behind (paced_clearFramebuffer config _ 1).silent fun _ => ?_
  refine (LogRecord.kin_emit _ _ _).bind fun _ => ?_
  exact .behind (silent_writeTiming _ _) fun _ => .done _

namespace Console

variable {σ : Type} (memory : FrameMemory) (slot : VectorSlot) (entry : Trampoline) (color : Color)

theorem kin_patchVector : Kin (patchVector (config.saying beacon filter) slot entry)
    (patchVector (config.saying beacon' filter') slot entry) := by
  refine (Beacon.kin_mark _ _ _).bind fun _ => ?_
  refine .behind Cpu.silent_disableInterrupts fun _ => ?_
  refine .behind (silent_write (by decide) _) fun _ => ?_
  exact .refl (.bind (.perform _ trivial) fun _ => .perform _ trivial)

theorem kin_survey : Kin (survey (config.saying beacon filter) entry)
    (survey (config.saying beacon' filter') entry) := by
  refine (LogRecord.kin_emit _ _ _).bind fun _ => (Beacon.kin_mark _ _ _).bind fun _ => ?_
  refine .behind BootParams.silent_read fun params => ?_
  refine (Platform.kin_detect config _ _ _ _ params).bind fun platform => ?_
  exact (LogRecord.kin_emit _ _ _).bind fun _ => .done _

theorem kin_bringUpPicture :
    Kin (bringUpPicture (config.saying beacon filter) memory entry color)
      (bringUpPicture (config.saying beacon' filter') memory entry color) := by
  refine (kin_survey config _ _ _ _ entry).bind fun found => ?_
  refine (Video.kin_bringUp config _ _ _ _ memory found.2 color).bind fun video => ?_
  exact (Beacon.kin_mark _ _ _).bind fun _ => .done _

theorem kin_arm : Kin (arm (config.saying beacon filter)) (arm (config.saying beacon' filter')) := by
  refine .behind (silent_write (by decide) _) fun _ => ?_
  refine .behind (Cpu.silent_modifyStatus _) fun _ => ?_
  exact (LogRecord.kin_emit _ _ _).bind fun _ => Beacon.kin_mark _ _ _

/-- **Boots are kin**, however much they have to say. -/
theorem kin_boot : Kin (boot (config.saying beacon filter) memory slot entry color)
    (boot (config.saying beacon' filter') memory slot entry color) := by
  rw [boot_eq, boot_eq]
  refine (kin_patchVector config _ _ _ _ slot entry).bind fun _ => ?_
  refine (kin_bringUpPicture config _ _ _ _ memory entry color).bind fun found => ?_
  exact (kin_arm config _ _ _ _).bind fun _ => .done _

/-! ### A console that is asked -/

/-- What is asked of a booted console. Whoever asks keeps a state, and finds the results in it. -/
inductive Request (σ : Type) where
  /-- Show a frame. -/
  | frame (function : σ → DrawFunction σ)
  /-- Move bytes over the cartridge bus, and heed how that went. -/
  | transfer (descriptor : PiDescriptor) (direction : Direction)
      (heed : Except BootError Unit → σ → σ)
  /-- Go through so many frames of the endless loop. -/
  | loop (function : σ → DrawFunction σ) (count : Nat)
  /-- Give up for good. -/
  | halt

omit memory slot entry color in
/-- The program of a request. -/
def Request.program (config : Config) : Request σ → Console → σ → Program (Console × σ)
  | .frame function, console, state => console.frame config (function state)
  | .transfer descriptor direction heed, console, state => do
      let result ← Pi.transfer descriptor direction
      return (console, heed result state)
  | .loop function count, console, state => console.run config function state count
  | .halt, console, state => do
      console.halt config
      return (console, state)

/-- Requests, one behind the other. -/
def serve (config : Config) : List (Request σ) → Console → σ → Program (Console × σ)
  | [], console, state => return (console, state)
  | request :: rest, console, state => do
      let (console, state) ← request.program config console state
      serve config rest console state

/-- From the handoff to the last of some requests. -/
def bootAndServe (config : Config) (memory : FrameMemory) (slot : VectorSlot) (entry : Trampoline)
    (color : Color) (requests : List (Request σ)) (state : σ) : Program (Console × σ) := do
  let console ← boot config memory slot entry color
  serve config requests console state

theorem kin_frames (function : σ → DrawFunction σ) (count : Nat) (console : Console) (state : σ) :
    Kin (frames (config.saying beacon filter) function count console state)
      (frames (config.saying beacon' filter') function count console state) := by
  induction count generalizing console state with
  | zero => exact .done _
  | succ count ih => exact .behind (silent_frame config console _) fun next => ih next.1 next.2

theorem kin_request (request : Request σ) (console : Console) (state : σ) :
    Kin (request.program (config.saying beacon filter) console state)
      (request.program (config.saying beacon' filter') console state) := by
  cases request with
  | frame function => exact .refl (silent_frame config console (function state))
  | transfer descriptor direction heed =>
    exact .behind (Pi.silent_transfer descriptor direction) fun _ => .done _
  | loop function count =>
    exact (Beacon.kin_mark _ _ _).bind fun _ => kin_frames config _ _ _ _ function count console state
  | halt =>
    refine ((Beacon.kin_mark _ _ _).bind fun _ => ?_).bind fun _ => .done _
    exact (LogRecord.kin_emit _ _ _).bind fun _ => .refl Cpu.silent_halt

theorem kin_serve (requests : List (Request σ)) (console : Console) (state : σ) :
    Kin (serve (config.saying beacon filter) requests console state)
      (serve (config.saying beacon' filter') requests console state) := by
  induction requests generalizing console state with
  | nil => exact .done _
  | cons request rest ih =>
    exact (kin_request config _ _ _ _ request console state).bind fun found => ih found.1 found.2

/-- **Whatever is asked of a console** from the handoff on, the programs are kin. -/
theorem kin_bootAndServe (requests : List (Request σ)) (state : σ) :
    Kin (bootAndServe (config.saying beacon filter) memory slot entry color requests state)
      (bootAndServe (config.saying beacon' filter') memory slot entry color requests state) :=
  (kin_boot config _ _ _ _ memory slot entry color).bind fun console =>
    kin_serve config _ _ _ _ requests console state

end Console

end

/-! ### Hardware that does not listen -/

namespace Console

/-- **The log and the beacon only observe.** Boot a console and ask anything of it, once with the
beacon and the log set in one way, and once in another, on hardware that takes no notice of remarks,
from states that have the same in view. Each execution has its counterpart: it ends alike and with
the same results, it makes the same accesses with the same answers but for remarks, meeting the same
in view at each of them, and it leaves the same in view. Where the hardware leaves no choice this is
said of any two that come to an end. And an interrupt is served without a remark, whatever its cause
and whichever lines are pending and enabled. -/
theorem remarks_change_nothing {σ ρ τ : Type} {hw : Hardware σ} {view : σ → ρ}
    (overlooks : hw.Overlooks view) (config : Config) (beacon beacon' : Bool)
    (filter filter' : LogFilter) (memory : FrameMemory) (slot : VectorSlot) (entry : Trampoline)
    (color : Color) (requests : List (Request τ)) (state : τ) {s s' : σ} (start : view s = view s') :
    (∀ {moments : List (Moment σ)} {ending : Ending (Console × τ)} {t : σ},
      hw.Execution (bootAndServe (config.saying beacon filter) memory slot entry color requests
        state) s moments ending t →
      ∃ moments' t', hw.Execution (bootAndServe (config.saying beacon' filter') memory slot entry
          color requests state) s' moments' ending t' ∧
        besidesRemarks view moments = besidesRemarks view moments' ∧ view t = view t') ∧
    (hw.Determined → ∀ {moments moments' : List (Moment σ)} {ending ending' : Ending (Console × τ)}
      {t t' : σ}, ending ≠ .cut → ending' ≠ .cut →
      hw.Execution (bootAndServe (config.saying beacon filter) memory slot entry color requests
        state) s moments ending t →
      hw.Execution (bootAndServe (config.saying beacon' filter') memory slot entry color requests
        state) s' moments' ending' t' →
      besidesRemarks view moments = besidesRemarks view moments' ∧ ending = ending' ∧
        view t = view t') ∧
    (∀ cause, (Interrupt.dispatch cause).Accesses Command.IsSilent) ∧
      Interrupt.handle.Accesses Command.IsSilent := by
  have kin := kin_bootAndServe config beacon beacon' filter filter' memory slot entry color requests
    state
  refine ⟨fun execution => overlooks.exists_counterpart kin start execution, ?_,
    Interrupt.silent_dispatch, Interrupt.silent_handle⟩
  intro determined _ _ _ _ _ _ complete complete' first second
  exact overlooks.agree determined kin start complete complete' first second

end Console

/-! ### A machine at rest -/

/-- What is answered at rest: registers read zero, and the vblank flag is up. -/
def Command.atRest : (command : Command) → command.Answer
  | .getStatus => (0 : Flags)
  | .getCause | .read _ => (0 : UInt32)
  | .getFence => true
  | .loadFrame _ => Framebuffer.blank
  | .setStatus _ | .cache _ _ | .write _ _ | .storeDoubleword _ _ | .setFence _
  | .storePixels _ _ | .fillStaging _ _ => ()

namespace Program

variable {α β : Type}

/-- What a program comes to at rest, if no wait of it is refused. -/
def atRest : Program α → Option α
  | .done value => some value
  | .stop _ => none
  | .step command next => (next command.atRest).atRest
  | .await command accepted next =>
      if accepted command.atRest then (next command.atRest).atRest else none

theorem atRest_bind (program : Program α) (f : α → Program β) :
    (program >>= f).atRest = program.atRest.bind fun value => (f value).atRest := by
  induction program with
  | done => rfl
  | stop => rfl
  | step command next ih => exact ih command.atRest
  | await command accepted next ih =>
    rw [await_bind, atRest, atRest, ih]
    split <;> rfl

theorem atRest_bind_of_some {program : Program α} {value : α} (h : program.atRest = some value)
    (f : α → Program β) : (program >>= f).atRest = (f value).atRest := by
  rw [atRest_bind, h]
  rfl

/-- A finishable program comes to its end at rest. -/
theorem Finishable.exists_atRest {program : Program α} {result : α → Prop}
    (h : program.Finishable result) : ∃ value, program.atRest = some value ∧ result value := by
  induction h with
  | @done value member => exact ⟨value, rfl, member⟩
  | step _ ih => exact ih _
  | @await command accepted next wait _ ih =>
    -- at rest every engine is idle and the flag is up, which is all that is waited for
    have taken : accepted command.atRest = true := by
      cases wait <;> decide
    rw [atRest, if_pos taken]
    exact ih _

end Program

/-- A machine at rest that remembers what is done to it, remarks included. -/
def recorder : Hardware (List Command) where
  moves _ _ := False
  responds past command answer now := answer = command.atRest ∧ now = past ++ [command]

namespace recorder

/-- All that it remembers but remarks. -/
def silences (past : List Command) : List Command := past.filter fun command => ¬ command.IsRemark

theorem overlooks : recorder.Overlooks silences where
  accepts command _ past := ⟨command.atRest, past ++ [command], rfl, rfl⟩
  remarks := by
    rintro past command _ _ remark ⟨rfl, rfl⟩
    simp [silences, remark]
  moves _ _ _ _ move := move.elim
  responds := by
    rintro past past' command _ _ silent same ⟨rfl, rfl⟩
    refine ⟨past' ++ [command], ⟨rfl, rfl⟩, ?_⟩
    rw [silences, List.filter_append, silences, List.filter_append]
    exact congrArg (· ++ _) same

theorem determined : recorder.Determined where
  still _ _ := id
  responds := by
    rintro past command _ _ _ _ ⟨rfl, rfl⟩ ⟨rfl, rfl⟩
    exact ⟨rfl, rfl⟩

theorem exists_execution {α : Type} {program : Program α} {value : α}
    (h : program.atRest = some value) (past : List Command) :
    ∃ moments now, recorder.Execution program past moments (.returned value) now := by
  induction program generalizing past with
  | done =>
    cases h
    exact ⟨[], past, .done _, .rest .refl⟩
  | stop => cases h
  | step command next ih =>
    obtain ⟨moments, now, execution⟩ := ih _ h (past ++ [command])
    exact ⟨⟨past, ⟨command, command.atRest⟩⟩ :: moments, now, .step ⟨rfl, rfl⟩ execution⟩
  | await command accepted next ih =>
    rw [atRest] at h
    split at h
    · next taken =>
      obtain ⟨moments, now, execution⟩ := ih _ h (past ++ [command])
      exact ⟨⟨past, ⟨command, command.atRest⟩⟩ :: moments, now, .accept _ taken execution.run,
        .access .refl ⟨rfl, rfl⟩ execution.course⟩
    · cases h

end recorder

namespace Console

/-- A frame, sixteen bytes from the cartridge, and two more frames in the loop. The state is what
came of the bytes. -/
def errand : List (Request (Option (Except BootError Unit))) :=
  [.frame fun state _ _ => .ok ([], state),
    .transfer ⟨.ofAddress 0x200000, .ofAddress 0x10001000, 16⟩ .toRdram fun result _ => some result,
    .loop (fun state _ _ => .ok ([], state)) 2]

theorem exists_atRest_errand (config : Config) : ∃ result,
    (bootAndServe config .secondMegabyte .generalException (.ofTarget 0x80000400) ⟨0x0001⟩ errand
      none).atRest = some result := by
  have aligned := FrameMemory.secondMegabyte_aligned
  -- each request with the console that the one in front of it leaves
  obtain ⟨booted, boots, eq⟩ : ∃ booted, (boot config .secondMegabyte .generalException
      (.ofTarget 0x80000400) ⟨0x0001⟩).atRest = some booted ∧
        booted.video.memory = .secondMegabyte :=
    (finishable_boot aligned _ _ _).exists_atRest
  obtain ⟨⟨shown, state⟩, shows, eq⟩ : ∃ shown, (frame config booted fun _ _ =>
      .ok ([], (none : Option (Except BootError Unit)))).atRest = some shown ∧
        shown.1.video.memory = .secondMegabyte :=
    (finishable_frame aligned (fun _ _ => ⟨_, _, rfl⟩) eq).exists_atRest
  have fetches : (Pi.transfer ⟨.ofAddress 0x200000, .ofAddress 0x10001000, 16⟩ .toRdram).atRest =
      some (.ok ()) := rfl
  obtain ⟨looped, loops, -⟩ : ∃ looped, (run config shown (fun state _ _ => .ok ([], state))
      (some (.ok ()) : Option (Except BootError Unit)) 2).atRest = some looped ∧ True :=
    (finishable_run aligned (fun _ _ _ => ⟨_, _, rfl⟩) _ 2 eq).exists_atRest
  refine ⟨looped, ?_⟩
  rw [bootAndServe, atRest_bind_of_some boots, errand, serve, Request.program,
    atRest_bind_of_some shows]
  dsimp only
  rw [serve, Request.program, bind_assoc, atRest_bind_of_some fetches, pure_bind]
  dsimp only
  rw [serve, Request.program, atRest_bind_of_some loops]
  rfl

/-- With everything said and with nothing said, the errand has the same result. -/
theorem remarks_change_nothing_recorded : ∃ moments moments' result now now',
    recorder.Execution (bootAndServe ((Config.silent true).saying true ⟨some .trace⟩)
      .secondMegabyte .generalException (.ofTarget 0x80000400) ⟨0x0001⟩ errand none) [] moments
      (.returned result) now ∧
    recorder.Execution (bootAndServe ((Config.silent true).saying false .off)
      .secondMegabyte .generalException (.ofTarget 0x80000400) ⟨0x0001⟩ errand none) [] moments'
      (.returned result) now' ∧
    besidesRemarks recorder.silences moments = besidesRemarks recorder.silences moments' ∧
      recorder.silences now = recorder.silences now' := by
  -- the two come to their ends apart, and nothing yet says that their results are the same
  obtain ⟨result, comes⟩ := exists_atRest_errand ((Config.silent true).saying true ⟨some .trace⟩)
  obtain ⟨result', comes'⟩ := exists_atRest_errand ((Config.silent true).saying false .off)
  obtain ⟨moments, now, loud⟩ := recorder.exists_execution comes []
  obtain ⟨moments', now', quiet⟩ := recorder.exists_execution comes' []
  obtain ⟨-, agree, -⟩ := remarks_change_nothing recorder.overlooks (.silent true) true false
    ⟨some .trace⟩ .off .secondMegabyte .generalException (.ofTarget 0x80000400) ⟨0x0001⟩ errand none
    (Eq.refl (recorder.silences []))
  have complete (result : Console × Option (Except BootError Unit)) :
      Ending.returned result ≠ .cut := nofun
  obtain ⟨alike, same, final⟩ :=
    agree recorder.determined (complete result) (complete result') loud quiet
  cases same
  exact ⟨moments, moments', result, now, now', loud, quiet, alike, final⟩

end Console

end ColdBoot
