import ColdBoot.Proofs.BootSequence
import ColdBoot.Proofs.FlagBits
import ColdBoot.Proofs.LiveBoard
import ColdBoot.Proofs.Timeline

/-! # The order of the boot

From its first change of the status word on the boot cannot be interrupted before it is ready, though
every wait changes the status word twice. What holds meanwhile is **`Controls.Masked`**: but for
reduced power, the status word is the first one without the interrupt enable. Where it holds no
vertical blank comes, and a wait gives the word back at full power, **`Controls.Ready`**.

* **`Console.leads_bringUpPicture`** – the picture is brought up with interrupts masked;
* **`Console.boot_in_order`** – the whole boot. -/

namespace ColdBoot

open Hardware Program

namespace Controls

/-- The status word lets interrupts through. -/
def Interruptible (controls : Controls) : Prop := controls.status.contains CpuStatus.ie = true

/-- But for reduced power, the status word is a given one without the interrupt enable. -/
structure Masked (status lines : Flags) (flag : Bool → Prop) (controls : Controls) : Prop where
  status_eq : controls.status.without CpuStatus.rp =
    (status.without CpuStatus.ie).without CpuStatus.rp
  lines_eq : controls.lines = lines
  flag_of : flag controls.flag

/-- The same at full power. -/
structure Ready (status lines : Flags) (flag : Bool → Prop) (controls : Controls) : Prop where
  status_eq : controls.status = (status.without CpuStatus.ie).without CpuStatus.rp
  lines_eq : controls.lines = lines
  flag_of : flag controls.flag

variable {status lines : Flags} {flag : Bool → Prop} {controls : Controls}

theorem Masked.contains_eq (h : controls.Masked status lines flag) :
    controls.status.contains CpuStatus.ie = false :=
  Flags.not_contains_of_without _ _ _ h.status_eq (by decide) (by decide)

theorem Masked.not_interruptible (h : controls.Masked status lines flag) :
    ¬ controls.Interruptible := by
  rw [Interruptible, h.contains_eq]
  exact Bool.false_ne_true

theorem Ready.masked (h : controls.Ready status lines flag) : controls.Masked status lines flag where
  status_eq := by rw [h.status_eq, Flags.without_self]
  lines_eq := h.lines_eq
  flag_of := h.flag_of

/-- The controls behind the write that masks every line. -/
theorem Masked.clearLines (h : controls.Masked status lines flag) : Masked status
    (LineMask.apply lines (LineMask.clearing Lines.all)) flag
    (controls.after (.write MiRegister.mask (LineMask.clearing Lines.all))) where
  status_eq := h.status_eq
  lines_eq := congrArg (LineMask.apply · (LineMask.clearing Lines.all)) h.lines_eq
  flag_of := h.flag_of

/-- Reduced power is no matter. -/
theorem Masked.setPower (h : controls.Masked status lines flag) :
    Masked status lines flag { controls with status := controls.status.union CpuStatus.rp } where
  status_eq := by rw [← h.status_eq, Flags.union_without_self]
  lines_eq := h.lines_eq
  flag_of := h.flag_of

theorem Masked.clearPower (h : controls.Masked status lines flag) :
    Ready status lines flag { controls with status := controls.status.without CpuStatus.rp } where
  status_eq := h.status_eq
  lines_eq := h.lines_eq
  flag_of := h.flag_of

end Controls

/-- Work leaves the controls as they are. -/
theorem Command.IsWork.after_eq {command : Command} (h : command.IsWork) (controls : Controls) :
    controls.after command = controls := by
  cases command with
  | write register value =>
    have ne : register ≠ MiRegister.mask := by
      rintro rfl
      exact h rfl
    exact if_neg ne
  | read | fillStaging | cache => rfl
  | _ => exact h.elim

/-- It does not let interrupts through, and leaves their lines and their vector alone. -/
def Command.StaysMasked : Command → Prop
  | .setStatus status => status.contains CpuStatus.ie = false
  | .write register _ => register.block ≠ .mi
  | .cache operation _ => operation ≠ .invalidateInstruction
  | .storeDoubleword _ _ => False
  | _ => True

theorem Command.IsWork.staysMasked {command : Command} (h : command.IsWork) :
    command.StaysMasked := by
  cases command with
  | write | cache => exact h
  | setStatus | storeDoubleword => exact h.elim
  | _ => trivial

namespace Timeline

open Controls

/-- Interrupts are masked at every access, and stay so. -/
def maskedGuard (start : Controls) : Guard (List Tick) where
  access past command := ¬ (start.behind past).Interruptible ∧ command.StaysMasked
  state _ := True

/-- A program leads from controls with one claim to controls with another one, with interrupts masked
all the way. -/
def Leads {α : Type} (start : Controls) (before : Controls → Prop) (program : Program α)
    (after : Controls → Prop) : Prop :=
  (hardware Interruptible start).Ensures (maskedGuard start)
    (fun past => before (start.behind past)) program fun _ past => after (start.behind past)

section

variable {start : Controls}

/-- Where interrupts are masked, the hardware does not move. -/
theorem sound_of_masked {assertion : List Tick → Prop}
    (masked : ∀ past, assertion past → ¬ (start.behind past).Interruptible) :
    (hardware Interruptible start).Sound (maskedGuard start) assertion where
  stable := by
    rintro past _ ⟨interruptible, -⟩ h
    exact absurd interruptible (masked past h)
  state _ _ := trivial

variable {before after : Controls → Prop}
  (masked : ∀ controls, before controls → ¬ controls.Interruptible)
  (masked' : ∀ controls, after controls → ¬ controls.Interruptible)

include masked

/-- Work keeps whatever is said of the controls while interrupts are masked. -/
theorem keeps_of_masked : (hardware Interruptible start).Keeps (maskedGuard start) Command.IsWork
    fun past => before (start.behind past) where
  toSound := sound_of_masked fun _ => masked _
  access _ _ work h := ⟨masked _ h, work.staysMasked⟩
  responds := by
    rintro past command answer _ work h ⟨-, rfl⟩
    rwa [behind_concat, Controls.tick, work.after_eq]

include masked'

/-- An access that changes the controls. -/
theorem leads_change {command : Command} (stays : command.StaysMasked)
    (changes : ∀ controls, before controls → after (controls.after command)) :
    Leads start before (Program.perform command) after := by
  refine .perform (sound_of_masked fun _ => masked _) (fun _ => sound_of_masked fun _ => masked' _)
    ?_ ?_
  · exact fun past h => ⟨masked _ h, stays⟩
  · rintro past answer _ h ⟨-, rfl⟩
    rw [behind_concat]
    exact changes _ h

/-- A change of the status word, which is read first. -/
theorem leads_modifyStatus (change : Flags → Flags)
    (stays : ∀ controls, before controls →
      (change controls.status).contains CpuStatus.ie = false)
    (changes : ∀ controls, before controls →
      after { controls with status := change controls.status }) :
    Leads start before (Cpu.modifyStatus change) after := by
  -- the answer is the word as it is, and no interrupt comes before it is written back
  refine .via (fun status past => before (start.behind past) ∧ status = (start.behind past).status)
    (.perform (sound_of_masked fun _ => masked _)
      (fun _ => sound_of_masked fun _ h => masked _ h.1) ?_ ?_) fun status => ?_
  · exact fun past h => ⟨masked _ h, trivial⟩
  · rintro past status _ h ⟨answered, rfl⟩
    rw [behind_concat]
    exact ⟨h, answered⟩
  · refine .bind (.perform (sound_of_masked fun _ h => masked _ h.1)
      (fun _ => sound_of_masked fun _ => masked' _) ?_ ?_) fun _ =>
        .done (sound_of_masked fun _ => masked' _) fun _ h => h
    · rintro past ⟨h, rfl⟩
      exact ⟨masked _ h, stays _ h⟩
    · rintro past _ _ ⟨h, rfl⟩ ⟨-, rfl⟩
      rw [behind_concat]
      exact changes _ h

end

end Timeline

/-! ### The picture, with interrupts masked -/

section

open Controls

variable {start : Controls} {status lines : Flags} {flag : Bool → Prop}

theorem Idle.leads_enter : Timeline.Leads start (Masked status lines flag) Idle.enter
    (Masked status lines flag) := by
  have masked (controls : Controls) (h : controls.Masked status lines flag) :
      ¬ controls.Interruptible := h.not_interruptible
  refine .bind (Timeline.leads_modifyStatus masked masked (·.union CpuStatus.rp) ?_ ?_)
    fun _ => .done (Timeline.sound_of_masked fun _ => masked _) fun _ h => h
  · exact fun _ h => h.setPower.contains_eq
  · exact fun _ h => h.setPower

theorem Idle.leads_leave : Timeline.Leads start (Masked status lines flag) Idle.leave
    (Ready status lines flag) := by
  have masked (controls : Controls) (h : controls.Ready status lines flag) :
      ¬ controls.Interruptible := h.masked.not_interruptible
  refine .bind (Timeline.leads_modifyStatus (fun _ => Masked.not_interruptible) masked
    (·.without CpuStatus.rp) ?_ ?_) fun _ =>
      .done (Timeline.sound_of_masked fun _ => masked _) fun _ h => h
  · exact fun _ h => h.clearPower.masked.contains_eq
  · exact fun _ h => h.clearPower

/-- **A wait** gives the status word back at full power, and does not let interrupts through. -/
theorem Idle.leads_spin {command : Command} {accepted : command.Answer → Bool}
    (work : command.IsWork) : Timeline.Leads start (Masked status lines flag)
      (Idle.spin command accepted) (Ready status lines flag) := by
  have look : (Program.repeatUntil command accepted).Accesses Command.IsWork :=
    .await work fun answer => .done answer
  refine .bind Idle.leads_enter fun _ => ?_
  refine .bind ((Timeline.keeps_of_masked fun _ => Masked.not_interruptible).ensures look)
    fun answer => ?_
  refine .bind Idle.leads_leave fun _ => .done (Timeline.sound_of_masked fun _ h => ?_)
    fun _ h => h
  exact h.masked.not_interruptible

/-- What is paced neither lets interrupts through nor is changed by waiting. -/
theorem Program.Paced.leads_masked {α : Type} {program : Program α}
    (h : program.Paced Command.IsWork) :
    Timeline.Leads start (Masked status lines flag) program (Masked status lines flag) := by
  refine (Timeline.keeps_of_masked fun _ => Masked.not_interruptible).ensures_paced ?_ h
  intro command accepted work
  exact (Idle.leads_spin work).mono (fun _ h => h) fun _ _ h => h.masked

/-- Behind a first wait it is met at full power. -/
theorem Program.Paced.leads_ready {α : Type} {program : Program α}
    (h : program.Paced Command.IsWork) :
    Timeline.Leads start (Ready status lines flag) program (Ready status lines flag) := by
  refine (Timeline.keeps_of_masked fun _ h => h.masked.not_interruptible).ensures_paced ?_ h
  intro command accepted work
  exact (Idle.leads_spin work).of_imp fun _ h => h.masked

/-- Loading the pattern waits for the signal processor. -/
theorem Video.leads_setClearColor (video : Video) (color : Color) :
    Timeline.Leads start (Masked status lines flag) (video.setClearColor color)
      (Ready status lines flag) := by
  have fill : (Program.perform (.fillStaging video.memory.staging color)).Paced Command.IsWork :=
    .perform _ trivial
  have writeBack : (Cpu.writeBackRange video.memory.staging pageSize.toUInt32).Paced
      Command.IsTransfer := Cpu.paced_cacheRange _ _ _ nofun
  have wait : Timeline.Leads start (Masked status lines flag) Sp.engine.waitIdle
      (Ready status lines flag) := by
    refine .bind (Idle.leads_spin trivial) fun word => .done ?_ fun _ h => h
    exact Timeline.sound_of_masked fun _ h => h.masked.not_interruptible
  refine .bind (fill.leads_masked) fun _ => ?_
  refine .bind ((writeBack.mono fun _ h => h.isWork).leads_masked) fun _ => ?_
  refine .bind wait fun _ => Paced.leads_ready (.ofExcept_bind fun descriptor => ?_)
  refine (((Sp.paced_start descriptor _).bind fun _ => ?_).mono fun _ h => h.isWork)
  exact Sp.paced_waitIdle.bind fun _ => .done _

/-- The video output comes up with interrupts masked, and the flag is down then. -/
theorem Video.leads_bringUp (config : Config) (memory : FrameMemory) (color : Color)
    (platform : Platform) : Timeline.Leads start (Masked status lines flag)
      (Video.bringUp config memory platform color) (Ready status lines (· = false)) := by
  have blank : (Program.write ViRegister.ctrl 0).Paced Command.IsWork := .perform _ nofun
  have clear (index : Fin 2) := (paced_clearFramebuffer config (initial memory platform) index).mono
    fun _ h => h.isWork
  have log := (LogRecord.notes_emit config.logFilter (timingRecord platform)).mono
    fun _ h => h.isWork
  rw [bringUp_eq_light]
  refine .bind (blank.leads_masked) fun _ => ?_
  have lower : Timeline.Leads start (Masked status lines flag) Fence.clear
      (Masked status lines (· = false)) :=
    Timeline.leads_change (fun _ => Masked.not_interruptible) (fun _ => Masked.not_interruptible)
      trivial fun controls h => ⟨h.status_eq, h.lines_eq, rfl⟩
  refine .bind lower fun _ => ?_
  refine .bind (leads_setClearColor _ color) fun _ => Paced.leads_ready ?_
  refine (clear 0).bind fun _ => (clear 1).bind fun _ => log.paced.bind fun _ => ?_
  exact (works_writeTiming _ _).paced.bind fun _ => .done _

/-- **The picture comes up with interrupts masked**, and the flag is down then. -/
theorem Console.leads_bringUpPicture (config : Config) (memory : FrameMemory) (entry : Trampoline)
    (color : Color) : Timeline.Leads start (Masked status lines flag)
      (bringUpPicture config memory entry color) (Ready status lines (· = false)) := by
  have survey := (notes_survey config entry).mono fun _ h => h.isWork
  have beacon := (Beacon.notes_mark config .video).mono fun _ h => h.isWork
  refine .bind (survey.paced.leads_masked) fun found => ?_
  refine .bind (Video.leads_bringUp config memory color found.2) fun video => ?_
  exact Paced.leads_ready (beacon.paced.bind fun _ => .done _)

end

/-! ### In front of the picture, and behind it -/

section

open Controls

variable {gate : Controls → Prop} {start : Controls} {past now : List Tick}
  {moments : List (Moment (List Tick))}

/-- Nothing comes between while the gate is closed. -/
theorem Timeline.eq_of_closed (closed : ¬ gate (start.behind past))
    (moved : (Timeline.hardware gate start).MovesTo past now) : now = past := by
  rcases moved.cases_head with rfl | ⟨_, ⟨opened, -⟩, -⟩
  · rfl
  · exact absurd opened closed

/-- An access, and the controls behind it. -/
theorem Timeline.exists_of_step {α : Type} {command : Command} {next : command.Answer → Program α}
    {value : α} (execution : (Timeline.hardware gate start).Execution (.step command next) past
      moments (.returned value) now) :
    ∃ met answer behind rest, moments = ⟨met, ⟨command, answer⟩⟩ :: rest ∧
      (Timeline.hardware gate start).MovesTo past met ∧ (start.behind met).Answers command answer ∧
      start.behind behind = (start.behind met).after command ∧
      (Timeline.hardware gate start).Execution (next answer) behind rest (.returned value) now := by
  obtain ⟨met, answer, _, rest, rfl, moved, ⟨answered, rfl⟩, behind⟩ := execution.of_step
  exact ⟨met, answer, _, rest, rfl, moved, answered, behind_concat _ _ _, behind⟩

/-- The same while the gate is closed. -/
theorem Timeline.exists_of_step_closed {α : Type} {command : Command}
    {next : command.Answer → Program α} {value : α} (closed : ¬ gate (start.behind past))
    (execution : (Timeline.hardware gate start).Execution (.step command next) past moments
      (.returned value) now) :
    ∃ answer behind rest, moments = ⟨past, ⟨command, answer⟩⟩ :: rest ∧
      (start.behind past).Answers command answer ∧
      start.behind behind = (start.behind past).after command ∧
      (Timeline.hardware gate start).Execution (next answer) behind rest (.returned value) now := by
  obtain ⟨met, answer, behind, rest, rfl, moved, h⟩ := Timeline.exists_of_step execution
  obtain rfl := Timeline.eq_of_closed closed moved
  exact ⟨answer, behind, rest, rfl, h⟩

/-- Notes keep the status word and the lines, whatever comes between them. -/
theorem Timeline.keeps_notes (status lines : Flags) : (Timeline.hardware gate start).Keeps .none
    Command.IsNote fun past => (start.behind past).status = status ∧
      (start.behind past).lines = lines := by
  refine Timeline.keeps (fun _ _ => trivial) (fun _ _ _ _ => trivial) ?_ ?_
  · intro past _ h
    rwa [behind_concat]
  · intro past command answer note h _
    rwa [behind_concat, Controls.tick, note.isWork.after_eq]

namespace Console

variable (config : Config) {memory : FrameMemory} (slot : VectorSlot) (entry : Trampoline)

/-- What is done to the vector, from a status word on. -/
def patchEvents (status : Flags) : List Event :=
  [⟨.getStatus, status⟩, ⟨.setStatus (status.without CpuStatus.ie), ()⟩,
    ⟨.write MiRegister.mask (LineMask.clearing Lines.all), ()⟩,
    ⟨.storeDoubleword slot.uncached entry.word, ()⟩,
    ⟨.cache .invalidateInstruction slot.cached, ()⟩]

/-- How interrupts are let through, from a status word on. -/
def armEvents (status : Flags) : List Event :=
  [⟨.write MiRegister.mask (LineMask.setting InterruptSource.vi.line), ()⟩,
    ⟨.getStatus, (status.without CpuStatus.ie).without CpuStatus.rp⟩,
    ⟨.setStatus ((status.without ((CpuStatus.exl.union CpuStatus.erl).union CpuStatus.rp)).union
      (CpuStatus.im2.union CpuStatus.ie)), ()⟩]

variable {config slot entry}

/-- The vector is patched behind some notes, and interrupts are masked then. -/
theorem exists_of_patchVector (execution : (Timeline.hardware Interruptible start).Execution
      (patchVector config slot entry) past moments (.returned ()) now) :
    ∃ opening patching, moments = opening ++ patching ∧
      (∀ moment ∈ opening, moment.event.command.IsNote) ∧
      patching.map Moment.event = patchEvents slot entry (start.behind past).status ∧
      Masked (start.behind past).status
        (LineMask.apply (start.behind past).lines (LineMask.clearing Lines.all)) (fun _ => True)
        (start.behind now) := by
  obtain ⟨opening, rest, _, noted, rfl, noting, patching⟩ := execution.of_bind
  have notes := (Beacon.notes_mark config .entry).of_runs noting.run
  have keeps : (Timeline.hardware Interruptible start).Keeps .none Command.IsNote fun now =>
      (start.behind now).status = (start.behind past).status ∧
        (start.behind now).lines = (start.behind past).lines := Timeline.keeps_notes _ _
  have kept := (keeps.ensures (Beacon.notes_mark config .entry) ⟨rfl, rfl⟩ noting).2.2 _ rfl
  -- interrupts may still come in front of the first two accesses
  obtain ⟨met, status, read, rest, rfl, moved, answered, same, masking⟩ :=
    Timeline.exists_of_step patching
  have kept := keeps.stable.movesTo moved kept
  obtain rfl : status = (start.behind past).status := Eq.trans answered kept.1
  obtain ⟨met', _, closed, rest, rfl, moved', -, masks, lining⟩ := Timeline.exists_of_step masking
  have kept := keeps.stable.movesTo moved' (by rwa [same])
  -- and none in front of the rest
  have masked : Masked (start.behind past).status (start.behind past).lines (fun _ => True)
      (start.behind closed) := by
    rw [masks]
    exact ⟨rfl, kept.2, trivial⟩
  obtain ⟨_, cleared, rest, rfl, -, clears, vector⟩ :=
    Timeline.exists_of_step_closed masked.not_interruptible lining
  have masked := masked.clearLines
  rw [← clears] at masked
  obtain ⟨_, written, rest, rfl, -, writes, line⟩ :=
    Timeline.exists_of_step_closed masked.not_interruptible vector
  rw [← show start.behind written = start.behind cleared from writes] at masked
  obtain ⟨_, dropped, rest, rfl, -, drops, ending⟩ :=
    Timeline.exists_of_step_closed masked.not_interruptible line
  rw [← show start.behind dropped = start.behind written from drops] at masked
  obtain ⟨rfl, -, resting⟩ := ending.of_done
  obtain rfl := Timeline.eq_of_closed masked.not_interruptible resting
  refine ⟨opening, _, rfl, ?_, rfl, masked⟩
  exact fun moment member => notes _ (List.mem_map_of_mem member)

/-- Interrupts are let through by the last change of the status word, while the flag is down. -/
theorem exists_of_arm {status lines : Flags} (ready : Ready status lines (· = false) (start.behind past))
    (execution : (Timeline.hardware Interruptible start).Execution (arm config) past moments
      (.returned ()) now) :
    ∃ arming closing, moments = arming ++ closing ∧ arming.map Moment.event = armEvents status ∧
      (∀ moment ∈ arming, ¬ (start.behind moment.state).Interruptible ∧
        (start.behind moment.state).flag = false) ∧
      (∀ moment ∈ closing, moment.event.command.IsNote) ∧
      (start.behind now).status =
        (status.without ((CpuStatus.exl.union CpuStatus.erl).union CpuStatus.rp)).union
          (CpuStatus.im2.union CpuStatus.ie) ∧
      (start.behind now).lines =
        LineMask.apply lines (LineMask.setting InterruptSource.vi.line) := by
  obtain ⟨_, set, rest, rfl, -, sets, reading⟩ :=
    Timeline.exists_of_step_closed ready.masked.not_interruptible execution
  have enabled : Ready status (LineMask.apply lines (LineMask.setting InterruptSource.vi.line))
      (· = false) (start.behind set) := by
    rw [sets]
    exact ⟨ready.status_eq,
      congrArg (LineMask.apply · (LineMask.setting InterruptSource.vi.line)) ready.lines_eq,
      ready.flag_of⟩
  obtain ⟨found, read, rest, rfl, answered, reads, writing⟩ :=
    Timeline.exists_of_step_closed enabled.masked.not_interruptible reading
  -- the word that is read is still the one that the boot has masked, so arming it undoes just that
  obtain rfl : found = (status.without CpuStatus.ie).without CpuStatus.rp :=
    Eq.trans answered enabled.status_eq
  have looked := enabled
  rw [← show start.behind read = start.behind set from reads] at looked
  obtain ⟨_, armed, rest, rfl, -, arms, closing⟩ :=
    Timeline.exists_of_step_closed looked.masked.not_interruptible writing
  have notes : (Interrupts.armedRecord.emit config.logFilter >>= fun _ =>
      Beacon.mark config .armed).Accesses Command.IsNote :=
    (LogRecord.notes_emit _ _).bind fun _ => Beacon.notes_mark _ _
  have kept := ((Timeline.keeps_notes _ _).ensures notes ⟨congrArg Controls.status arms,
    (congrArg Controls.lines arms).trans looked.lines_eq⟩ closing).2.2 _ rfl
  refine ⟨_ :: _ :: [_], rest, rfl, ?_, ?_, ?_, ?_, kept.2⟩
  · rw [armEvents, ← Interrupts.armedStatus_of_masked]
    rfl
  · simp only [List.forall_mem_cons]
    exact ⟨⟨ready.masked.not_interruptible, ready.flag_of⟩,
      ⟨enabled.masked.not_interruptible, enabled.flag_of⟩,
      ⟨looked.masked.not_interruptible, looked.flag_of⟩, by simp⟩
  · exact fun moment member => notes.of_runs closing.run _ (List.mem_map_of_mem member)
  · exact Eq.trans kept.1 (Interrupts.armedStatus_of_masked status)

/-- The parts of a boot, in order, and what is known of each; `now` is the history behind it. -/
structure InOrder (memory : FrameMemory) (slot : VectorSlot) (entry : Trampoline) (start : Controls)
    (opening patching picture arming closing : List (Moment (List Tick))) (now : List Tick) :
    Prop where
  /-- Before the status word is changed, there are only notes. -/
  noted : ∀ moment ∈ opening, moment.event.command.IsNote
  /-- Interrupts are masked, then all their lines, and only then the vector is written, and the line
  of the instruction cache that holds it is dropped. -/
  patched : patching.map Moment.event = patchEvents slot entry start.status
  /-- While the picture comes up, interrupts are masked in the status word all the time, and lines
  and vector are left alone. -/
  masked : ∀ moment ∈ picture,
    ¬ (start.behind moment.state).Interruptible ∧ moment.event.command.StaysMasked
  /-- The signal processor loads the pattern and clears both framebuffers. -/
  clears : commandsIn (Command.WritesTo .sp) (picture.map Moment.event) =
    Video.patternWrites memory ++ Video.clearWrites memory 0 ++ Video.clearWrites memory 1
  /-- It is idle when it is looked at for the last time. -/
  idle : LastIn (Command.IsOn .sp) Sp.FindsIdle (picture.map Moment.event)
  /-- The last that is done to the video interface is to turn it on. -/
  shown : LastIn (Command.IsOn .vi) Video.TurnsOn (picture.map Moment.event)
  /-- The video line is let through, and then interrupts are, in one change of the status word. -/
  armed : arming.map Moment.event = armEvents start.status
  /-- Until then they are masked, and the flag is down. -/
  down : ∀ moment ∈ arming, ¬ (start.behind moment.state).Interruptible ∧
    (start.behind moment.state).flag = false
  /-- Behind it there are only notes. -/
  notedAgain : ∀ moment ∈ closing, moment.event.command.IsNote
  /-- The status word is left with the interrupt and its line enabled, outside any exception, and at
  full power. -/
  status_eq : (start.behind now).status =
    (start.status.without ((CpuStatus.exl.union CpuStatus.erl).union CpuStatus.rp)).union
      (CpuStatus.im2.union CpuStatus.ie)
  /-- The video line is the only one that is let through. -/
  lines_eq : (start.behind now).lines.inter Lines.all = InterruptSource.vi.line

theorem emits_bringUp_clears (platform : Platform) (color : Color) :
    (Video.bringUp config memory platform color).Emits (Command.WritesTo .sp)
      (Video.patternWrites memory ++ Video.clearWrites memory 0 ++ Video.clearWrites memory 1) := by
  have timing : ((Video.initial memory platform).writeTiming platform.profile).Emits
      (Command.WritesTo .sp) [] :=
    (Video.writes_writeTiming _ _).emits_nil fun _ vi sp => nomatch vi.block_eq sp.isOn
  rw [Video.bringUp_eq]
  refine (Video.emits_prepare config memory platform color).ahead fun _ => ?_
  exact timing.behind fun _ => .done _

theorem settles_bringUp_idle (platform : Platform) (color : Color) :
    (Video.bringUp config memory platform color).Settles (Command.IsOn .sp) Sp.FindsIdle := by
  rw [Video.bringUp_eq]
  refine (Video.settles_prepare config memory platform color).ahead fun _ => ?_
  have timing : ((Video.initial memory platform).writeTiming platform.profile).Accesses
      fun command => ¬ command.IsOn .sp :=
    (Video.writes_writeTiming _ _).mono fun _ vi sp => nomatch vi.block_eq sp
  exact timing.bind fun _ => .done _

theorem settles_bringUp_shown (platform : Platform) (color : Color) :
    (Video.bringUp config memory platform color).Settles (Command.IsOn .vi) Video.TurnsOn := by
  rw [Video.bringUp_eq]
  exact .behind fun _ => (Video.settles_writeTiming platform _).ahead fun _ => .done _

/-- **The boot cannot be interrupted before it is ready**, whatever the controls are at first, and
however long its waits take. -/
theorem boot_in_order {color : Color} {console : Console}
    (execution : (Timeline.hardware Interruptible start).Execution
      (boot config memory slot entry color) [] moments (.returned console) now) :
    ∃ opening patching picture arming closing,
      moments = opening ++ patching ++ picture ++ arming ++ closing ∧
      InOrder memory slot entry start opening patching picture arming closing now := by
  rw [boot_eq] at execution
  obtain ⟨first, _, _, patched, rfl, patching, execution⟩ := execution.of_bind
  obtain ⟨picture, _, found, up, rfl, bringing, execution⟩ := execution.of_bind
  obtain ⟨last, _, _, armed, rfl, arming, resting⟩ := execution.of_bind
  obtain ⟨rfl, -, resting⟩ := resting.of_done
  obtain ⟨opening, patch, rfl, noted, patchEq, masked⟩ := exists_of_patchVector patching
  obtain ⟨guarded, -, ready⟩ := leads_bringUpPicture config memory entry color masked bringing
  obtain ⟨armings, closing, rfl, armEq, down, notedAgain, kept⟩ := exists_of_arm (ready _ rfl) arming
  -- vertical blanks may come behind the last access
  obtain ⟨status, lines⟩ := (Timeline.keeps_notes _ _).stable.movesTo resting kept
  have offSp (command : Command) (note : command.IsNote) : ¬ command.IsOn .sp :=
    note.not_isOn nofun nofun
  have offVi (command : Command) (note : command.IsNote) : ¬ command.IsOn .vi :=
    note.not_isOn nofun nofun
  refine ⟨opening, patch, picture, armings, closing, by simp, noted, patchEq, guarded, ?_, ?_, ?_,
    armEq, down, notedAgain, status, ?_⟩
  · refine emits_bringUpPicture config memory entry color ?_
      (fun platform => emits_bringUp_clears platform color) bringing.run
    exact fun command note writes => offSp command note writes.isOn
  · exact settles_bringUpPicture config memory entry color offSp
      (fun platform => settles_bringUp_idle platform color) bringing.run
  · exact settles_bringUpPicture config memory entry color offVi
      (fun platform => settles_bringUp_shown platform color) bringing.run
  · rw [lines]
    exact LineMask.apply_setting_clearing start.lines .vi

/-- A console that the loader leaves with interrupts on, all lines let through and the flag up. -/
theorem boot_in_order_interruptible : ∃ console moments now opening patching picture arming closing,
    (Timeline.hardware Interruptible ⟨0x2000FF01, 0x3F, true⟩).Execution silentBoot [] moments
      (.returned console) now ∧
    moments = opening ++ patching ++ picture ++ arming ++ closing ∧
    InOrder .secondMegabyte .generalException (.ofTarget 0x80000400) ⟨0x2000FF01, 0x3F, true⟩
      opening patching picture arming closing now := by
  obtain ⟨moments, console, now, -, execution⟩ :=
    (Timeline.liveWithin Interruptible ⟨0x2000FF01, 0x3F, true⟩).exists_execution
      finishable_silentBoot (accesses_boot _ _ _ _ _) []
  obtain ⟨opening, patching, picture, arming, closing, eq, order⟩ := boot_in_order execution
  exact ⟨console, moments, now, opening, patching, picture, arming, closing, execution, eq, order⟩

end Console

end

end ColdBoot
