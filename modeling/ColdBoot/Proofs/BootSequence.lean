import ColdBoot.Proofs.Emission

/-! # The boot, step by step

The boot patches the exception vector with everything masked, brings the picture up, and arms the
video interrupt. **`Console.boot_eq`** puts it together from these three steps; what surrounds them
are **notes**, to the beacon and to the log, and looks at what the loader has left.

* **`Console.emits_boot_flag`** – the boot lowers the flag once and does not look at it;
* **`Console.emits_bringUpPicture`**, **`Console.settles_bringUpPicture`** – what bringing the video
  output up is known to do, bringing the picture up does. -/

namespace ColdBoot

open Program

namespace Command

/-- What it takes to bring the picture up: looks at registers, writes to any block but the interrupt
controller, the staging page, and data lines of the cache. -/
def IsWork : Command → Prop
  | .read _ | .fillStaging _ _ => True
  | .write register _ => register.block ≠ .mi
  | .cache operation _ => operation ≠ .invalidateInstruction
  | _ => False

/-- A look at a word in low RDRAM, or something left there or in the log window. -/
def IsNote : Command → Prop
  | .read register | .write register _ => register.block = .ram ∨ register.block = .viewer
  | _ => False

/-- Anything but a picture and a look at the vblank flag. -/
def IsBooting : Command → Prop
  | .getFence | .loadFrame _ | .storePixels _ _ => False
  | _ => True

/-- An access to the vblank flag. -/
def IsFlag : Command → Prop
  | .setFence _ | .getFence => True
  | _ => False

instance : DecidablePred IsFlag
  | .setFence _ | .getFence => instDecidableTrue
  | .getStatus | .setStatus _ | .getCause | .cache _ _ | .read _ | .write _ _
  | .storeDoubleword _ _ | .loadFrame _ | .storePixels _ _ | .fillStaging _ _ => instDecidableFalse

variable {command : Command}

theorem WritesTo.isNote {block : RegisterBlock} (h : command.WritesTo block)
    (place : block = .ram ∨ block = .viewer) : command.IsNote := by
  cases command with
  | write register value =>
    obtain rfl : register.block = block := h
    exact place
  | _ => exact h.elim

theorem IsNote.not_isOn (h : command.IsNote) {block : RegisterBlock} (ram : block ≠ .ram)
    (viewer : block ≠ .viewer) : ¬ command.IsOn block := by
  cases command with
  | read register | write register value =>
    intro on
    obtain rfl : register.block = block := on
    exact h.elim ram viewer
  | _ => exact h.elim

theorem IsNote.isWork (h : command.IsNote) : command.IsWork := by
  cases command with
  | read => trivial
  | write register value =>
    intro mi
    rw [IsNote, mi] at h
    exact h.elim nofun nofun
  | _ => exact h.elim

theorem WritesTo.isWork {block : RegisterBlock} (h : command.WritesTo block) (ne : block ≠ .mi) :
    command.IsWork := by
  cases command with
  | write register value =>
    obtain rfl : register.block = block := h
    exact ne
  | _ => exact h.elim

theorem IsTransfer.isWork (h : command.IsTransfer) : command.IsWork := by
  cases command with
  | read | fillStaging => trivial
  | write register value =>
    intro mi
    cases Eq.trans (Eq.symm h) mi
  | cache => exact h
  | _ => exact h.elim

theorem IsWork.isBooting (h : command.IsWork) : command.IsBooting := by
  cases command with
  | getFence | loadFrame | storePixels => exact h
  | _ => trivial

theorem IsStatus.isBooting (h : command.IsStatus) : command.IsBooting := by
  cases command with
  | getFence | loadFrame | storePixels => exact h
  | _ => trivial

theorem IsWork.not_isFlag (h : command.IsWork) : ¬ command.IsFlag := by
  cases command with
  | setFence | getFence => exact h.elim
  | _ => exact id

theorem IsStatus.not_isFlag (h : command.IsStatus) : ¬ command.IsFlag := by
  cases command with
  | setFence | getFence => exact h.elim
  | _ => exact id

end Command

/-! ### Notes -/

theorem LogRecord.notes_emit (filter : LogFilter) (record : LogRecord) :
    (record.emit filter).Accesses Command.IsNote :=
  (LogRecord.writes_emit filter record).mono fun _ h => h.isNote (.inr rfl)

theorem Beacon.writes_mark (config : Config) (stage : BootStage) :
    (Beacon.mark config stage).Accesses (Command.WritesTo .ram) := by
  unfold Beacon.mark
  split
  · exact Accesses.bind (.write rfl) fun _ => .write rfl
  · exact .done ()

theorem Beacon.notes_mark (config : Config) (stage : BootStage) :
    (Beacon.mark config stage).Accesses Command.IsNote :=
  (Beacon.writes_mark config stage).mono fun _ h => h.isNote (.inl rfl)

theorem BootParams.notes_read : BootParams.read.Accesses Command.IsNote := by
  have look {register : Register} (h : register.block = .ram) :
      (Program.read register).Accesses Command.IsNote := .perform _ (.inl h)
  iterate 6 refine (look rfl).bind fun _ => ?_
  exact .done _

theorem Platform.notes_detect (config : Config) (params : BootParams) :
    (Platform.detect config params).Accesses Command.IsNote := by
  unfold Platform.detect
  cases config.pinnedPlatform with
  | some platform => exact .done platform
  | none =>
    cases Platform.ofTvType params.tvType with
    | ok platform => exact .done platform
    | error error => exact (LogRecord.notes_emit _ _).bind fun _ => .done _

/-! ### The video output -/

namespace Video

variable (config : Config) (memory : FrameMemory) (color : Color) (platform : Platform)

/-- Bringing up, once nothing is shown and the flag has been lowered. -/
def light : Program Video := do
  (initial memory platform).setClearColor color
  clearFramebuffer config (initial memory platform) ⟨0, Nat.zero_lt_two⟩
  clearFramebuffer config (initial memory platform) ⟨1, Nat.one_lt_two⟩
  (timingRecord platform).emit config.logFilter
  (initial memory platform).writeTiming platform.profile
  return initial memory platform

theorem bringUp_eq_light : bringUp config memory platform color = (do
    Program.write ViRegister.ctrl 0
    Fence.clear
    light config memory color platform) := by
  simp only [bringUp_eq, prepare, light, bind_assoc]

/-- Writing the registers of the picture is work. -/
theorem works_writeTiming (video : Video) (profile : TimingProfile) :
    (video.writeTiming profile).Accesses Command.IsWork :=
  (writes_writeTiming video profile).mono fun _ h => h.isWork nofun

theorem paced_light : (light config memory color platform).Paced Command.IsWork := by
  have clear (index : Fin 2) := (paced_clearFramebuffer config (initial memory platform) index).mono
    fun _ h => h.isWork
  have log := (LogRecord.notes_emit config.logFilter (timingRecord platform)).mono
    fun _ h => h.isWork
  refine ((paced_setClearColor (initial memory platform) color).mono fun _ h => h.isWork).bind
    fun _ => (clear 0).bind fun _ => (clear 1).bind fun _ => log.paced.bind fun _ => ?_
  exact (works_writeTiming _ _).paced.bind fun _ => .done _

end Video

/-! ### The steps of the boot -/

namespace Console

variable (config : Config) (memory : FrameMemory) (slot : VectorSlot) (entry : Trampoline)
  (color : Color)

/-- Mask everything and patch the exception vector. -/
def patchVector : Program Unit := do
  Beacon.mark config .entry
  let _ ← Cpu.disableInterrupts
  Lines.disable Lines.all
  Program.perform (.storeDoubleword slot.uncached entry.word)
  Program.perform (.cache .invalidateInstruction slot.cached)

/-- Find out what the loader has left, and on which platform. -/
def survey : Program (BootParams × Platform) := do
  entry.installedRecord.emit config.logFilter
  Beacon.mark config .trampoline
  let params ← BootParams.read
  let platform ← Platform.detect config params
  (bootRecord params platform).emit config.logFilter
  return (params, platform)

/-- From the patched vector to a picture of the clear colour. -/
def bringUpPicture : Program (BootParams × Video) := do
  let (params, platform) ← survey config entry
  let video ← Video.bringUp config memory platform color
  Beacon.mark config .video
  return (params, video)

/-- Let the video interrupt through. -/
def arm : Program Unit := do
  Lines.enable InterruptSource.vi.line
  let _ ← Cpu.modifyStatus Interrupts.armedStatus
  Interrupts.armedRecord.emit config.logFilter
  Beacon.mark config .armed

/-- **The boot**: the vector is patched with everything masked, the picture comes up, and the video
interrupt is armed. -/
theorem boot_eq : boot config memory slot entry color = (do
    patchVector config slot entry
    let (params, video) ← bringUpPicture config memory entry color
    arm config
    return { video, params, interrupts := {}, frameCount := 0 }) := by
  simp only [boot, patchVector, survey, bringUpPicture, arm, Interrupts.install,
    Interrupts.armVideo, Trampoline.install, bind_assoc, pure_bind]

theorem notes_survey : (survey config entry).Accesses Command.IsNote := by
  refine (LogRecord.notes_emit _ _).bind fun _ => (Beacon.notes_mark _ _).bind fun _ => ?_
  refine BootParams.notes_read.bind fun params => (Platform.notes_detect _ _).bind fun platform => ?_
  exact (LogRecord.notes_emit _ _).bind fun _ => .done _

section

variable {K : Command → Prop} (away : ∀ command, command.IsNote → ¬ K command)

include away

theorem emits_bringUpPicture [DecidablePred K] {commands : List Command}
    (h : ∀ platform, (Video.bringUp config memory platform color).Emits K commands) :
    (bringUpPicture config memory entry color).Emits K commands := by
  refine ((notes_survey config entry).emits_nil away).behind fun found => ?_
  refine (h found.2).ahead fun video => ?_
  exact ((Beacon.notes_mark config .video).emits_nil away).behind fun _ => .done _

theorem settles_bringUpPicture {last : Event → Prop}
    (h : ∀ platform, (Video.bringUp config memory platform color).Settles K last) :
    (bringUpPicture config memory entry color).Settles K last := by
  refine .behind fun found => (h found.2).ahead fun video => ?_
  exact ((Beacon.notes_mark config .video).mono away).bind fun _ => .done _

end

/-! ### The vblank flag -/

/-- What is paced keeps away from the flag. -/
theorem emits_flag_nil {α : Type} {program : Program α} (h : program.Paced Command.IsWork) :
    program.Emits Command.IsFlag [] := by
  have away : program.Accesses fun command => ¬ command.IsFlag :=
    h.accesses (fun _ => Command.IsWork.not_isFlag) fun _ => Command.IsStatus.not_isFlag
  exact away.emits_nil fun _ h => h

theorem emits_bringUp_flag (platform : Platform) :
    (Video.bringUp config memory platform color).Emits Command.IsFlag [.setFence false] := by
  rw [Video.bringUp_eq_light]
  refine (Emits.perform_of_not id).behind fun _ => .cons trivial fun _ => ?_
  exact emits_flag_nil (Video.paced_light config memory color platform)

/-- **The boot lowers the flag once**, and does not look at it. -/
theorem emits_boot_flag :
    (boot config memory slot entry color).Emits Command.IsFlag [.setFence false] := by
  have away (command : Command) (h : command.IsNote) : ¬ command.IsFlag := h.isWork.not_isFlag
  have notes {program : Program Unit} (h : program.Accesses Command.IsNote) :
      program.Emits Command.IsFlag [] := h.emits_nil away
  have patch : (patchVector config slot entry).Emits Command.IsFlag [] := by
    have mask : Cpu.disableInterrupts.Emits Command.IsFlag [] :=
      (Emits.perform_of_not id).behind fun _ => (Emits.perform_of_not id).behind fun _ => .done _
    refine (notes (Beacon.notes_mark _ _)).behind fun _ => mask.behind fun _ => ?_
    refine (Emits.perform_of_not id).behind fun _ => (Emits.perform_of_not id).behind fun _ => ?_
    exact .perform_of_not id
  have armed : (arm config).Emits Command.IsFlag [] := by
    have status : (Cpu.modifyStatus Interrupts.armedStatus).Emits Command.IsFlag [] :=
      (Emits.perform_of_not id).behind fun _ => (Emits.perform_of_not id).behind fun _ => .done _
    refine (Emits.perform_of_not id).behind fun _ => status.behind fun _ => ?_
    exact (notes (LogRecord.notes_emit _ _)).behind fun _ => notes (Beacon.notes_mark _ _)
  rw [boot_eq]
  refine patch.behind fun _ => ?_
  refine (emits_bringUpPicture config memory entry color away
    (emits_bringUp_flag config memory color)).ahead fun found => ?_
  exact armed.behind fun _ => .done _

/-- The boot leaves pictures to the signal processor, and does not look at the flag. -/
theorem booting_boot : (boot config memory slot entry color).Accesses Command.IsBooting := by
  have works {α : Type} {program : Program α} (h : program.Paced Command.IsWork) :
      program.Accesses Command.IsBooting :=
    h.accesses (fun _ => Command.IsWork.isBooting) fun _ => Command.IsStatus.isBooting
  have notes {α : Type} {program : Program α} (h : program.Accesses Command.IsNote) :
      program.Accesses Command.IsBooting := works (h.mono fun _ h => h.isWork).paced
  have patch : (patchVector config slot entry).Accesses Command.IsBooting := by
    refine (notes (Beacon.notes_mark _ _)).bind fun _ => ?_
    refine Accesses.bind (.step trivial fun _ => .step trivial fun _ => .done _) fun _ => ?_
    exact .bind (.write trivial) fun _ => .bind (.perform _ trivial) fun _ => .perform _ trivial
  have picture : (bringUpPicture config memory entry color).Accesses Command.IsBooting := by
    refine (notes (notes_survey config entry)).bind fun found => .bind ?_ fun _ =>
      (notes (Beacon.notes_mark _ _)).bind fun _ => .done _
    rw [Video.bringUp_eq_light]
    exact .bind (.write trivial) fun _ => .bind (.perform _ trivial) fun _ =>
      works (Video.paced_light config memory color found.2)
  have armed : (arm config).Accesses Command.IsBooting := by
    refine .bind (.write trivial) fun _ => ?_
    refine Accesses.bind (.step trivial fun _ => .step trivial fun _ => .done _) fun _ => ?_
    exact (notes (LogRecord.notes_emit _ _)).bind fun _ => notes (Beacon.notes_mark _ _)
  rw [boot_eq]
  exact patch.bind fun _ => picture.bind fun _ => armed.bind fun _ => .done _

/-- The boot waits for the signal processor only. -/
theorem accesses_boot : (boot config memory slot entry color).Accesses (· ≠ .getFence) := by
  refine (booting_boot config memory slot entry color).mono fun command booting flag => ?_
  rw [flag] at booting
  exact booting

end Console

end ColdBoot
