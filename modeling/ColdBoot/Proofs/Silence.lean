import ColdBoot.Proofs.BeaconWords

/-! # What is said, and what is silent

The log window and the two words of the beacon are written for somebody else to read. A write to one
of these words is a **remark**. Whatever neither makes a remark nor looks at one is **silent**: the
devices, the vector, memory and the vblank flag are all reached silently.

* **`Command.IsRemark`**, **`Command.IsSilent`** – the two kinds of accesses;
* **`Console.silent_frames`**, **`Pi.silent_transfer`** – a booted console shows its frames and moves
  bytes over the cartridge bus in silence;
* **`Interrupt.silent_dispatch`**, **`Interrupt.silent_handle`** – so does an interrupt its service. -/

namespace ColdBoot

open Program

/-- A word of the log window, or one of the beacon's two. -/
def Register.IsNotepad (register : Register) : Prop :=
  register.block = .viewer ∨ register = BeaconRegister.magic ∨ register = BeaconRegister.stage

instance : DecidablePred Register.IsNotepad := fun register =>
  inferInstanceAs (Decidable (register.block = .viewer ∨ register = BeaconRegister.magic ∨
    register = BeaconRegister.stage))

/-- All of them are in the log window or in low RDRAM. -/
theorem Register.IsNotepad.block_eq {register : Register} (h : register.IsNotepad) :
    register.block = .viewer ∨ register.block = .ram := by
  rcases h with viewer | rfl | rfl
  · exact .inl viewer
  · exact .inr rfl
  · exact .inr rfl

namespace Command

/-- A write to the log window, or to one of the beacon's two words. -/
def IsRemark : Command → Prop
  | .write register _ => register.IsNotepad
  | _ => False

instance : DecidablePred IsRemark
  | .write register _ => inferInstanceAs (Decidable register.IsNotepad)
  | .getStatus | .setStatus _ | .getCause | .cache _ _ | .read _ | .storeDoubleword _ _
  | .setFence _ | .getFence | .loadFrame _ | .storePixels _ _ | .fillStaging _ _ =>
      instDecidableFalse

/-- An access to anything but a word of remarks. -/
def IsSilent : Command → Prop
  | .read register | .write register _ => ¬ register.IsNotepad
  | _ => True

variable {command : Command}

theorem IsSilent.not_isRemark (h : command.IsSilent) : ¬ command.IsRemark := by
  cases command with
  | write => exact h
  | _ => exact id

theorem IsSilent.not_isBeacon (h : command.IsSilent) : ¬ command.IsBeacon := by
  cases command with
  | write => exact fun beacon => h (.inr beacon)
  | _ => exact id

/-- Devices are not spoken to in remarks. -/
theorem WritesTo.isSilent {block : RegisterBlock} (h : command.WritesTo block)
    (viewer : block ≠ .viewer) (ram : block ≠ .ram) : command.IsSilent := by
  cases command with
  | write register value =>
    obtain rfl : register.block = block := h
    exact fun notepad => notepad.block_eq.elim viewer ram
  | _ => exact h.elim

theorem IsStatus.isSilent (h : command.IsStatus) : command.IsSilent := by
  cases command with
  | getStatus | setStatus => trivial
  | _ => exact h.elim

theorem IsCache.isSilent (h : command.IsCache) : command.IsSilent := by
  cases command with
  | cache => trivial
  | _ => exact h.elim

theorem IsTransfer.isSilent (h : command.IsTransfer) : command.IsSilent := by
  cases command with
  | read register | write register value =>
    have sp : register.block = .sp := h
    intro notepad
    have away := notepad.block_eq
    rw [sp] at away
    exact away.elim nofun nofun
  | cache | fillStaging => trivial
  | _ => exact h.elim

end Command

/-! ### Silent parts -/

theorem Program.silent_read {register : Register} (h : ¬ register.IsNotepad) :
    (Program.read register).Accesses Command.IsSilent := .perform _ h

theorem Program.silent_write {register : Register} (h : ¬ register.IsNotepad) (value : UInt32) :
    (Program.write register value).Accesses Command.IsSilent := .perform _ h

theorem Program.Paced.silent {α : Type} {program : Program α}
    (h : program.Paced Command.IsTransfer) : program.Accesses Command.IsSilent :=
  h.accesses (fun _ h => h.isSilent) fun _ h => h.isSilent

/-- What is silent tells no stage. -/
theorem Program.Accesses.plain {α : Type} {program : Program α}
    (h : program.Accesses Command.IsSilent) :
    program.Accesses fun command => ¬ command.IsBeacon :=
  h.mono fun _ h => h.not_isBeacon

/-- A wait is as silent as its looks. -/
theorem Idle.silent_spin {command : Command} {accepted : command.Answer → Bool}
    (h : command.IsSilent) : (Idle.spin command accepted).Accesses Command.IsSilent :=
  (Idle.paced_spin h).accesses (fun _ => id) fun _ h => h.isSilent

theorem Cpu.silent_modifyStatus (change : Flags → Flags) :
    (Cpu.modifyStatus change).Accesses Command.IsSilent :=
  .step trivial fun _ => .step trivial fun _ => .done _

theorem Cpu.silent_disableInterrupts : Cpu.disableInterrupts.Accesses Command.IsSilent :=
  .step trivial fun _ => .step trivial fun _ => .done _

theorem Cpu.silent_halt {α : Type} : (Cpu.halt : Program α).Accesses Command.IsSilent :=
  Cpu.silent_disableInterrupts.bind fun _ => .stop _

/-- What the loader has left is read in silence. -/
theorem BootParams.silent_read : BootParams.read.Accesses Command.IsSilent := by
  iterate 6 refine (Program.silent_read (by decide)).bind fun _ => ?_
  exact .done _

/-- **Bytes move over the cartridge bus in silence.** -/
theorem Pi.silent_transfer (descriptor : PiDescriptor) (direction : Direction) :
    (Pi.transfer descriptor direction).Accesses Command.IsSilent := by
  have look : (Command.read PiRegister.status).IsSilent := by
    show ¬ PiRegister.status.IsNotepad
    decide
  exact (Pi.paced_transfer (fun _ h => h.isSilent nofun nofun) look descriptor direction).accesses
    (fun _ => id) fun _ h => h.isSilent

namespace Video

theorem silent_writeTiming (video : Video) (profile : TimingProfile) :
    (video.writeTiming profile).Accesses Command.IsSilent :=
  (writes_writeTiming video profile).mono fun _ h => h.isSilent nofun nofun

theorem silent_swapBuffers (video : Video) : video.swapBuffers.Accesses Command.IsSilent := by
  have origin : ¬ ViRegister.origin.IsNotepad := by decide
  exact accesses_swapBuffers (fun _ h => h.isSilent) (fun _ => origin) video

end Video

namespace Console

variable {ρ σ : Type}

theorem silent_draw (function : DrawFunction ρ) (vaddr number : UInt32) :
    (draw function vaddr number).Accesses Command.IsSilent :=
  accesses_draw (fun _ => trivial) (fun _ _ => trivial) function vaddr number

theorem silent_frame (config : Config) (console : Console) (function : DrawFunction ρ) :
    (console.frame config function).Accesses Command.IsSilent := by
  have look : Command.getFence.IsSilent := trivial
  have wait : Video.vblankWait.Accesses Command.IsSilent :=
    (Idle.silent_spin look).bind fun _ => .done _
  refine (Video.paced_clearFramebuffer config _ _).silent.bind fun _ => ?_
  refine (silent_draw function _ _).bind fun _ => wait.bind fun _ => ?_
  refine (Video.silent_swapBuffers _).bind fun _ => ?_
  exact .bind (.perform _ trivial) fun _ => .done _

/-- **Frames are shown in silence.** -/
theorem silent_frames (config : Config) (function : σ → DrawFunction σ) (count : Nat)
    (console : Console) (state : σ) :
    (frames config function count console state).Accesses Command.IsSilent := by
  induction count generalizing console state with
  | zero => exact .done _
  | succ count ih => exact (silent_frame config console _).bind fun next => ih next.1 next.2

end Console

namespace Interrupt

/-- **Whatever the cause**, and whatever lines are pending and enabled, an exception is looked into
and served in silence. -/
theorem silent_dispatch (cause : Cause) : (dispatch cause).Accesses Command.IsSilent := by
  have look {register : Register} (h : ¬ register.IsNotepad) (meaning : UInt32 → Flags) :
      (meaning <$> Program.read register).Accesses Command.IsSilent :=
    (silent_read h).bind fun _ => .done _
  have serve : vblank.Accesses Command.IsSilent :=
    .bind (.perform _ trivial) fun _ => silent_write (by decide) _
  unfold dispatch
  split
  · exact .done _
  · refine (look (by decide) Lines.register.truncate).bind fun raised => ?_
    refine (look (by decide) Lines.register.truncate).bind fun enabled => ?_
    dsimp only
    split
    · exact serve.bind fun _ => .done _
    · exact .done _

/-- So is whatever the handler does with it. -/
theorem silent_handle : handle.Accesses Command.IsSilent := by
  have look : Cpu.cause.Accesses Command.IsSilent := .bind (.perform _ trivial) fun _ => .done _
  refine look.bind fun cause => (silent_dispatch cause).bind fun outcome => ?_
  cases outcome with
  | handled => exact .done _
  | unhandled => exact Cpu.silent_halt

end Interrupt

end ColdBoot
