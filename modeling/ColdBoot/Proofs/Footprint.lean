import ColdBoot.Proofs.Hardware
import ColdBoot.Video.Output

/-! # What the parts of the video output touch

Most accesses of the video output are **aside**: they only look, or they change neither a register
of the signal processor's engine, nor memory and its cache lines, nor the place that is scanned out.
Waiting does nothing else, nor do logging, the vblank fence and all timing registers but the
first. -/

namespace ColdBoot

namespace Command

/-- A look at a register, or a change of something other than the engine, memory with its cache
lines, and the scanned-out place. -/
def IsAside : Command → Prop
  | .getStatus | .setStatus _ | .getCause | .setFence _ | .getFence => True
  | .read _ => True
  | .write register _ => register.block ≠ .sp ∧ register ≠ ViRegister.origin
  | .cache _ _ | .storeDoubleword _ _ | .loadFrame _ | .storePixels _ _ | .fillStaging _ _ => False

theorem isAside_read (register : Register) : (read register).IsAside := trivial

/-- A look at the processor's status word, or a change of it. -/
def IsStatus : Command → Prop
  | .getStatus | .setStatus _ => True
  | _ => False

theorem IsStatus.isAside {command : Command} (h : command.IsStatus) : command.IsAside := by
  cases command with
  | getStatus | setStatus => trivial
  | _ => exact h.elim

/-- Maintenance of a cache line. -/
def IsCache : Command → Prop
  | .cache _ _ => True
  | _ => False

/-- Maintenance of one kind. -/
def Maintains (operation : CacheOperation) : Command → Prop
  | .cache other _ => other = operation
  | _ => False

/-- A write to a register of one block. -/
def WritesTo (block : RegisterBlock) : Command → Prop
  | .write register _ => register.block = block
  | _ => False

variable {command : Command}

theorem Maintains.isCache {operation : CacheOperation} (h : command.Maintains operation) :
    command.IsCache := by
  cases command with
  | cache => trivial
  | _ => exact h.elim

/-- Writes to a block are aside unless the engine's registers or the scanned-out place is in it. -/
theorem WritesTo.isAside {block : RegisterBlock} (h : command.WritesTo block) (sp : block ≠ .sp)
    (vi : block ≠ .vi) : command.IsAside := by
  cases command with
  | write register value =>
    obtain rfl : register.block = block := h
    refine ⟨sp, ?_⟩
    rintro rfl
    exact vi rfl
  | _ => exact h.elim

end Command

open Program

/-! ### Waiting -/

theorem Idle.accesses_enter : Idle.enter.Accesses Command.IsStatus :=
  .step trivial fun _ => .step trivial fun _ => .done _

theorem Idle.accesses_leave : Idle.leave.Accesses Command.IsStatus :=
  .step trivial fun _ => .step trivial fun _ => .done _

theorem Idle.accesses_spin {command : Command} {accepted : command.Answer → Bool}
    (h : command.IsAside) : (Idle.spin command accepted).Accesses Command.IsAside := by
  have status (c : Command) (h : c.IsStatus) : c.IsAside := h.isAside
  refine (Idle.accesses_enter.mono status).bind fun _ => ?_
  refine .bind (.await h fun answer => .done answer) fun answer => ?_
  exact (Idle.accesses_leave.mono status).bind fun _ => .done answer

theorem Fence.accesses_wait : Fence.wait.Accesses Command.IsAside := by
  have quiet : Command.getFence.IsAside := trivial
  exact (Idle.accesses_spin quiet).bind fun _ => .done ()

/-! ### Logging -/

theorem Viewer.writes_fill (slot : Nat) (words : List (List UInt8)) :
    (Viewer.fill slot words).Accesses (Command.WritesTo .viewer) := by
  induction words generalizing slot with
  | nil => exact .done ()
  | cons word rest ih => exact .step rfl fun _ => ih (slot + 1)

theorem Viewer.writes_write (text : String) :
    (Viewer.write text).Accesses (Command.WritesTo .viewer) := by
  refine accesses_forM _ fun bytes _ => ?_
  exact (Viewer.writes_fill 0 _).bind fun _ => .write rfl

/-- Printing a record writes to the log window only. -/
theorem LogRecord.writes_emit (filter : LogFilter) (record : LogRecord) :
    (record.emit filter).Accesses (Command.WritesTo .viewer) := by
  unfold LogRecord.emit
  split
  · exact accesses_forM _ fun piece _ => Viewer.writes_write piece
  · exact .done ()

theorem LogRecord.accesses_emit (filter : LogFilter) (record : LogRecord) :
    (record.emit filter).Accesses Command.IsAside :=
  (LogRecord.writes_emit filter record).mono fun _ h => h.isAside nofun nofun

/-! ### Cache maintenance -/

theorem Cpu.accesses_visitLines (operation : CacheOperation) (walk : CacheLines) (left : Nat)
    (n : UInt32) :
    (Cpu.visitLines operation walk left n).Accesses (Command.Maintains operation) := by
  induction left generalizing n with
  | zero => exact .done ()
  | succ left ih =>
    unfold Cpu.visitLines
    split
    · exact .stop _
    · exact .done ()
    · exact .step rfl fun _ => ih (n + 1)

theorem Cpu.accesses_cacheRange (operation : CacheOperation) (vaddr len line : UInt32) :
    (Cpu.cacheRange operation vaddr len line).Accesses (Command.Maintains operation) :=
  (accesses_ofExcept _).bind fun _ => Cpu.accesses_visitLines operation _ _ _

theorem Cpu.accesses_writeBackRange (vaddr len : UInt32) :
    (Cpu.writeBackRange vaddr len).Accesses Command.IsCache :=
  (Cpu.accesses_cacheRange .writeBackData vaddr len dataCacheLine).mono fun _ h => h.isCache

theorem Cpu.accesses_invalidateDataRange (vaddr len : UInt32) :
    (Cpu.invalidateDataRange vaddr len).Accesses Command.IsCache :=
  (Cpu.accesses_cacheRange .invalidateData vaddr len dataCacheLine).mono fun _ h => h.isCache

/-! ### Timing registers -/

namespace Video

/-- The timing registers behind the first one, which holds the scanned-out place. -/
theorem accesses_writeTiming_rest (video : Video) (profile : TimingProfile) :
    ∃ rest : Program Unit, rest.Accesses Command.IsAside ∧
      video.writeTiming profile = (Program.write ViRegister.origin
        (PhysAddr.ofAddress (video.memory.framebuffer video.displaying)).word >>=
          fun _ => rest) := by
  refine ⟨_, ?_, rfl⟩
  -- ten plain registers, then three whose values are computed with checks
  iterate 10 refine .bind (.write ⟨nofun, nofun⟩) fun _ => ?_
  refine (accesses_ofExcept _).bind fun _ => ?_
  refine .bind (.write ⟨nofun, nofun⟩) fun _ => ?_
  refine (accesses_ofExcept _).bind fun _ => ?_
  refine .bind (.write ⟨nofun, nofun⟩) fun _ => ?_
  refine (accesses_ofExcept _).bind fun _ => ?_
  exact .write ⟨nofun, nofun⟩

end Video

end ColdBoot
