import ColdBoot.Console
import ColdBoot.Proofs.Footprint

/-! # Paced programs

Every wait changes the status word twice, and gives it back as it was but for the power bit. A
footprint, `Program.Accesses`, cannot tell such a change from any other one. A program is **paced**
over `K` if it touches the status word in its waits only, and does nothing outside `K` besides.

* **`Hardware.Keeps.ensures_paced`** – what the accesses of `K` keep and every wait keeps, a paced
  program keeps;
* **`Video.paced_setClearColor`**, **`Video.paced_clearFramebuffer`** – the signal processor's work
  is paced;
* **`Pi.paced_transfer`**, **`Video.accesses_swapBuffers`**, **`Console.accesses_draw`** – what else
  a console does, within any kind of accesses that has room for it. -/

namespace ColdBoot

namespace Command

/-- What it takes to move a colour into a framebuffer: registers of the signal processor's engine,
the staging page, and data lines of the cache. -/
def IsTransfer : Command → Prop
  | .read register | .write register _ => register.block = .sp
  | .fillStaging _ _ => True
  | .cache operation _ => operation ≠ .invalidateInstruction
  | _ => False

variable {command : Command}

theorem Maintains.isTransfer {operation : CacheOperation} (h : command.Maintains operation)
    (data : operation ≠ .invalidateInstruction) : command.IsTransfer := by
  cases command with
  | cache other vaddr =>
    obtain rfl : other = operation := h
    exact data
  | _ => exact h.elim

end Command

namespace Program

variable {α β : Type} {K L : Command → Prop}

/-- Besides waits in reduced power, which look at something in `K`, a program only makes accesses
in `K`. -/
inductive Paced (K : Command → Prop) : Program α → Prop where
  | done (value : α) : Paced K (.done value)
  | stop (reason : Stop) : Paced K (.stop reason)
  | step {command : Command} {next : command.Answer → Program α} (member : K command)
      (rest : ∀ answer, Paced K (next answer)) : Paced K (.step command next)
  | await {command : Command} {accepted : command.Answer → Bool}
      {next : command.Answer → Program α} (member : K command)
      (rest : ∀ answer, Paced K (next answer)) : Paced K (.await command accepted next)
  | spin {command : Command} {accepted : command.Answer → Bool}
      {next : command.Answer → Program α} (member : K command)
      (rest : ∀ answer, Paced K (next answer)) :
      Paced K (Idle.spin command accepted >>= next)

/-- A program without waits in reduced power. -/
theorem Accesses.paced {program : Program α} (h : program.Accesses K) : program.Paced K := by
  induction h with
  | done value => exact .done value
  | stop reason => exact .stop reason
  | step member _ ih => exact .step member ih
  | await member _ ih => exact .await member ih

namespace Paced

theorem mono {program : Program α} (h : program.Paced K) (sub : ∀ c, K c → L c) :
    program.Paced L := by
  induction h with
  | done value => exact .done value
  | stop reason => exact .stop reason
  | step member _ ih => exact .step (sub _ member) ih
  | await member _ ih => exact .await (sub _ member) ih
  | spin member _ ih => exact .spin (sub _ member) ih

theorem bind {program : Program α} {f : α → Program β} (h : program.Paced K)
    (rest : ∀ value, (f value).Paced K) : (program >>= f).Paced K := by
  induction h with
  | done value => exact rest value
  | stop reason => exact .stop reason
  | step member _ ih => exact .step member ih
  | await member _ ih => exact .await member ih
  | spin member _ ih =>
    rw [bind_assoc]
    exact .spin member ih

theorem perform (command : Command) (member : K command) : (Program.perform command).Paced K :=
  .step member fun answer => .done answer

theorem ofExcept_bind {x : Except Fault α} {f : α → Program β} (rest : ∀ value, (f value).Paced K) :
    (ofExcept x >>= f).Paced K :=
  (accesses_ofExcept x).paced.bind rest

theorem forM {ι : Type} {f : ι → Program PUnit} (items : List ι) (h : ∀ item, (f item).Paced K) :
    (items.forM f).Paced K := by
  induction items with
  | nil => exact .done ()
  | cons item rest ih => exact (h item).bind fun _ => ih

/-- The accesses of a paced program, those to the status word included. -/
theorem accesses {program : Program α} (h : program.Paced K) (sub : ∀ c, K c → L c)
    (status : ∀ c, c.IsStatus → L c) : program.Accesses L := by
  induction h with
  | done value => exact .done value
  | stop reason => exact .stop reason
  | step member _ ih => exact .step (sub _ member) ih
  | await member _ ih => exact .await (sub _ member) ih
  | spin member _ ih =>
    refine Accesses.bind ?_ ih
    refine (Idle.accesses_enter.mono status).bind fun _ => ?_
    refine .bind (.await (sub _ member) fun answer => .done answer) fun answer => ?_
    exact (Idle.accesses_leave.mono status).bind fun _ => .done answer

end Paced

end Program

open Program

/-- What the accesses in `K` and every wait for one of them keep, a paced program keeps. -/
theorem Hardware.Keeps.ensures_paced {σ α : Type} {hw : Hardware σ} {guard : Guard σ}
    {K : Command → Prop} {assertion : σ → Prop} (keeps : hw.Keeps guard K assertion)
    (waits : ∀ command accepted, K command →
      hw.Ensures guard assertion (Idle.spin command accepted) fun _ => assertion)
    {program : Program α} (h : program.Paced K) :
    hw.Ensures guard assertion program fun _ => assertion := by
  -- over the program: the assertion is the invariant of every access and of every wait
  induction h with
  | done value => exact .done keeps.toSound fun _ h => h
  | stop reason => exact .stop keeps.toSound
  | step member _ ih =>
    exact .step keeps.toSound (fun _ => keeps.access member) (fun _ _ _ => keeps.responds member) ih
  | await member _ ih =>
    refine .await keeps.toSound (fun _ => keeps.access member) ?_ ?_ ih
    · exact fun _ _ _ start responded _ => keeps.responds member start responded
    · exact fun _ _ _ start responded _ => keeps.responds member start responded
  | spin member _ ih => exact .bind (waits _ _ member) ih

/-! ### The signal processor -/

theorem Idle.paced_spin {K : Command → Prop} {command : Command}
    {accepted : command.Answer → Bool} (member : K command) :
    (Idle.spin command accepted).Paced K := by
  have h : (Idle.spin command accepted >>= pure).Paced K := .spin member fun answer => .done answer
  rwa [bind_pure] at h

namespace Sp

theorem paced_waitIdle : engine.waitIdle.Paced Command.IsTransfer :=
  .spin rfl fun _ => .done _

theorem paced_waitQueue (config : Config) :
    (engine.waitQueue config).Paced Command.IsTransfer := by
  unfold Engine.waitQueue
  split
  · exact .spin rfl fun _ => .done _
  · exact paced_waitIdle.bind fun _ => .done _

theorem writes_start (descriptor : SpDescriptor) (direction : Direction) :
    (start descriptor direction).Accesses (Command.WritesTo .sp) := by
  -- four checks, then two addresses and, with one more check, the length
  iterate 4 refine (accesses_ofExcept _).bind fun _ => ?_
  refine .bind (.write rfl) fun _ => ?_
  refine .bind (.write rfl) fun _ => ?_
  refine (accesses_ofExcept _).bind fun _ => .write ?_
  cases direction <;> rfl

theorem paced_start (descriptor : SpDescriptor) (direction : Direction) :
    (start descriptor direction).Paced Command.IsTransfer := by
  refine ((writes_start descriptor direction).mono fun command h => ?_).paced
  cases command with
  | write => exact h
  | _ => exact h.elim

end Sp

/-- Maintenance of data lines. -/
theorem Cpu.paced_cacheRange {operation : CacheOperation} (vaddr len line : UInt32)
    (data : operation ≠ .invalidateInstruction) :
    (Cpu.cacheRange operation vaddr len line).Paced Command.IsTransfer :=
  ((Cpu.accesses_cacheRange operation vaddr len line).mono fun _ h => h.isTransfer data).paced

namespace Video

theorem paced_setClearColor (video : Video) (color : Color) :
    (video.setClearColor color).Paced Command.IsTransfer := by
  refine .bind (.perform _ trivial) fun _ => ?_
  refine .bind (Cpu.paced_cacheRange _ _ _ nofun) fun _ => ?_
  refine Sp.paced_waitIdle.bind fun _ => .ofExcept_bind fun descriptor => ?_
  exact (Sp.paced_start descriptor _).bind fun _ => Sp.paced_waitIdle.bind fun _ => .done _

theorem paced_clearChunk (config : Config) (base : PhysAddr) (chunk : ClearChunk) :
    (clearChunk config base chunk).Paced Command.IsTransfer :=
  (Sp.paced_waitQueue config).bind fun _ => .ofExcept_bind fun _ => Sp.paced_start _ _

theorem paced_clearFramebuffer (config : Config) (video : Video) (index : Fin 2) :
    (clearFramebuffer config video index).Paced Command.IsTransfer := by
  refine .bind (Cpu.paced_cacheRange _ _ _ nofun) fun _ => ?_
  refine .bind (.forM _ (paced_clearChunk config _)) fun _ => ?_
  exact Sp.paced_waitIdle.bind fun _ => .done _

end Video

/-! ### A console's other work

None of these is tied to one kind of accesses: each names what it needs of `K`. -/

namespace Pi

theorem writes_start (descriptor : PiDescriptor) (direction : Direction) :
    (start descriptor direction).Accesses (Command.WritesTo .pi) := by
  -- five checks, then two addresses and, with one more check, the length
  iterate 5 refine (accesses_ofExcept _).bind fun _ => ?_
  refine .bind (.write rfl) fun _ => ?_
  refine .bind (.write rfl) fun _ => ?_
  refine (accesses_ofExcept _).bind fun _ => .write ?_
  cases direction <;> rfl

/-- A transfer over the cartridge bus writes registers of its engine, and waits for the engine. -/
theorem paced_transfer {K : Command → Prop} (writes : ∀ c, Command.WritesTo .pi c → K c)
    (look : K (.read PiRegister.status)) (descriptor : PiDescriptor) (direction : Direction) :
    (transfer descriptor direction).Paced K := by
  refine ((writes_start descriptor direction).mono writes).paced.bind fun _ => ?_
  exact ((Idle.paced_spin look).bind fun _ => .done _).bind fun _ => .done _

end Pi

/-- A swap of the framebuffers walks the cache, and hands over an origin. -/
theorem Video.accesses_swapBuffers {K : Command → Prop} (cache : ∀ c, c.IsCache → K c)
    (origin : ∀ value, K (.write ViRegister.origin value)) (video : Video) :
    video.swapBuffers.Accesses K := by
  refine ((Cpu.accesses_writeBackRange _ _).mono cache).bind fun _ => ?_
  exact .bind (.write (origin _)) fun _ => .done _

/-- A draw function's call loads a framebuffer and stores one. -/
theorem Console.accesses_draw {ρ : Type} {K : Command → Prop}
    (load : ∀ vaddr, K (.loadFrame vaddr)) (store : ∀ vaddr drawing, K (.storePixels vaddr drawing))
    (function : DrawFunction ρ) (vaddr number : UInt32) :
    (draw function vaddr number).Accesses K := by
  refine .bind (.perform _ (load vaddr)) fun before => ?_
  cases function before number with
  | error reason => exact .stop _
  | ok drawn => exact .bind (.perform _ (store vaddr _)) fun _ => .done _

end ColdBoot
