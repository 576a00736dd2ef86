import ColdBoot.Proofs.ClearTiling
import ColdBoot.Proofs.Pacing
import ColdBoot.Proofs.RowPacking
import ColdBoot.Proofs.VideoSession

/-! # What a run leaves behind

Answers decide how often a wait looks, and nothing else that the video output does. So whatever a run
that returns was answered, some of its commands are known beforehand: `Program.Emits` says that of a
program, for the commands in a set, with one rule for each construct of programs.

* **`Video.emits_prepare`**, **`Video.emits_prepare_blank`** – what bringing up writes to the signal
  processor and to the video interface before anything is shown;
* **`Video.emits_writeTiming`** – the registers of the picture, the control word last;
* **`Video.settles_prepare`** – the signal processor is idle when that is done. -/

namespace ColdBoot

namespace Command

/-- A look at a register of one block, or a write to it. -/
def IsOn (block : RegisterBlock) : Command → Prop
  | .read register | .write register _ => register.block = block
  | _ => False

instance (block : RegisterBlock) : DecidablePred (WritesTo block)
  | .write register _ => inferInstanceAs (Decidable (register.block = block))
  | .getStatus | .setStatus _ | .getCause | .cache _ _ | .read _ | .storeDoubleword _ _
  | .setFence _ | .getFence | .loadFrame _ | .storePixels _ _ | .fillStaging _ _ =>
      instDecidableFalse

instance (block : RegisterBlock) : DecidablePred (IsOn block)
  | .read register | .write register _ => inferInstanceAs (Decidable (register.block = block))
  | .getStatus | .setStatus _ | .getCause | .cache _ _ | .storeDoubleword _ _ | .setFence _
  | .getFence | .loadFrame _ | .storePixels _ _ | .fillStaging _ _ => instDecidableFalse

theorem WritesTo.block_eq {command : Command} {block other : RegisterBlock}
    (h : command.WritesTo block) (on : command.IsOn other) : block = other := by
  cases command with
  | write register value => exact Eq.trans (Eq.symm h) on
  | _ => exact h.elim

theorem IsStatus.not_isOn {command : Command} {block : RegisterBlock} (h : command.IsStatus) :
    ¬ command.IsOn block := by
  cases command with
  | read register | write register value => exact fun _ => h
  | _ => exact id

theorem WritesTo.isOn {command : Command} {block : RegisterBlock} (h : command.WritesTo block) :
    command.IsOn block := by
  cases command with
  | write register value => exact h
  | _ => exact h.elim

end Command

/-- The commands in a set that a run has made. -/
def commandsIn (K : Command → Prop) [DecidablePred K] (events : List Event) : List Command :=
  (events.map Event.command).filter (K ·)

section

variable (K : Command → Prop) [DecidablePred K]

@[simp] theorem commandsIn_nil : commandsIn K [] = [] := rfl

@[simp] theorem commandsIn_append (first second : List Event) :
    commandsIn K (first ++ second) = commandsIn K first ++ commandsIn K second := by
  rw [commandsIn, List.map_append, List.filter_append]
  rfl

theorem commandsIn_cons (event : Event) (rest : List Event) :
    commandsIn K (event :: rest) =
      if K event.command then event.command :: commandsIn K rest else commandsIn K rest := by
  rw [commandsIn, List.map_cons, List.filter_cons]
  simp only [decide_eq_true_eq]
  rfl

end

namespace Program

variable {α β : Type} {K L : Command → Prop}

/-- Every access of a run is one that the program may make. -/
theorem Accesses.of_runs {program : Program α} (h : program.Accesses L) {events : List Event}
    {ending : Ending α} (run : program.Runs events ending) : ∀ event ∈ events, L event.command := by
  induction run with
  | done | stop | cut => simp
  | step answer _ ih =>
    cases h with
    | step member rest =>
      rw [List.forall_mem_cons]
      exact ⟨member, ih (rest answer)⟩
  | refuse answer refused _ ih =>
    cases h with
    | await member rest =>
      rw [List.forall_mem_cons]
      exact ⟨member, ih (.await member rest)⟩
  | accept answer taken _ ih =>
    cases h with
    | await member rest =>
      rw [List.forall_mem_cons]
      exact ⟨member, ih (rest answer)⟩

variable [DecidablePred K]

/-- Every run that returns makes these commands of `K`, in this order. -/
def Emits (K : Command → Prop) [DecidablePred K] (program : Program α) (commands : List Command) :
    Prop :=
  ∀ ⦃events value⦄, program.Runs events (.returned value) → commandsIn K events = commands

/-- A program that keeps away from `K`. -/
theorem Accesses.emits_nil {program : Program α} (h : program.Accesses L)
    (away : ∀ command, L command → ¬ K command) : program.Emits K [] := by
  intro events value run
  have within := h.of_runs run
  rw [commandsIn, List.filter_eq_nil_iff]
  intro command made
  obtain ⟨event, member, rfl⟩ := List.mem_map.1 made
  simpa using away _ (within event member)

/-- A program that keeps to `K`. -/
theorem Accesses.commandsIn_eq {program : Program α} (h : program.Accesses L)
    (sub : ∀ command, L command → K command) {events : List Event} {ending : Ending α}
    (run : program.Runs events ending) : commandsIn K events = events.map Event.command := by
  have all := h.of_runs run
  rw [commandsIn, List.filter_eq_self]
  intro command made
  obtain ⟨event, member, rfl⟩ := List.mem_map.1 made
  simpa using sub _ (all event member)

namespace Emits

theorem done (value : α) : (Program.done value).Emits K [] := by
  intro events result run
  cases run
  rfl

theorem perform {command : Command} (member : K command) :
    (Program.perform command).Emits K [command] := by
  intro events value run
  cases run with
  | step answer rest =>
    cases rest
    rw [commandsIn_cons, if_pos member, commandsIn_nil]

theorem perform_of_not {command : Command} (away : ¬ K command) :
    (Program.perform command).Emits K [] := by
  have alone : (Program.perform command).Accesses (· = command) := .perform _ rfl
  exact alone.emits_nil fun _ same => same ▸ away

theorem bind {program : Program α} {f : α → Program β} {first second : List Command}
    (h : program.Emits K first) (rest : ∀ value, (f value).Emits K second) :
    (program >>= f).Emits K (first ++ second) := by
  intro events value run
  obtain ⟨events₁, events₂, between, run₁, run₂, rfl⟩ := run.of_bind_returned
  rw [commandsIn_append, h run₁, rest between run₂]

theorem ofExcept_bind {x : Except Fault α} {f : α → Program β} {commands : List Command}
    (h : ∀ value, x = .ok value → (f value).Emits K commands) :
    (ofExcept x >>= f).Emits K commands := by
  cases x with
  | error fault => intro events value run; nomatch run
  | ok value => exact h value rfl

theorem forM {ι : Type} {f : ι → Program PUnit} {commands : ι → List Command} (items : List ι)
    (h : ∀ item ∈ items, (f item).Emits K (commands item)) :
    (items.forM f).Emits K (items.flatMap commands) := by
  induction items with
  | nil => exact .done _
  | cons item rest ih =>
    rw [List.forall_mem_cons] at h
    rw [List.flatMap_cons]
    exact h.1.bind fun _ => ih h.2

/-- What comes in front of the rest and keeps away from `K`. -/
theorem behind {program : Program α} {f : α → Program β} {commands : List Command}
    (h : program.Emits K []) (rest : ∀ value, (f value).Emits K commands) :
    (program >>= f).Emits K commands :=
  h.bind rest

/-- The other way round: what comes behind keeps away from `K`. -/
theorem ahead {program : Program α} {f : α → Program β} {commands : List Command}
    (h : program.Emits K commands) (rest : ∀ value, (f value).Emits K []) :
    (program >>= f).Emits K commands := by
  rw [← List.append_nil commands]
  exact h.bind rest

/-- An access in `K` and what follows it. -/
theorem cons {command : Command} {f : command.Answer → Program β} {commands : List Command}
    (member : K command) (rest : ∀ answer, (f answer).Emits K commands) :
    (Program.perform command >>= f).Emits K (command :: commands) :=
  (perform member).bind rest

end Emits

/-! ### Last accesses -/

/-- The last event with a command in `K` is one of these. -/
def LastIn (K : Command → Prop) (last : Event → Prop) (events : List Event) : Prop :=
  ∃ front event back, events = front ++ event :: back ∧ last event ∧
    ∀ later ∈ back, ¬ K later.command

/-- In every run that returns, the last event with a command in `K` is one of these. -/
def Settles (K : Command → Prop) (last : Event → Prop) (program : Program α) : Prop :=
  ∀ ⦃events value⦄, program.Runs events (.returned value) → LastIn K last events

namespace Settles

variable {K : Command → Prop} {last : Event → Prop}

theorem perform {command : Command} (h : ∀ answer, last ⟨command, answer⟩) :
    (Program.perform command).Settles K last := by
  intro events value run
  cases run with
  | step answer rest =>
    cases rest
    exact ⟨[], _, [], rfl, h _, by simp⟩

theorem behind {program : Program α} {f : α → Program β} (h : ∀ value, (f value).Settles K last) :
    (program >>= f).Settles K last := by
  intro events value run
  obtain ⟨first, second, between, -, rest, rfl⟩ := run.of_bind_returned
  obtain ⟨front, event, back, rfl, member, quiet⟩ := h between rest
  exact ⟨first ++ front, event, back, by rw [List.append_assoc], member, quiet⟩

theorem ofExcept_bind {x : Except Fault α} {f : α → Program β}
    (h : ∀ value, x = .ok value → (f value).Settles K last) :
    (ofExcept x >>= f).Settles K last := by
  cases x with
  | error fault => intro events value run; nomatch run
  | ok value => exact h value rfl

/-- What comes behind keeps away from `K`. -/
theorem ahead {program : Program α} {f : α → Program β} (h : program.Settles K last)
    (quiet : ∀ value, (f value).Accesses fun command => ¬ K command) :
    (program >>= f).Settles K last := by
  intro events value run
  obtain ⟨first, second, between, work, rest, rfl⟩ := run.of_bind_returned
  obtain ⟨front, event, back, rfl, member, quiet'⟩ := h work
  refine ⟨front, event, back ++ second, by simp, member, ?_⟩
  intro later inside
  rcases List.mem_append.1 inside with inside | inside
  · exact quiet' later inside
  · exact (quiet between).of_runs rest later inside

end Settles

end Program

open Program

/-! ### The signal processor -/

namespace Sp

/-- The writes that start a transfer of one row. -/
def startWrites (mem : UInt32) (dram : PhysAddr) (bytes : UInt64) (direction : Direction) :
    List Command :=
  [.write SpRegister.memAddr mem, .write SpRegister.dramAddr dram.word,
    .write (lengthRegister direction) (bytes - 1).toUInt32]

/-- The length of one row is packed as its bytes less one. -/
theorem bits_of_linear {mem : UInt32} {dram : PhysAddr} {bytes : UInt64} {descriptor : SpDescriptor}
    {word : UInt32} (built : linear mem dram bytes = .ok descriptor) (short : bytes.toNat ≤ 2 ^ 16)
    (packed : descriptor.row.bits = .ok word) : word = (bytes - 1).toUInt32 := by
  by_cases positive : 1 ≤ bytes
  · rw [linear, RowLength.linear, Checked.subSize, if_pos positive] at built
    cases built
    obtain ⟨copy, skip⟩ := RowLength.lt_of_bits _ packed
    obtain ⟨word', eq, value⟩ := RowLength.bits_of_lt _ copy skip
    obtain rfl : word' = word := by rw [eq] at packed; cases packed; rfl
    have least := UInt64.le_iff_toNat_le.1 positive
    rw [UInt64.toNat_one] at least
    rw [← UInt32.toNat_inj, value, UInt64.toNat_toUInt32, UInt64.toNat_toUInt16,
      UInt64.toNat_sub_of_le _ _ positive, UInt64.toNat_one, UInt16.toNat_zero, UInt8.toNat_zero]
    omega
  · rw [linear, RowLength.linear, Checked.subSize, if_neg positive] at built
    cases built

/-- A start that passes its checks makes its three writes. -/
theorem emits_start {mem : UInt32} {dram : PhysAddr} {bytes : UInt64} {descriptor : SpDescriptor}
    (built : linear mem dram bytes = .ok descriptor) (short : bytes.toNat ≤ 2 ^ 16)
    (direction : Direction) : (start descriptor direction).Emits (Command.WritesTo .sp)
      (startWrites mem dram bytes direction) := by
  have places : descriptor.mem = mem ∧ descriptor.dram = dram := by
    cases eq : RowLength.linear bytes with
    | error fault => rw [linear, eq] at built; cases built
    | ok row => rw [linear, eq] at built; cases built; exact ⟨rfl, rfl⟩
  obtain ⟨rfl, rfl⟩ := places
  -- four checks, the two addresses, and then the length with the direction in its register
  iterate 4 refine .ofExcept_bind fun _ _ => ?_
  refine .cons rfl fun _ => .cons rfl fun _ => .ofExcept_bind fun word packed => ?_
  rw [bits_of_linear built short packed]
  refine .perform ?_
  cases direction <;> rfl

/-- A wait for the engine, or for its queue, writes nothing to it. -/
theorem emits_spin {register : Register} {accepted : UInt32 → Bool} :
    (Idle.spin (.read register) accepted).Emits (Command.WritesTo .sp) [] := by
  have aside : (Idle.spin (.read register) accepted).Accesses Command.IsAside :=
    Idle.accesses_spin trivial
  refine aside.emits_nil fun command quiet writes => ?_
  cases command with
  | write => exact quiet.1 writes
  | _ => exact writes.elim

theorem emits_waitIdle : engine.waitIdle.Emits (Command.WritesTo .sp) [] :=
  emits_spin.behind fun _ => .done _

theorem emits_waitQueue (config : Config) :
    (engine.waitQueue config).Emits (Command.WritesTo .sp) [] := by
  unfold Engine.waitQueue
  split
  · exact emits_spin.behind fun _ => .done _
  · exact emits_waitIdle.behind fun _ => .done _

end Sp

theorem Cpu.emits_cacheRange (operation : CacheOperation) (vaddr len line : UInt32) :
    (Cpu.cacheRange operation vaddr len line).Emits (Command.WritesTo .sp) [] := by
  refine (Cpu.accesses_cacheRange operation vaddr len line).emits_nil fun command h writes => ?_
  cases command with
  | cache => exact writes
  | _ => exact h

/-- The looks of a wait end with one that is accepted; what comes behind it is the way back to full
power. -/
theorem Idle.exists_accepted_of_spin {command : Command} {accepted : command.Answer → Bool}
    {events : List Event} {value : command.Answer}
    (run : (Idle.spin command accepted).Runs events (.returned value)) :
    ∃ front back, events = front ++ ⟨command, value⟩ :: back ∧ accepted value = true ∧
      ∀ event ∈ back, event.command.IsStatus := by
  obtain ⟨entering, rest, _, -, waiting, rfl⟩ := run.of_bind_returned
  obtain ⟨looks, back, answer, looking, leaving, rfl⟩ := waiting.of_bind_returned
  obtain ⟨refused, rfl, taken⟩ := looking.of_repeatUntil
  -- the answer that ends the looks is the one that the wait returns
  have leave : (Idle.leave >>= fun _ => Program.done answer).Accesses Command.IsStatus :=
    Idle.accesses_leave.bind fun _ => .done answer
  have same : value = answer := by
    obtain ⟨_, _, _, -, run, -⟩ := leaving.of_bind_returned
    cases run
    rfl
  subst same
  exact ⟨entering ++ refused, back, by simp, taken, leave.of_runs leaving⟩

namespace Sp

/-- A look at the signal processor that finds it idle. -/
def FindsIdle : Event → Prop
  | ⟨.read register, word⟩ => register = SpRegister.dmaBusy ∧ engine.isTerminal word = true
  | _ => False

theorem settles_waitIdle : engine.waitIdle.Settles (Command.IsOn .sp) FindsIdle := by
  intro events value run
  obtain ⟨waiting, rest, word, wait, returning, rfl⟩ := run.of_bind_returned
  obtain ⟨front, back, rfl, taken, status⟩ := Idle.exists_accepted_of_spin wait
  cases returning
  refine ⟨front, _, back, List.append_nil _, ⟨rfl, taken⟩, fun event member on => ?_⟩
  exact (status event member).not_isOn on

end Sp

/-! ### The video output -/

namespace Video

variable (config : Config) (memory : FrameMemory) (platform : Platform) (color : Color)

/-- The writes that load the pattern. -/
def patternWrites : List Command :=
  Sp.startWrites patternPlace (.ofAddress memory.staging) pageSize .fromRdram

/-- The writes that clear a framebuffer: one transfer of the pattern for each chunk. -/
def clearWrites (index : Fin 2) : List Command :=
  clearChunks.flatMap fun chunk => Sp.startWrites patternPlace
    ((PhysAddr.ofAddress (memory.framebuffer index)).offset chunk.offset.toUInt32) chunk.len .toRdram

theorem emits_setClearColor (video : Video) (color : Color) : (video.setClearColor color).Emits
    (Command.WritesTo .sp) (patternWrites video.memory) := by
  have fill : (Program.perform (.fillStaging video.memory.staging color)).Emits
      (Command.WritesTo .sp) [] := .perform_of_not id
  refine fill.behind fun _ => (Cpu.emits_cacheRange _ _ _ _).behind fun _ => ?_
  refine Sp.emits_waitIdle.behind fun _ => .ofExcept_bind fun descriptor built => ?_
  have start := Sp.emits_start built (by decide) .fromRdram
  have rest : (Sp.engine.waitIdle >>= fun _ => Program.done ()).Emits (Command.WritesTo .sp) [] :=
    Sp.emits_waitIdle.behind fun _ => .done _
  exact start.ahead fun _ => rest

theorem emits_clearFramebuffer (video : Video) (index : Fin 2) :
    (clearFramebuffer config video index).Emits (Command.WritesTo .sp)
      (clearWrites video.memory index) := by
  have chunk (chunk : ClearChunk) (member : chunk ∈ clearChunks) :
      (clearChunk config (.ofAddress (video.memory.framebuffer index)) chunk).Emits
        (Command.WritesTo .sp) (Sp.startWrites patternPlace
          ((PhysAddr.ofAddress (video.memory.framebuffer index)).offset chunk.offset.toUInt32)
          chunk.len .toRdram) := by
    obtain ⟨-, -, short, -⟩ := chunk_inside member
    refine (Sp.emits_waitQueue config).behind fun _ => .ofExcept_bind fun descriptor built => ?_
    exact Sp.emits_start built (Nat.le_trans short (by decide)) .toRdram
  have rest : (Sp.engine.waitIdle >>= fun _ => Program.done ()).Emits (Command.WritesTo .sp) [] :=
    Sp.emits_waitIdle.behind fun _ => .done _
  refine (Cpu.emits_cacheRange _ _ _ _).behind fun _ => ?_
  exact (Emits.forM clearChunks chunk).ahead fun _ => rest

/-- **What the signal processor is told** while the video output is prepared: to load the pattern,
and to copy it all over the first and then all over the second framebuffer. -/
theorem emits_prepare : (prepare config memory platform color).Emits (Command.WritesTo .sp)
    (patternWrites memory ++ clearWrites memory 0 ++ clearWrites memory 1) := by
  have log : ((timingRecord platform).emit config.logFilter).Emits (Command.WritesTo .sp) [] :=
    (LogRecord.writes_emit _ _).emits_nil fun _ viewer sp => nomatch viewer.block_eq sp.isOn
  refine (Emits.perform_of_not nofun).behind fun _ => ?_
  refine (Emits.perform_of_not id).behind fun _ => ?_
  rw [List.append_assoc]
  refine (emits_setClearColor (initial memory platform) color).bind fun _ => ?_
  refine (emits_clearFramebuffer config (initial memory platform) 0).bind fun _ => ?_
  exact (emits_clearFramebuffer config (initial memory platform) 1).ahead fun _ => log

/-- **What the video interface is told** meanwhile: to show nothing. -/
theorem emits_prepare_blank : (prepare config memory platform color).Emits (Command.IsOn .vi)
    [.write ViRegister.ctrl 0] := by
  have away (command : Command) (h : command.IsTransfer ∨ command.IsStatus) :
      ¬ command.IsOn .vi := by
    rcases h with h | h
    · cases command with
      | read register | write register value => exact fun on => nomatch Eq.trans (Eq.symm h) on
      | _ => exact id
    · exact h.not_isOn
  have silent {program : Program Unit} (h : program.Paced Command.IsTransfer) :
      program.Emits (Command.IsOn .vi) [] :=
    (h.accesses (fun _ => .inl) fun _ => .inr).emits_nil away
  have log : ((timingRecord platform).emit config.logFilter).Emits (Command.IsOn .vi) [] :=
    (LogRecord.writes_emit _ _).emits_nil fun _ viewer vi => nomatch viewer.block_eq vi
  refine .cons rfl fun _ => ?_
  refine (Emits.perform_of_not id).behind fun _ => ?_
  refine (silent (paced_setClearColor _ _)).behind fun _ => ?_
  refine (silent (paced_clearFramebuffer _ _ _)).behind fun _ => ?_
  exact (silent (paced_clearFramebuffer _ _ _)).behind fun _ => log

theorem settles_clearFramebuffer (video : Video) (index : Fin 2) :
    (clearFramebuffer config video index).Settles (Command.IsOn .sp) Sp.FindsIdle := by
  refine .behind fun _ => .behind fun _ => ?_
  exact Sp.settles_waitIdle.ahead fun _ => .done _

/-- **The signal processor is idle** at the end of a preparation: this is what the last look at it
has found, and none of its registers is written behind that. -/
theorem settles_prepare :
    (prepare config memory platform color).Settles (Command.IsOn .sp) Sp.FindsIdle := by
  refine .behind fun _ => .behind fun _ => .behind fun _ => .behind fun _ => ?_
  refine (settles_clearFramebuffer config _ 1).ahead fun _ => ?_
  exact (LogRecord.writes_emit _ _).mono fun _ viewer sp => nomatch viewer.block_eq sp

/-- The registers of the picture of the first framebuffer, in the order in which they are written,
with the values that a profile and the two scales of it give them. -/
def pictureValues (profile : TimingProfile) (x y : UInt32) : List (Register × UInt32) :=
  [(ViRegister.origin, (PhysAddr.ofAddress (memory.framebuffer ⟨0, Nat.zero_lt_two⟩)).word),
    (ViRegister.width, UInt32.ofNat Framebuffer.width),
    (ViRegister.vIntr, vblankLine), (ViRegister.vCurrent, 0),
    (ViRegister.burst, profile.burst), (ViRegister.vSync, profile.vSync),
    (ViRegister.hSync, profile.hSync), (ViRegister.hSyncLeap, profile.hSyncLeap),
    (ViRegister.hVideo, profile.hVideo), (ViRegister.vVideo, profile.vVideo),
    (ViRegister.vBurst, profile.vBurst), (ViRegister.xScale, x), (ViRegister.yScale, y)]

/-- The writes of register values. -/
def writes (values : List (Register × UInt32)) : List Command :=
  values.map fun value => .write value.1 value.2

/-- Writing the registers of the picture is writing registers of the video interface. -/
theorem writes_writeTiming (video : Video) (profile : TimingProfile) :
    (video.writeTiming profile).Accesses (Command.WritesTo .vi) := by
  iterate 11 refine .bind (.write rfl) fun _ => ?_
  refine (accesses_ofExcept _).bind fun _ => .bind (.write rfl) fun _ => ?_
  refine (accesses_ofExcept _).bind fun _ => .bind (.write rfl) fun _ => ?_
  exact (accesses_ofExcept _).bind fun _ => .write rfl

/-- The video output is turned on. -/
def TurnsOn : Event → Prop
  | ⟨.write register word, _⟩ => register = ViRegister.ctrl ∧ word ≠ 0
  | _ => False

/-- Turning it on comes last. -/
theorem settles_writeTiming (video : Video) :
    (video.writeTiming platform.profile).Settles (Command.IsOn .vi) TurnsOn := by
  -- eleven registers, the two scales, and the control word, which no platform has as zero
  iterate 11 refine .behind fun _ => ?_
  refine .ofExcept_bind fun _ _ => .behind fun _ => .ofExcept_bind fun _ _ => .behind fun _ => ?_
  refine .ofExcept_bind fun word ok => .perform fun _ => ⟨rfl, ?_⟩
  obtain ⟨_, _, ctrl, -, -, eq, ne⟩ := platform.exists_values
  rw [eq] at ok
  cases ok
  exact ne

/-- **The registers of the picture**, the control word last. -/
theorem emits_writeTiming {profile : TimingProfile} {x y ctrl : UInt32}
    (xScale : profile.xScale = .ok x) (yScale : profile.yScale = .ok y)
    (word : profile.ctrl .resampleOnly = .ok ctrl) :
    ((initial memory platform).writeTiming profile).Emits (Command.IsOn .vi)
      (writes (pictureValues memory profile x y) ++ [.write ViRegister.ctrl ctrl]) := by
  have write (register : Register) (value : UInt32) (vi : register.block = .vi)
      {f : Unit → Program Unit} {commands : List Command}
      (rest : ∀ u, (f u).Emits (Command.IsOn .vi) commands) :
      (Program.write register value >>= f).Emits (Command.IsOn .vi)
        (.write register value :: commands) :=
    .cons vi rest
  iterate 11 refine write _ _ rfl fun _ => ?_
  refine .ofExcept_bind fun x' eq => ?_
  obtain rfl : x = x' := by rw [xScale] at eq; cases eq; rfl
  refine write _ _ rfl fun _ => .ofExcept_bind fun y' eq => ?_
  obtain rfl : y = y' := by rw [yScale] at eq; cases eq; rfl
  refine write _ _ rfl fun _ => .ofExcept_bind fun ctrl' eq => ?_
  obtain rfl : ctrl = ctrl' := by rw [word] at eq; cases eq; rfl
  exact .perform rfl

end Video

end ColdBoot
