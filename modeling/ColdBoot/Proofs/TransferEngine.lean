import ColdBoot.Proofs.FrameBytes
import ColdBoot.Proofs.RowPacking
import ColdBoot.Proofs.TransferQueue

/-! # A copying engine

The signal processor's engine as its users rely on it: transfers are carried out in the order they
are started in, at most two are outstanding, and one started while both places are taken is lost. It
copies byte by byte in its own time, so another party may see a transfer half done.

* **`Transfer`** – the bytes that a transfer has still to copy, each with its two places;
* **`TransferEngine.Moves`** – what the engine does by itself;
* **`TransferEngine.write`** – what it does when one of its registers is written;
* **`TransferEngine.Moves.copies`** – one move, seen from any pending byte. -/

namespace ColdBoot

/-- A byte to copy: its place in the signal processor, and its place in RDRAM. -/
structure PendingByte where
  mem : Nat
  dram : Nat
  deriving DecidableEq

/-- The rest of a transfer. -/
structure Transfer where
  direction : Direction
  bytes : List PendingByte
  deriving DecidableEq

namespace Transfer

/-- The transfer that the engine's words stand for: rows of bytes one behind the other inside the
signal processor, with gaps between them in RDRAM. -/
def ofWords (direction : Direction) (mem dram length : UInt32) : Transfer where
  direction := direction
  bytes :=
    let row := RowLength.ofBits length
    let rowBytes := row.copy.toNat + 1
    (List.range (row.count.toNat + 1)).flatMap fun r => (List.range rowBytes).map fun i =>
      ⟨mem.toNat + r * rowBytes + i, dram.toNat + r * (rowBytes + row.skip.toNat) + i⟩

/-- A transfer of one row. -/
def linear (direction : Direction) (mem dram len : Nat) : Transfer where
  direction := direction
  bytes := (List.range len).map fun i => ⟨mem + i, dram + i⟩

theorem mem_linear {direction : Direction} {mem dram len : Nat} {byte : PendingByte} :
    byte ∈ (linear direction mem dram len).bytes ↔ ∃ i < len, ⟨mem + i, dram + i⟩ = byte := by
  simp only [linear, List.mem_map, List.mem_range]

/-- The words of a descriptor of one row stand for a transfer of one row. Only the low half of its
length reaches the descriptor, hence the bound. -/
theorem ofWords_of_linear {mem : UInt32} {dram : PhysAddr} {bytes : UInt64}
    {descriptor : SpDescriptor} {word : UInt32} (built : Sp.linear mem dram bytes = .ok descriptor)
    (short : bytes.toNat ≤ 2 ^ 16) (packed : descriptor.row.bits = .ok word)
    (direction : Direction) :
    ofWords direction descriptor.mem descriptor.dram.word word =
      linear direction mem.toNat dram.word.toNat bytes.toNat := by
  by_cases positive : 1 ≤ bytes
  · rw [Sp.linear, RowLength.linear, Checked.subSize, if_pos positive] at built
    cases built
    have least := UInt64.le_iff_toNat_le.1 positive
    rw [UInt64.toNat_one] at least
    have copy : (bytes - 1).toUInt16.toNat + 1 = bytes.toNat := by
      rw [UInt64.toNat_toUInt16, UInt64.toNat_sub_of_le _ _ positive, UInt64.toNat_one]
      omega
    rw [ofWords, RowLength.ofBits_of_bits _ packed, linear]
    simp only [copy, UInt8.toNat_zero, Nat.zero_add, List.range_one, List.flatMap_cons,
      List.flatMap_nil, List.append_nil, Nat.zero_mul, Nat.add_zero]
  · rw [Sp.linear, RowLength.linear, Checked.subSize, if_neg positive] at built
    cases built

end Transfer

/-! ### The engine -/

/-- The engine with the memory of its signal processor. -/
structure TransferEngine where
  /-- The address register on the signal processor's side. -/
  memAddr : UInt32
  /-- The address register on the side of RDRAM. -/
  dramAddr : UInt32
  /-- Outstanding transfers, the active one first. -/
  queue : List Transfer
  /-- All transfers ever started, lost ones included, the last one last. -/
  started : List Transfer
  /-- The signal processor's memory. -/
  dmem : Bytes

namespace TransferEngine

/-- A byte of an outstanding transfer. -/
def Pending (engine : TransferEngine) (direction : Direction) (byte : PendingByte) : Prop :=
  ∃ transfer ∈ engine.queue, transfer.direction = direction ∧ byte ∈ transfer.bytes

theorem not_pending {engine : TransferEngine} (idle : engine.queue = []) {direction : Direction}
    {byte : PendingByte} : ¬ engine.Pending direction byte := by
  rintro ⟨transfer, member, -⟩
  rw [idle] at member
  cases member

/-- What an engine does by itself, together with RDRAM: copy the next byte of the active transfer,
or end the active transfer when nothing is left of it. -/
inductive Moves : TransferEngine → Bytes → TransferEngine → Bytes → Prop where
  | load {engine : TransferEngine} {rdram : Bytes} {byte : PendingByte} {bytes : List PendingByte}
      {rest : List Transfer} (active : engine.queue = ⟨.fromRdram, byte :: bytes⟩ :: rest) :
      Moves engine rdram
        { engine with
          queue := ⟨.fromRdram, bytes⟩ :: rest
          dmem := Function.update engine.dmem byte.mem (rdram byte.dram) }
        rdram
  | store {engine : TransferEngine} {rdram : Bytes} {byte : PendingByte}
      {bytes : List PendingByte} {rest : List Transfer}
      (active : engine.queue = ⟨.toRdram, byte :: bytes⟩ :: rest) :
      Moves engine rdram { engine with queue := ⟨.toRdram, bytes⟩ :: rest }
        (Function.update rdram byte.dram (engine.dmem byte.mem))
  | retire {engine : TransferEngine} {rdram : Bytes} {direction : Direction}
      {rest : List Transfer} (active : engine.queue = ⟨direction, []⟩ :: rest) :
      Moves engine rdram { engine with queue := rest } rdram

/-- Start a transfer with the words that are in the address registers. A third one is lost. -/
def start (engine : TransferEngine) (direction : Direction) (length : UInt32) : TransferEngine :=
  let transfer := Transfer.ofWords direction engine.memAddr engine.dramAddr length
  { engine with
    queue := if engine.queue.length < 2 then engine.queue ++ [transfer] else engine.queue
    started := engine.started ++ [transfer] }

/-- The engine behind the write of a register. -/
def write (engine : TransferEngine) (register : Register) (value : UInt32) : TransferEngine :=
  if register = SpRegister.memAddr then { engine with memAddr := value }
  else if register = SpRegister.dramAddr then { engine with dramAddr := value }
  else if register = SpRegister.readLen then engine.start .fromRdram value
  else if register = SpRegister.writeLen then engine.start .toRdram value
  else engine

/-! ### Registers -/

/-- The length register of a direction starts a transfer in that direction. -/
theorem write_lengthRegister (engine : TransferEngine) (direction : Direction) (value : UInt32) :
    engine.write (Sp.lengthRegister direction) value = engine.start direction value := by
  cases direction <;> rfl

/-- Registers of other blocks are none of the engine's business. -/
theorem write_of_block_ne (engine : TransferEngine) {register : Register} (value : UInt32)
    (ne : register.block ≠ .sp) : engine.write register value = engine := by
  have other {own : Register} (block : own.block = .sp) : register ≠ own := by
    rintro rfl
    exact ne block
  rw [write, if_neg (other rfl), if_neg (other rfl), if_neg (other rfl), if_neg (other rfl)]

theorem length_start_le (engine : TransferEngine) (direction : Direction) (length : UInt32) :
    (engine.start direction length).queue.length ≤ engine.queue.length + 1 := by
  unfold start
  split
  · simp
  · exact Nat.le_succ _

/-- A write that starts nothing leaves the queue alone. -/
theorem queue_write (engine : TransferEngine) {register : Register} {value : UInt32}
    (other : ¬ (Command.write register value).IsStart) :
    (engine.write register value).queue = engine.queue := by
  have read : register ≠ SpRegister.readLen := fun eq => other (.inl eq)
  have write : register ≠ SpRegister.writeLen := fun eq => other (.inr eq)
  unfold TransferEngine.write
  rw [if_neg read, if_neg write]
  split
  · rfl
  · split <;> rfl

/-! ### Moves -/

section Moves

variable {engine engine' : TransferEngine} {rdram rdram' : Bytes}

/-- A move ends transfers and starts none. -/
theorem Moves.length_le (moved : Moves engine rdram engine' rdram') :
    engine'.queue.length ≤ engine.queue.length := by
  cases moved with
  | load active => rw [active]; exact Nat.le_refl _
  | store active => rw [active]; exact Nat.le_refl _
  | retire active => rw [active]; exact Nat.le_succ _

/-- An idle engine does not move. -/
theorem Moves.not_idle (moved : Moves engine rdram engine' rdram') : engine.queue ≠ [] := by
  intro idle
  cases moved with
  | load active => rw [idle] at active; cases active
  | store active => rw [idle] at active; cases active
  | retire active => rw [idle] at active; cases active

@[simp] theorem Moves.started (moved : Moves engine rdram engine' rdram') :
    engine'.started = engine.started := by
  cases moved <;> rfl

@[simp] theorem Moves.memAddr (moved : Moves engine rdram engine' rdram') :
    engine'.memAddr = engine.memAddr := by
  cases moved <;> rfl

@[simp] theorem Moves.dramAddr (moved : Moves engine rdram engine' rdram') :
    engine'.dramAddr = engine.dramAddr := by
  cases moved <;> rfl

/-- Bytes pending at the head of the queue, or behind it. -/
theorem pending_cons {direction : Direction} {byte : PendingByte} {transfer : Transfer}
    {rest : List Transfer} (eq : engine.queue = transfer :: rest) :
    engine.Pending direction byte ↔
      (transfer.direction = direction ∧ byte ∈ transfer.bytes) ∨
        ∃ later ∈ rest, later.direction = direction ∧ byte ∈ later.bytes := by
  simp only [Pending, eq, List.mem_cons, exists_eq_or_imp]

section Shift

variable {direction : Direction} {first : PendingByte} {bytes : List PendingByte}
  {rest : List Transfer} (before : engine.queue = ⟨direction, first :: bytes⟩ :: rest)

include before

theorem pending_first : engine.Pending direction first :=
  (pending_cons before).2 (.inl ⟨rfl, List.mem_cons_self⟩)

variable (behind : engine'.queue = ⟨direction, bytes⟩ :: rest) {d : Direction} {byte : PendingByte}

include behind

/-- When the active transfer loses its first byte, nothing becomes pending. -/
theorem pending_of_shift (pending : engine'.Pending d byte) : engine.Pending d byte := by
  rw [pending_cons behind] at pending
  rw [pending_cons before]
  exact pending.imp_left fun h => ⟨h.1, List.mem_cons_of_mem _ h.2⟩

/-- And all that was pending still is, but for that byte of that transfer. -/
theorem pending_or_of_shift (pending : engine.Pending d byte) :
    engine'.Pending d byte ∨ (d = direction ∧ byte = first) := by
  rw [pending_cons before] at pending
  rw [pending_cons behind]
  rcases pending with ⟨rfl, member⟩ | later
  · rcases List.mem_cons.1 member with rfl | member
    · exact .inr ⟨rfl, rfl⟩
    · exact .inl (.inl ⟨rfl, member⟩)
  · exact .inl (.inr later)

end Shift

/-- **One move.** Either a pending byte is copied, and is all that changes in either memory, or
nothing is copied. What is pending afterwards was so before, and what was pending and is no more has
been copied by this move. -/
theorem Moves.copies (moved : Moves engine rdram engine' rdram') :
    (∀ direction byte, engine'.Pending direction byte → engine.Pending direction byte) ∧
    ((∃ byte, engine.Pending .fromRdram byte ∧ rdram' = rdram ∧
        engine'.dmem = Function.update engine.dmem byte.mem (rdram byte.dram) ∧
        ∀ direction other, engine.Pending direction other →
          engine'.Pending direction other ∨ (direction = .fromRdram ∧ other = byte)) ∨
      (∃ byte, engine.Pending .toRdram byte ∧ engine'.dmem = engine.dmem ∧
        rdram' = Function.update rdram byte.dram (engine.dmem byte.mem) ∧
        ∀ direction other, engine.Pending direction other →
          engine'.Pending direction other ∨ (direction = .toRdram ∧ other = byte)) ∨
      (engine'.dmem = engine.dmem ∧ rdram' = rdram ∧
        ∀ direction other, engine.Pending direction other → engine'.Pending direction other)) := by
  cases moved with
  | @load byte bytes rest active =>
    refine ⟨fun _ _ => pending_of_shift active rfl, .inl ⟨byte, pending_first active, rfl, rfl, ?_⟩⟩
    exact fun _ _ => pending_or_of_shift active rfl
  | @store byte bytes rest active =>
    refine ⟨fun _ _ => pending_of_shift active rfl,
      .inr (.inl ⟨byte, pending_first active, rfl, rfl, ?_⟩)⟩
    exact fun _ _ => pending_or_of_shift active rfl
  | @retire direction rest active =>
    -- nothing was left of the transfer that ends
    refine ⟨?_, .inr (.inr ⟨rfl, rfl, ?_⟩)⟩
    · intro d byte pending
      exact (pending_cons active).2 (.inr pending)
    · intro d byte pending
      rcases (pending_cons active).1 pending with ⟨-, nothing⟩ | later
      · cases nothing
      · exact later

end Moves

end TransferEngine

end ColdBoot
