import ColdBoot.Proofs.Board

/-! # Boards at rest

The engine carries transfers out in the order they were started in. So whenever it moves, there is
one board that it will have made of the present one when it comes to the end of its queue. A program
that only starts transfers where there is room, and keeps away from what is still to be copied, does
to that board what it would do with an engine that takes no time.

* **`Board.settled`** – the board with all outstanding transfers carried out;
* **`Board.settled_of_moves`** – what the board does by itself makes no difference to it;
* **`Board.settled_of_responds`** – what a command does to it, and **`Board.picture_of_responds`** –
  the picture that is loaded is its picture. -/

namespace ColdBoot

/-! ### Copying bytes -/

/-- The two memories that the engine copies between. -/
structure Memories where
  dmem : Bytes
  rdram : Bytes

/-- Copy a byte in a direction. -/
def Memories.copy (memories : Memories) : Direction × PendingByte → Memories
  | (.fromRdram, byte) =>
      { memories with dmem := Function.update memories.dmem byte.mem (memories.rdram byte.dram) }
  | (.toRdram, byte) =>
      { memories with rdram := Function.update memories.rdram byte.dram (memories.dmem byte.mem) }

/-- The copies that are left of a transfer. -/
def Transfer.copies (transfer : Transfer) : List (Direction × PendingByte) :=
  transfer.bytes.map fun byte => (transfer.direction, byte)

namespace Memories

/-- The memories with one byte of RDRAM changed. -/
def set (memories : Memories) (a : Nat) (value : UInt8) : Memories :=
  { memories with rdram := Function.update memories.rdram a value }

/-- The memories behind some copies. -/
def copyAll (memories : Memories) (copies : List (Direction × PendingByte)) : Memories :=
  copies.foldl copy memories

variable {memories : Memories} {a : Nat}

/-- A copy that is not about a byte of RDRAM leaves it alone. -/
theorem rdram_copy {copied : Direction × PendingByte} (ne : copied.2.dram ≠ a) :
    (memories.copy copied).rdram a = memories.rdram a := by
  obtain ⟨direction, byte⟩ := copied
  cases direction with
  | fromRdram => rfl
  | toRdram => exact Function.update_of_ne ne.symm _ _

/-- Nor does it notice whether the byte is changed before or behind it. -/
theorem copy_set {copied : Direction × PendingByte} (ne : copied.2.dram ≠ a) (value : UInt8) :
    (memories.set a value).copy copied = (memories.copy copied).set a value := by
  obtain ⟨direction, byte⟩ := copied
  cases direction with
  | fromRdram => simp only [copy, set, Function.update_of_ne ne]
  | toRdram => simp only [copy, set, Function.update_comm ne]

variable {copies : List (Direction × PendingByte)}

theorem rdram_copyAll (free : ∀ copied ∈ copies, copied.2.dram ≠ a) :
    (memories.copyAll copies).rdram a = memories.rdram a := by
  induction copies generalizing memories with
  | nil => rfl
  | cons copied copies ih =>
    rw [List.forall_mem_cons] at free
    exact (ih free.2).trans (rdram_copy free.1)

theorem copyAll_set (free : ∀ copied ∈ copies, copied.2.dram ≠ a) (value : UInt8) :
    (memories.set a value).copyAll copies = (memories.copyAll copies).set a value := by
  induction copies generalizing memories with
  | nil => rfl
  | cons copied copies ih =>
    rw [List.forall_mem_cons] at free
    rw [copyAll, List.foldl_cons, copy_set free.1]
    exact ih free.2

/-- Copying a row to RDRAM is storing the bytes of data memory one after another. -/
theorem copyAll_linear (memories : Memories) (mem dram len : Nat) :
    memories.copyAll (Transfer.linear .toRdram mem dram len).copies =
      { memories with
        rdram := memories.rdram.stored
          ((List.range len).map fun i => (dram + i, memories.dmem (mem + i))) } := by
  simp only [Transfer.copies, Transfer.linear, List.map_map]
  generalize List.range len = places
  induction places generalizing memories with
  | nil => rfl
  | cons i places ih => exact ih (memories.copy (.toRdram, ⟨mem + i, dram + i⟩))

end Memories

namespace Board

variable {κ : Type}

/-! ### What is still to be copied -/

/-- All that the engine has still to copy, in its order. -/
def copies (s : Board κ) : List (Direction × PendingByte) := s.engine.queue.flatMap Transfer.copies

/-- An outstanding transfer copies a byte of RDRAM, one way or the other. -/
def Touches (s : Board κ) (a : Nat) : Prop :=
  ∃ direction byte, s.engine.Pending direction byte ∧ byte.dram = a

theorem ne_of_not_touches {s : Board κ} {a : Nat} (free : ¬ s.Touches a) :
    ∀ copied ∈ s.copies, copied.2.dram ≠ a := by
  intro copied member eq
  obtain ⟨transfer, outstanding, inside⟩ := List.mem_flatMap.1 member
  obtain ⟨byte, left, rfl⟩ := List.mem_map.1 inside
  exact free ⟨_, byte, ⟨transfer, outstanding, rfl, left⟩, eq⟩

theorem not_touches {s : Board κ} (idle : s.engine.queue = []) (a : Nat) : ¬ s.Touches a := by
  rintro ⟨direction, byte, pending, -⟩
  exact TransferEngine.not_pending idle pending

/-! ### The board at rest -/

/-- The memories of a board. -/
def memories (s : Board κ) : Memories := ⟨s.engine.dmem, s.memory.rdram⟩

/-- The board with other memories, and nothing outstanding. -/
def restingOn (s : Board κ) (memories : Memories) : Board κ :=
  { s with
    engine := { s.engine with queue := [], dmem := memories.dmem }
    memory := { s.memory with rdram := memories.rdram } }

/-- The board as it will be when all outstanding transfers are carried out. -/
def settled (s : Board κ) : Board κ := s.restingOn (s.memories.copyAll s.copies)

/-- A board with an idle engine is at rest. -/
theorem settled_of_idle {s : Board κ} (idle : s.engine.queue = []) : s.settled = s := by
  obtain ⟨⟨memAddr, dramAddr, queue, started, dmem⟩, memory, origin⟩ := s
  obtain rfl : queue = [] := idle
  rfl

/-- A single row on its way to RDRAM is stored there. -/
theorem settled_of_linear {s : Board κ} {mem dram len : Nat}
    (alone : s.engine.queue = [.linear .toRdram mem dram len]) :
    s.settled = s.restingOn
      { dmem := s.engine.dmem
        rdram := s.memory.rdram.stored
          ((List.range len).map fun i => (dram + i, s.engine.dmem (mem + i))) } := by
  have copied : s.copies = (Transfer.linear .toRdram mem dram len).copies := by
    rw [copies, alone, List.flatMap_cons, List.flatMap_nil, List.append_nil]
  rw [settled, copied, Memories.copyAll_linear]
  rfl

/-- **The engine's moves lead to where it will be.** -/
theorem settled_of_moves {s t : Board Unit} (moved : Moves directPath s t) :
    t.settled = s.settled ∧ ∀ a, t.Touches a → s.Touches a := by
  cases moved with
  | memory moved => exact moved.elim
  | engine moved =>
    constructor
    · cases moved with
      | load active => simp only [settled, copies, active]; rfl
      | store active => simp only [settled, copies, active]; rfl
      | retire active => simp only [settled, copies, active]; rfl
    · rintro a ⟨direction, byte, pending, eq⟩
      exact ⟨direction, byte, moved.copies.1 direction byte pending, eq⟩

/-- A byte that nobody is going to copy is at rest already. -/
theorem rdram_settled {s : Board κ} {a : Nat} (free : ¬ s.Touches a) :
    s.settled.memory.rdram a = s.memory.rdram a :=
  Memories.rdram_copyAll (ne_of_not_touches free)

/-- Storing such a byte is storing it on the board at rest. -/
theorem settled_store {s : Board κ} {a : Nat} (free : ¬ s.Touches a) (value : UInt8) :
    ({ s with memory := { s.memory with rdram := Function.update s.memory.rdram a value } } :
        Board κ).settled = s.settled.stored [(a, value)] := by
  show s.restingOn ((s.memories.set a value).copyAll s.copies) =
    s.restingOn ((s.memories.copyAll s.copies).set a value)
  rw [Memories.copyAll_set (ne_of_not_touches free)]

/-! ### Loads and stores -/

section Bytes

variable {s t : Board Unit}

/-- Stores of bytes that nobody is going to copy are stores on the board at rest, whatever the
engine does between them. -/
theorem settled_of_stores {stores : List (Nat × UInt8)} (done : Stores directPath s stores t)
    (free : ∀ store ∈ stores, ¬ s.Touches store.1) : t.settled = s.settled.stored stores := by
  -- the stores still to come lead from the board at rest to one and the same board
  let invariant (left : List (Nat × UInt8)) (b : Board Unit) : Prop :=
    (∀ store ∈ left, ¬ b.Touches store.1) ∧ b.settled.stored left = s.settled.stored stores
  have final : invariant [] t := by
    refine done.induct invariant ?_ ?_ ⟨free, rfl⟩
    · rintro left b c moved ⟨free, same⟩
      obtain ⟨settled, fewer⟩ := settled_of_moves moved
      rw [← settled] at same
      exact ⟨fun store member touched => free store member (fewer _ touched), same⟩
    · rintro ⟨a, value⟩ left b memory ⟨free, same⟩ rfl
      rw [List.forall_mem_cons] at free
      refine ⟨free.2, ?_⟩
      rw [settled_store free.1]
      exact same
  exact final.2

/-- Loads of such bytes give what the board at rest has, and make no difference to it. -/
theorem settled_of_loads {loads : List (Nat × UInt8)} (done : Loads directPath s loads t)
    (free : ∀ load ∈ loads, ¬ s.Touches load.1) :
    t.settled = s.settled ∧ ∀ load ∈ loads, s.settled.memory.rdram load.1 = load.2 := by
  -- each load is still to come, or has given what the board at rest has
  let invariant (left : List (Nat × UInt8)) (b : Board Unit) : Prop :=
    (∀ load ∈ left, ¬ b.Touches load.1) ∧ b.settled = s.settled ∧
      ∀ load ∈ loads, load ∈ left ∨ s.settled.memory.rdram load.1 = load.2
  have final : invariant [] t := by
    refine done.induct invariant ?_ ?_ ⟨free, rfl, fun load member => .inl member⟩
    · rintro left b c moved ⟨free, same, seen⟩
      obtain ⟨settled, fewer⟩ := settled_of_moves moved
      refine ⟨fun load member touched => ?_, settled.trans same, seen⟩
      exact free load member (fewer _ touched)
    · rintro ⟨a, value⟩ left b memory ⟨free, same, seen⟩ ⟨loaded, rfl⟩
      rw [List.forall_mem_cons] at free
      refine ⟨free.2, same, fun load member => ?_⟩
      rcases seen load member with ahead | known
      · rcases List.mem_cons.1 ahead with rfl | later
        · right
          rw [← same, rdram_settled free.1]
          exact loaded.symm
        · exact .inl later
      · exact .inr known
  obtain ⟨-, same, seen⟩ := final
  refine ⟨same, fun load member => ?_⟩
  rcases seen load member with ahead | known
  · cases ahead
  · exact known

end Bytes

/-! ### Registers -/

/-- Where there is room for another transfer, starting it on the present board and on the board at
rest leads to the same. -/
theorem settled_start {s : Board κ} (room : s.outstanding < 2) (direction : Direction)
    (length : UInt32) :
    ({ s with engine := s.engine.start direction length } : Board κ).settled =
      ({ s.settled with engine := s.settled.engine.start direction length } : Board κ).settled := by
  have room : s.engine.queue.length < 2 := room
  -- the new transfer is copied behind all others
  have last (transfer : Transfer) (memories : Memories) :
      memories.copyAll ((s.engine.queue ++ [transfer]).flatMap Transfer.copies) =
        (memories.copyAll s.copies).copyAll ([transfer].flatMap Transfer.copies) := by
    rw [List.flatMap_append, Memories.copyAll, List.foldl_append]
    rfl
  simp only [settled, restingOn, copies, memories, TransferEngine.start, if_pos room,
    List.length_nil, Nat.zero_lt_two, if_true, List.nil_append, last]

/-- The same for any register. -/
theorem settled_write {s : Board κ} {register : Register} {value : UInt32}
    (room : (Command.write register value).IsStart → s.outstanding < 2) :
    (s.write register value).settled = (s.settled.write register value).settled := by
  by_cases read : register = SpRegister.readLen
  · subst read
    exact settled_start (room (.inl rfl)) .fromRdram value
  by_cases write : register = SpRegister.writeLen
  · subst write
    exact settled_start (room (.inr rfl)) .toRdram value
  -- what starts nothing leaves the engine of the board at rest idle
  have idle : (s.settled.write register value).engine.queue = [] :=
    s.settled.engine.queue_write (not_or.2 ⟨read, write⟩)
  rw [settled_of_idle idle]
  by_cases mem : register = SpRegister.memAddr
  · subst mem
    rfl
  by_cases dram : register = SpRegister.dramAddr
  · subst dram
    rfl
  simp only [Board.write, TransferEngine.write, if_neg mem, if_neg dram, if_neg read, if_neg write,
    settled, restingOn, copies, memories]

/-! ### Commands -/

end Board

/-- A byte of RDRAM that the processor loads or stores by a command. -/
def Command.Uses : Command → Nat → Prop
  | .loadFrame vaddr, a | .storePixels vaddr _, a =>
      placeOf vaddr ≤ a ∧ a < placeOf vaddr + Framebuffer.byteSize.toNat
  | .fillStaging vaddr _, a => placeOf vaddr ≤ a ∧ a < placeOf vaddr + pageSize.toNat
  | .storeDoubleword vaddr _, a => placeOf vaddr ≤ a ∧ a < placeOf vaddr + 8
  | _, _ => False

namespace Board

/-- A command that does not race the engine: it finds room if it is a start, and no byte that it
uses is still to be copied. -/
structure Tidy {κ : Type} (s : Board κ) (command : Command) : Prop where
  room : command.IsStart → s.outstanding < 2
  apart : ∀ a, command.Uses a → ¬ s.Touches a

/-- What becomes of a board at rest, when the engine takes no time. -/
def promptly (s : Board Unit) : Command → Board Unit
  | .write register value => (s.write register value).settled
  | .storePixels vaddr drawing => s.stored (Drawing.stores drawing (placeOf vaddr))
  | .fillStaging vaddr color => s.stored (color.pageStores (placeOf vaddr))
  | .storeDoubleword vaddr word => s.stored (doublewordStores word (placeOf vaddr))
  | _ => s

section Commands

variable {s t : Board Unit}

theorem not_touches_of_mem_loads {vaddr : UInt32} (tidy : s.Tidy (.loadFrame vaddr))
    (fb : Framebuffer) : ∀ load ∈ fb.loads (placeOf vaddr), ¬ s.Touches load.1 := by
  intro load member
  obtain ⟨k, small, rfl⟩ := List.mem_map.1 member
  have small : k < Framebuffer.byteSize.toNat := List.mem_range.1 small
  exact tidy.apart _ ⟨Nat.le_add_right _ _, Nat.add_lt_add_left small _⟩

/-- **What a command does to the board at rest**, if it does not race the engine. -/
theorem settled_of_responds {command : Command} {answer : command.Answer} (tidy : s.Tidy command)
    (responded : (hardware directPath).responds s command answer t) :
    t.settled = s.settled.promptly command := by
  cases command with
  | read register => rw [responded.1]; rfl
  | write register value =>
    obtain rfl : t = s.write register value := responded
    exact settled_write tidy.room
  | cache operation vaddr =>
    obtain ⟨memory, rfl, rfl⟩ := responded
    rfl
  | loadFrame vaddr =>
    exact (settled_of_loads responded (not_touches_of_mem_loads tidy answer)).1
  | storePixels vaddr drawing =>
    apply settled_of_stores responded
    exact fun store member => tidy.apart _ (Drawing.mem_stores member)
  | fillStaging vaddr color =>
    apply settled_of_stores responded
    intro store member
    obtain ⟨k, small, rfl⟩ := Color.mem_pageStores.1 member
    exact tidy.apart _ ⟨Nat.le_add_right _ _, Nat.add_lt_add_left small _⟩
  | storeDoubleword vaddr word =>
    apply settled_of_stores (stores_of_storeDoubleword responded)
    exact fun store member => tidy.apart _ (mem_doublewordStores member)
  | getStatus | setStatus | getCause | setFence | getFence =>
    obtain rfl : t = s := responded
    rfl

/-- The picture that is loaded is the one on the board at rest. -/
theorem picture_of_responds {vaddr : UInt32} {fb : Framebuffer} (tidy : s.Tidy (.loadFrame vaddr))
    (responded : (hardware directPath).responds s (.loadFrame vaddr) fb t) :
    fb = Framebuffer.ofBytes s.settled.memory.rdram (placeOf vaddr) := by
  have seen := (settled_of_loads responded (not_touches_of_mem_loads tidy fb)).2
  have lies : fb.LiesAt s.settled.memory.rdram (placeOf vaddr) := by
    intro k small
    exact seen _ (List.mem_map.2 ⟨k, List.mem_range.2 small, rfl⟩)
  exact lies.ofBytes_eq.symm

end Commands

end Board

end ColdBoot
