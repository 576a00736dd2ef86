import ColdBoot.Interrupt.Jump
import ColdBoot.Proofs.Finishing
import ColdBoot.Proofs.FlagBits
import ColdBoot.Proofs.FrameBytes
import ColdBoot.Proofs.LogWindow
import ColdBoot.Proofs.VideoSession

/-! # The processor's path to instructions

Instructions are fetched through lines of 32 bytes. A line that is held is not looked up again, so a
doubleword that was written past the lines is seen only once the line with the old bytes is gone.
Only the uncached window leads past them: what is stored through another one waits in the data cache,
where no instruction is fetched from. Here lines come in and go at any time and may hold anything at
the start.

* **`InstructionPath.fetch`** – the word that is fetched at an address;
* **`InstructionPath.Patched`** – the doubleword is in RDRAM and no outdated byte of it is held;
* **`InstructionPath.Patched.fetch_eq`** – its words are then fetched, the high half first;
* **`InstructionPath.Patched.enters`** – and the processor goes where the trampoline leads;
* **`Trampoline.effects_of_install`**, **`Trampoline.patched_of_install`** – installing a trampoline
  stores the doubleword at the slot's one address and drops the line of its other one, and a vector
  that these belong to is patched from then on. -/

namespace ColdBoot

open Hardware Viewer

/-! ### Big-endian words -/

theorem bit_doublewordByte (word : UInt64) {k : Nat} (inside : k < 8) {i : Nat} (low : i < 8) :
    (doublewordByte word k).toBitVec.getLsbD i = word.toBitVec.getLsbD (56 - 8 * k + i) := by
  have places : (56 - 8 * k) % 64 = 56 - 8 * k := Nat.mod_eq_of_lt (by omega)
  simp [doublewordByte, low, places]

/-- The bits of a word that is packed from bytes: its first byte has the high ones. -/
theorem bit_packWord (bytes : List UInt8) {i : Nat} (inside : i < 32) :
    Flags.bit (packWord bytes) i = (bytes.getD (3 - i / 8) 0).toBitVec.getLsbD (i % 8) := by
  have four : ∀ k < 4, (24 - 8 * UInt32.ofNat (3 - k)).toNat = 8 * k := by decide
  have place := four (i / 8) (by omega)
  have low : i % 8 < 8 := Nat.mod_lt i (by decide)
  have shifted := Flags.bit_shiftRight (packWord bytes) (i % 8)
    (show (24 - 8 * UInt32.ofNat (3 - i / 8)).toNat < 32 by omega)
  rw [place, Nat.div_add_mod] at shifted
  rw [← shiftRight_packWord bytes (show 3 - i / 8 < 4 by omega), UInt32.toBitVec_toUInt8,
    BitVec.getLsbD_setWidth, decide_eq_true low, Bool.true_and, ← shifted]
  rfl

/-- Four bytes of a doubleword in a row are a word of it. -/
theorem packWord_doublewordByte (word : UInt64) {front : Nat} (fits : front ≤ 4) :
    packWord ((List.range 4).map fun k => doublewordByte word (front + k)) =
      (word >>> UInt64.ofNat (8 * (4 - front))).toUInt32 := by
  apply UInt32.eq_of_toBitVec_eq
  refine BitVec.eq_of_getLsbD_eq fun i lt => ?_
  have byte : ((List.range 4).map fun k => doublewordByte word (front + k)).getD (3 - i / 8) 0 =
      doublewordByte word (front + (3 - i / 8)) := by
    rw [List.getD_eq_getElem?_getD, List.getElem?_map, List.getElem?_range (by omega)]
    rfl
  have packed := bit_packWord ((List.range 4).map fun k => doublewordByte word (front + k)) lt
  rw [byte, bit_doublewordByte word (by omega) (by omega)] at packed
  have places : 8 * (4 - front) % 64 = 8 * (4 - front) := Nat.mod_eq_of_lt (by omega)
  have same : 56 - 8 * (front + (3 - i / 8)) + i % 8 = 8 * (4 - front) + i := by omega
  rw [same] at packed
  refine packed.trans ?_
  simp [lt, places]

/-! ### RDRAM and the lines in front of it -/

/-- RDRAM together with the instruction lines that are held of it. -/
structure InstructionPath where
  rdram : Bytes
  /-- The lines by number, with their bytes by their places in RDRAM. -/
  lines : Nat → Option Bytes

namespace InstructionPath

/-- The line that a byte of RDRAM belongs to. -/
def lineOf (a : Nat) : Nat := a / instructionCacheLine.toNat

variable (path : InstructionPath)

/-- The byte that an instruction fetch finds: the held one, or what RDRAM has. -/
def byte (a : Nat) : UInt8 := (path.lines (lineOf a)).getD path.rdram a

/-- The word that is fetched at a cached address, its first byte on top. -/
def fetch (vaddr : UInt32) : UInt32 :=
  packWord ((List.range 4).map fun k => path.byte (placeOf vaddr + k))

/-- A doubleword is stored, its most significant byte first: through the uncached window it goes to
RDRAM. -/
def stored (vaddr : UInt32) (word : UInt64) : InstructionPath :=
  if inUncachedWindow vaddr then
    { path with rdram := path.rdram.stored (doublewordStores word (placeOf vaddr)) }
  else path

/-- The line that an address belongs to is dropped. -/
def dropped (vaddr : UInt32) : InstructionPath :=
  { path with lines := Function.update path.lines (lineOf (placeOf vaddr)) none }

/-- What may happen at any time: lines come in as RDRAM has them, lines go, and RDRAM changes
anywhere but at the vector's doubleword, at `a`. -/
structure Moves (a : Nat) (s t : InstructionPath) : Prop where
  rdram : ∀ k < 8, t.rdram (a + k) = s.rdram (a + k)
  lines : ∀ n copy, t.lines n = some copy → s.lines n = some copy ∨ copy = s.rdram

/-- The path as part of a machine whose vector is at `a`: it sees doublewords stored and lines
dropped, and any other command is a time at which something may happen. -/
def hardware (a : Nat) : Hardware InstructionPath where
  moves := Moves a
  responds s command _ t :=
    match command with
    | .storeDoubleword vaddr word => t = s.stored vaddr word
    | .cache .invalidateInstruction vaddr => t = s.dropped vaddr
    | _ => Moves a s t

theorem Moves.refl (a : Nat) (s : InstructionPath) : Moves a s s where
  rdram _ _ := rfl
  lines _ _ := .inl

/-- The path is never in the way of a program. -/
theorem live (a : Nat) : (hardware a).Live where
  answers := by
    intro s command
    cases command with
    | storeDoubleword vaddr word => exact ⟨(), _, rfl⟩
    | cache operation vaddr =>
      cases operation with
      | invalidateInstruction => exact ⟨(), _, rfl⟩
      | writeBackData | invalidateData => exact ⟨(), s, .refl a s⟩
    | getStatus | getCause | read => exact ⟨(0 : UInt32), s, .refl a s⟩
    | getFence => exact ⟨true, s, .refl a s⟩
    | loadFrame => exact ⟨.ofBytes s.rdram 0, s, .refl a s⟩
    | setStatus | write | setFence | storePixels | fillStaging => exact ⟨(), s, .refl a s⟩
  waits := by
    intro s command accepted wait
    cases wait with
    | idle => exact ⟨s, (0 : UInt32), s, .refl, .refl a s, by decide⟩
    | slot => exact ⟨s, (0 : UInt32), s, .refl, .refl a s, by decide⟩
    | fence => exact ⟨s, true, s, .refl, .refl a s, rfl⟩

/-! ### A patched vector -/

/-- RDRAM has a doubleword at `a`. -/
def Written (a : Nat) (word : UInt64) : Prop := ∀ k < 8, path.rdram (a + k) = doublewordByte word k

/-- RDRAM has a doubleword at `a`, and no outdated byte of it is held. -/
structure Patched (a : Nat) (word : UInt64) : Prop where
  written : path.Written a word
  fresh : ∀ k < 8, ∀ copy, path.lines (lineOf (a + k)) = some copy →
    copy (a + k) = doublewordByte word k

variable {path} {s t : InstructionPath} {a : Nat} {word : UInt64}

/-- The doubleword is not lost by itself. -/
theorem Written.of_moves (written : s.Written a word) (moved : Moves a s t) : t.Written a word :=
  fun k lt => (moved.rdram k lt).trans (written k lt)

/-- Nor does an outdated byte come in. -/
theorem Patched.of_moves (patched : s.Patched a word) (moved : Moves a s t) : t.Patched a word where
  written := patched.written.of_moves moved
  fresh := by
    intro k lt copy held
    rcases moved.lines _ copy held with held | rfl
    · exact patched.fresh k lt copy held
    · exact patched.written k lt

/-- A doubleword that is stored through the uncached window is in RDRAM. -/
theorem written_stored (s : InstructionPath) {vaddr : UInt32} (past : inUncachedWindow vaddr = true)
    (word : UInt64) : (s.stored vaddr word).Written (placeOf vaddr) word := by
  intro k lt
  have row := s.rdram.stored_row (placeOf vaddr) (doublewordByte word) 8 (placeOf vaddr + k)
  rw [if_pos (by omega), Nat.add_sub_cancel_left] at row
  rw [stored, if_pos past]
  exact row

/-- Once its line is dropped a written doubleword has no outdated byte. -/
theorem Written.patched_dropped {vaddr : UInt32} (written : s.Written a word)
    (line : ∀ k < 8, lineOf (a + k) = lineOf (placeOf vaddr)) :
    (s.dropped vaddr).Patched a word where
  written := written
  fresh := by
    intro k lt copy held
    have gone : (s.dropped vaddr).lines (lineOf (a + k)) = none := by
      rw [line k lt]
      exact Function.update_self ..
    rw [gone] at held
    cases held

theorem Patched.byte_eq (patched : s.Patched a word) {k : Nat} (lt : k < 8) :
    s.byte (a + k) = doublewordByte word k := by
  rw [byte]
  cases held : s.lines (lineOf (a + k)) with
  | none => exact patched.written k lt
  | some copy => exact patched.fresh k lt copy held

/-- The words of the doubleword are fetched, the high half first. -/
theorem Patched.fetch_eq (patched : s.Patched a word) {vaddr : UInt32} (front : Nat)
    (place : placeOf vaddr = a + front) (fits : front ≤ 4) :
    s.fetch vaddr = (word >>> UInt64.ofNat (8 * (4 - front))).toUInt32 := by
  have bytes : (List.range 4).map (fun k => s.byte (placeOf vaddr + k)) =
      (List.range 4).map fun k => doublewordByte word (front + k) := by
    refine List.map_congr_left fun k member => ?_
    rw [place, Nat.add_assoc]
    exact patched.byte_eq (by have lt := List.mem_range.1 member; omega)
  rw [fetch, bytes, packWord_doublewordByte word fits]

theorem Patched.fetch_high (patched : s.Patched a word) {vaddr : UInt32}
    (place : placeOf vaddr = a) : s.fetch vaddr = (word >>> 32).toUInt32 :=
  patched.fetch_eq 0 place (by decide)

theorem Patched.fetch_low (patched : s.Patched a word) {vaddr : UInt32}
    (place : placeOf vaddr = a + 4) : s.fetch vaddr = word.toUInt32 := by
  rw [patched.fetch_eq 4 place (by decide)]
  show (word >>> 0).toUInt32 = _
  rw [UInt64.shiftRight_zero]

/-! ### The processor -/

/-- Where the processor is: the address it fetches next, and the one it fetches after that. -/
structure ProgramCounter where
  here : UInt32
  next : UInt32
  deriving DecidableEq, Repr

/-- One instruction, if it is one of a trampoline's. A jump changes where the processor goes on
behind the instruction that is next, the one in its delay slot. -/
def step? (path : InstructionPath) (pc : ProgramCounter) : Option ProgramCounter :=
  match Instruction.decode? (path.fetch pc.here) with
  | some (.jump field) => some ⟨pc.next, Instruction.destination pc.next field⟩
  | some .nothing => some ⟨pc.next, pc.next + 4⟩
  | none => none

/-- From `vaddr` the processor goes on at `landing`: there is a jump, with nothing in its delay
slot. -/
structure Enters (path : InstructionPath) (vaddr landing : UInt32) : Prop where
  jump : path.step? ⟨vaddr, vaddr + 4⟩ = some ⟨vaddr + 4, landing⟩
  slot : path.step? ⟨vaddr + 4, landing⟩ = some ⟨landing, landing + 4⟩

/-- **A patched vector** is entered as its trampoline says. -/
theorem Patched.enters {trampoline : Trampoline} {vaddr landing : UInt32}
    (patched : s.Patched (placeOf vaddr) trampoline.word)
    (behind : placeOf (vaddr + 4) = placeOf vaddr + 4)
    (leads : trampoline.leadsTo? vaddr = some landing) : s.Enters vaddr landing := by
  have high : s.fetch vaddr = trampoline.fetched 0 := patched.fetch_high rfl
  have low : s.fetch (vaddr + 4) = trampoline.fetched 4 := patched.fetch_low behind
  rw [Trampoline.leadsTo?, ← high, ← low] at leads
  split at leads
  · next field jump nothing =>
    cases leads
    constructor
    · rw [step?, jump]
    · rw [step?, nothing]
  · cases leads

end InstructionPath

/-! ### Installing -/

namespace Trampoline

open InstructionPath Program

variable {config : Config} {trampoline : Trampoline} {slot : VectorSlot} {a : Nat}
  {s t : InstructionPath} {moments : List (Moment InstructionPath)}

/-- **What installing does**: but for what happens anyway, the doubleword is stored at the slot's one
address and then the line of its other one is dropped. -/
theorem effects_of_install (execution : (InstructionPath.hardware a).Execution
    (trampoline.install config slot) s moments (.returned ()) t) :
    ∃ met between, (InstructionPath.hardware a).MovesTo s met ∧
      (InstructionPath.hardware a).MovesTo (met.stored slot.uncached trampoline.word) between ∧
      (InstructionPath.hardware a).MovesTo (between.dropped slot.cached) t := by
  obtain ⟨met, _, _, _, -, moved, rfl, execution⟩ := Execution.of_step execution
  obtain ⟨between, _, _, _, -, moved', rfl, execution⟩ := Execution.of_step execution
  -- what is logged is written to registers that the path does not see
  have keeps : (InstructionPath.hardware a).Keeps .none (Command.WritesTo .viewer)
      ((InstructionPath.hardware a).MovesTo (between.dropped slot.cached)) := by
    refine ⟨⟨fun _ _ move moved => moved.tail move, fun _ _ => trivial⟩, fun _ _ _ _ => trivial, ?_⟩
    intro s command answer t remark moved responded
    cases command with
    | write => exact moved.tail responded
    | _ => cases remark
  have logged := keeps.ensures (LogRecord.writes_emit config.logFilter trampoline.installedRecord)
  exact ⟨met, between, moved, moved', (logged .refl execution).2.2 () rfl⟩

/-- The vector is patched then, if the slot's uncached address leads past the lines to the vector,
and its cached one shares the line with it. -/
theorem patched_of_install (past : inUncachedWindow slot.uncached = true)
    (place : placeOf slot.uncached = a)
    (line : ∀ k < 8, lineOf (a + k) = lineOf (placeOf slot.cached))
    (execution : (InstructionPath.hardware a).Execution (trampoline.install config slot) s moments
      (.returned ()) t) : t.Patched a trampoline.word := by
  have keepsWritten : (InstructionPath.hardware a).Stable (·.Written a trampoline.word) :=
    fun _ _ moved written => written.of_moves moved
  have keepsPatched : (InstructionPath.hardware a).Stable (·.Patched a trampoline.word) :=
    fun _ _ moved patched => patched.of_moves moved
  obtain ⟨met, between, -, moved, moved'⟩ := effects_of_install execution
  have stored := written_stored met past trampoline.word
  rw [place] at stored
  have written := keepsWritten.movesTo moved stored
  exact keepsPatched.movesTo moved' (written.patched_dropped line)

end Trampoline

end ColdBoot
