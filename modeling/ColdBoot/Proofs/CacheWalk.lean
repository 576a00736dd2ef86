import ColdBoot.Cpu.Control
import ColdBoot.PhysAddr
import Mathlib.Data.Nat.Bitwise

/-! # What a walk over cache lines visits

A walk computes one line's address after another, with checked steps and a bound on the number of
visits. Away from the end of the address space none of that shows: the walk is a plain iteration
over the addresses of the lines that meet the range.

* **`CacheLines.addresses`** – these addresses, in order;
* **`CacheLines.Lasts`** – a walk that ends at a given visit, with what it has seen by then
  (`CacheLines.Lasts.collect_eq`);
* **`Cpu.cacheRange_eq_onLines`** – an operation on a range is that operation on each line of the
  walk, and it ends as the walk ends;
* **`Cpu.cacheRange_eq`** – so it is that operation on each of the addresses;
* **`CacheLines.exists_of_mem_range`** – every byte of the range lies in one of the lines. -/

namespace ColdBoot

namespace CacheLines

/-- Lines that meet `[vaddr, vaddr + len)`. -/
def lineCount (vaddr len line : UInt32) : Nat :=
  if len = 0 then 0 else (vaddr.toNat % line.toNat + len.toNat + line.toNat - 1) / line.toNat

/-- Their addresses, in order and modulo 2³². -/
def addresses (vaddr len line : UInt32) : List UInt32 :=
  (List.range (lineCount vaddr len line)).map fun n =>
    UInt32.ofNat (vaddr.toNat - vaddr.toNat % line.toNat + n * line.toNat)

/-! ### One visit -/

section Visit

variable (walk : CacheLines) (n : Nat)

/-- The line `n` steps after the first one, modulo 2³². -/
def lineAt : UInt32 := UInt32.ofNat (walk.first.toNat + n * walk.line.toNat)

/-- The first `n` of its lines. -/
def firstLines : List UInt32 := (List.range n).map walk.lineAt

/-- Visit `n` would start at or behind the end of the range. -/
def IsOver : Prop := walk.isEmpty ∨ walk.span.toNat ≤ n * walk.line.toNat

instance : Decidable (walk.IsOver n) := inferInstanceAs (Decidable (_ ∨ _))

variable {walk n}

/-- The count of visits goes on. -/
theorem succ_ofNat (few : n + 1 < 2 ^ 32) :
    Checked.succ (UInt32.ofNat n) = .ok (UInt32.ofNat n + 1) := by
  have small : n + 1 ≤ Checked.greatest := by unfold Checked.greatest; omega
  rw [Checked.succ, UInt32.toNat_ofNat_of_lt' (show n < 2 ^ 32 by omega), if_pos small]

/-- A visit whose checks pass. -/
theorem visit_eq (few : n + 1 < 2 ^ 32) (near : n * walk.line.toNat < 2 ^ 32) :
    walk.visit (UInt32.ofNat n) =
      .ok (if walk.IsOver n then none else some (walk.lineAt n)) := by
  have count : (UInt32.ofNat n).toNat = n := UInt32.toNat_ofNat_of_lt' (show n < 2 ^ 32 by omega)
  have distance : (UInt32.ofNat n * walk.line).toNat = n * walk.line.toNat := by
    rw [UInt32.toNat_mul, count, Nat.mod_eq_of_lt near]
  have address : walk.first + UInt32.ofNat n * walk.line = walk.lineAt n := by
    rw [lineAt, ← UInt32.toNat_inj, UInt32.toNat_add, distance, UInt32.toNat_ofNat']
  have mul : Checked.mul (UInt32.ofNat n) walk.line = .ok (UInt32.ofNat n * walk.line) := by
    have small : n * walk.line.toNat ≤ Checked.greatest := by unfold Checked.greatest; omega
    rw [Checked.mul, count, if_pos small]
  rw [visit, succ_ofNat few]
  show (Checked.mul _ _ >>= _) = _
  rw [mul]
  show Except.ok (if walk.isEmpty || walk.span ≤ UInt32.ofNat n * walk.line then _ else _) = _
  rw [address]
  refine congrArg Except.ok (if_congr ?_ rfl rfl)
  rw [Bool.or_eq_true, decide_eq_true_eq, UInt32.le_iff_toNat_le, distance]
  exact Iff.rfl

/-- A visit too far away for a word. -/
theorem visit_eq_error (few : n + 1 < 2 ^ 32) (far : 2 ^ 32 ≤ n * walk.line.toNat) :
    walk.visit (UInt32.ofNat n) = .error .multiplyOverflow := by
  have count : (UInt32.ofNat n).toNat = n := UInt32.toNat_ofNat_of_lt' (show n < 2 ^ 32 by omega)
  have large : ¬ n * walk.line.toNat ≤ Checked.greatest := by unfold Checked.greatest; omega
  rw [visit, succ_ofNat few]
  show (Checked.mul _ _ >>= _) = _
  rw [Checked.mul, count, if_neg large]
  rfl

end Visit

/-! ### From visit to visit -/

/-- How a walk ends at a visit, if it does. -/
def endingAt (walk : CacheLines) (n : UInt32) : Option Ending :=
  match walk.visit n with
  | .error fault => some (.faulted fault)
  | .ok none => some .finished
  | .ok (some _) => none

/-- A walk that ends at visit `count`. -/
structure Lasts (walk : CacheLines) (count : Nat) (ending : Ending) : Prop where
  /-- The visits before find a line each. -/
  going : ∀ n < count, walk.visit (UInt32.ofNat n) = .ok (some (walk.lineAt n))
  /-- The visit itself ends the walk. -/
  ends : walk.endingAt (UInt32.ofNat count) = some ending

section Lasts

variable {walk : CacheLines} {count : Nat}

/-- A walk comes to the end of its range at the first visit that is over. -/
theorem lasts_finished (few : count + 1 < 2 ^ 32) (near : count * walk.line.toNat < 2 ^ 32)
    (going : ∀ n < count, ¬ walk.IsOver n) (past : walk.IsOver count) :
    walk.Lasts count .finished where
  going n lt := by
    have near' : n * walk.line.toNat < 2 ^ 32 :=
      Nat.lt_of_le_of_lt (Nat.mul_le_mul_right _ (Nat.le_of_lt lt)) near
    rw [visit_eq (by omega) near', if_neg (going n lt)]
  ends := by
    rw [endingAt, visit_eq few near, if_pos past]

/-- A walk with every line of the address space in front of it breaks off behind the last one. -/
theorem lasts_faulted (few : count + 1 < 2 ^ 32) (far : count * walk.line.toNat = 2 ^ 32)
    (going : ∀ n < count, ¬ walk.IsOver n) : walk.Lasts count (.faulted .multiplyOverflow) where
  going n lt := by
    have near : n * walk.line.toNat < 2 ^ 32 := by
      rw [← far]
      refine Nat.mul_lt_mul_of_pos_right lt (Nat.pos_of_ne_zero fun zero => ?_)
      rw [zero] at far
      omega
    rw [visit_eq (by omega) near, if_neg (going n lt)]
  ends := by
    rw [endingAt, visit_eq_error few (Nat.le_of_eq far.symm)]

/-- What a walk has seen when it ends. -/
theorem Lasts.collect_eq {ending : Ending} (lasts : walk.Lasts count ending) {steps n left : Nat}
    (sum : n + steps = count) (enough : steps < left) (seen : Array UInt32) :
    walk.collect left (UInt32.ofNat n) seen =
      (seen ++ ((List.range' n steps).map walk.lineAt).toArray, ending) := by
  -- over the lines still to come; the visits that are left are always more than these
  induction steps generalizing n left seen with
  | zero =>
    obtain ⟨left, rfl⟩ := Nat.exists_eq_succ_of_ne_zero (Nat.ne_of_gt enough)
    obtain rfl : n = count := sum
    have ends := lasts.ends
    unfold endingAt at ends
    rw [collect]
    split at ends <;> simp_all
  | succ steps ih =>
    obtain ⟨left, rfl⟩ := Nat.exists_eq_succ_of_ne_zero (Nat.ne_of_gt (Nat.zero_lt_of_lt enough))
    have next : UInt32.ofNat n + 1 = UInt32.ofNat (n + 1) := by
      rw [UInt32.ofNat_add]
      rfl
    rw [collect, lasts.going n (by omega)]
    show walk.collect left (UInt32.ofNat n + 1) (seen.push (walk.lineAt n)) = _
    rw [next, ih (by omega) (by omega), List.range'_succ, List.map_cons]
    rw [List.push_append_toArray]

/-- Every walk that ends is short enough for the bound on the number of visits. -/
theorem Lasts.take_eq {ending : Ending} (lasts : walk.Lasts count ending) (few : count < 2 ^ 32) :
    walk.take maxVisits = ((walk.firstLines count).toArray, ending) := by
  have collect := lasts.collect_eq (Nat.zero_add count) (show count < maxVisits from few) #[]
  rw [Array.empty_append, ← List.range_eq_range'] at collect
  exact collect

end Lasts

/-- The lines of a walk come behind those seen before. -/
theorem collect_eq_append (walk : CacheLines) (left : Nat) (n : UInt32) (seen : Array UInt32) :
    walk.collect left n seen =
      (seen ++ (walk.collect left n #[]).1, (walk.collect left n #[]).2) := by
  induction left generalizing n seen with
  | zero => simp [collect]
  | succ left ih =>
    cases visit : walk.visit n with
    | error fault => simp [collect, visit]
    | ok found =>
      cases found with
      | none => simp [collect, visit]
      | some address =>
        simp only [collect, visit]
        rw [ih (n + 1) (seen.push address), ih (n + 1) (#[].push address)]
        simp

/-! ### The start of a walk -/

/-- A word is the sum of its bits outside a mask and of its bits inside it. -/
theorem and_not_add_and (word mask : UInt32) : (word &&& ~~~mask) + (word &&& mask) = word := by
  -- no bit is on both sides, so nothing is carried and the sum is a union
  have disjoint : (word &&& ~~~mask) + (word &&& mask) =
      (word &&& ~~~mask) ||| (word &&& mask) := by
    rw [← UInt32.toBitVec_inj]
    refine BitVec.add_eq_or_of_and_eq_zero _ _ ?_
    refine BitVec.eq_of_getLsbD_eq fun i _ => ?_
    simp only [UInt32.toBitVec_and, UInt32.toBitVec_not, BitVec.getLsbD_and,
      BitVec.getLsbD_not, BitVec.getLsbD_zero]
    cases word.toBitVec.getLsbD i <;> cases mask.toBitVec.getLsbD i <;> simp
  rw [disjoint, ← UInt32.toBitVec_inj]
  refine BitVec.eq_of_getLsbD_eq fun i hi => ?_
  simp only [UInt32.toBitVec_or, UInt32.toBitVec_and, UInt32.toBitVec_not, BitVec.getLsbD_or,
    BitVec.getLsbD_and, BitVec.getLsbD_not, hi]
  cases word.toBitVec.getLsbD i <;> cases mask.toBitVec.getLsbD i <;> rfl

/-- Dropping the bits below a power of two. -/
theorem toNat_and_not {line : UInt32} {k : Nat} (h : line.toNat = 2 ^ k) (vaddr : UInt32) :
    (vaddr &&& ~~~(line - 1)).toNat = vaddr.toNat - vaddr.toNat % line.toNat := by
  have le : (1 : UInt32) ≤ line := by
    rw [UInt32.le_iff_toNat_le, h]
    exact Nat.one_le_two_pow
  have low : (line - 1).toNat = 2 ^ k - 1 := by
    rw [UInt32.toNat_sub_of_le _ _ le, h, UInt32.toNat_one]
  have parts : (vaddr &&& (line - 1)).toNat = vaddr.toNat % line.toNat := by
    rw [UInt32.toNat_and, low, Nat.and_two_pow_sub_one_eq_mod, h]
  have le' : (vaddr &&& ~~~(line - 1)).toNat ≤ vaddr.toNat := by
    rw [UInt32.toNat_and]
    exact Nat.and_le_left
  have add := congrArg UInt32.toNat (and_not_add_and vaddr (line - 1))
  rw [UInt32.toNat_add, parts] at add
  -- the sum cannot go round, since its first part is at most the whole
  have := vaddr.toNat_lt
  have := (vaddr &&& ~~~(line - 1)).toNat_lt
  have := Nat.mod_le vaddr.toNat line.toNat
  omega

/-- A walk over a range, counted from its first line. -/
structure Covers (walk : CacheLines) (vaddr len line : UInt32) : Prop where
  /-- It is the one that the range starts. -/
  eq : ofRange vaddr len line = .ok walk
  line_eq : walk.line = line
  isEmpty_eq : walk.isEmpty = decide (len = 0)
  /-- The first line holds the range's first byte. -/
  first_eq : walk.first.toNat = vaddr.toNat - vaddr.toNat % line.toNat
  /-- The end of the range is found modulo 2³². -/
  span_eq : walk.span.toNat = (vaddr.toNat % line.toNat + len.toNat) % 2 ^ 32

/-- Every range has its walk. -/
theorem exists_covers {line : UInt32} {k : Nat} (h : line.toNat = 2 ^ k) (vaddr len : UInt32) :
    ∃ walk : CacheLines, walk.Covers vaddr len line := by
  have le : (1 : UInt32) ≤ line := by
    rw [UInt32.le_iff_toNat_le, h]
    exact Nat.one_le_two_pow
  have first := toNat_and_not h vaddr
  have eq : ofRange vaddr len line = .ok ⟨vaddr &&& ~~~(line - 1),
      vaddr + len - (vaddr &&& ~~~(line - 1)), decide (len = 0), line⟩ := by
    rw [ofRange, Checked.sub, if_pos le]
    rfl
  refine ⟨_, eq, rfl, rfl, first, ?_⟩
  have := vaddr.toNat_lt
  have := Nat.mod_le vaddr.toNat line.toNat
  show (vaddr + len - (vaddr &&& ~~~(line - 1))).toNat = _
  rw [UInt32.toNat_sub, UInt32.toNat_add, first]
  omega

/-! ### Which visit is the last one -/

/-- The lines that meet a range are no more than it needs. -/
theorem lineCount_mul_le (vaddr len line : UInt32) :
    lineCount vaddr len line * line.toNat ≤
      vaddr.toNat % line.toNat + len.toNat + line.toNat - 1 := by
  unfold lineCount
  split
  · omega
  · exact Nat.div_mul_le_self _ _

/-- The lines that meet a range are those that start in front of its end. -/
theorem lt_lineCount_iff {vaddr len line : UInt32} (positive : 0 < line.toNat) {n : Nat} :
    n < lineCount vaddr len line ↔
      len ≠ 0 ∧ n * line.toNat < vaddr.toNat % line.toNat + len.toNat := by
  by_cases empty : len = 0
  · rw [lineCount, if_pos empty]
    exact ⟨fun lt => absurd lt (Nat.not_lt_zero n), fun both => absurd empty both.1⟩
  · rw [lineCount, if_neg empty, Nat.lt_iff_add_one_le, Nat.le_div_iff_mul_le positive,
      Nat.succ_mul]
    constructor
    · intro le
      exact ⟨empty, by omega⟩
    · rintro ⟨-, lt⟩
      omega

namespace Covers

variable {walk : CacheLines} {vaddr len line : UInt32} (covers : walk.Covers vaddr len line)

include covers

/-- The lines of the walk are those that meet the range. -/
theorem firstLines_eq :
    walk.firstLines (lineCount vaddr len line) = addresses vaddr len line := by
  unfold firstLines addresses
  refine List.map_congr_left fun n _ => ?_
  rw [lineAt, covers.first_eq, covers.line_eq]

/-- If the end of the range is found where it is, the walk is over behind the last line. -/
theorem isOver_iff (positive : 0 < line.toNat)
    (near : vaddr.toNat % line.toNat + len.toNat < 2 ^ 32) (n : Nat) :
    walk.IsOver n ↔ lineCount vaddr len line ≤ n := by
  have span := covers.span_eq
  rw [Nat.mod_eq_of_lt near] at span
  rw [← not_iff_not, Nat.not_le, lt_lineCount_iff positive, IsOver, not_or, covers.isEmpty_eq,
    covers.line_eq, span, decide_eq_true_eq, Nat.not_le]

/-- A walk over a range that stays away from the end of the address space, counted from its first
line, finishes. -/
theorem lasts (two : 2 ≤ line.toNat)
    (fits : vaddr.toNat % line.toNat + len.toNat + line.toNat ≤ 2 ^ 32) :
    walk.Lasts (lineCount vaddr len line) .finished := by
  have positive : 0 < line.toNat := by omega
  have ends := covers.isOver_iff positive (by omega)
  have bound := lineCount_mul_le vaddr len line
  have few : lineCount vaddr len line * 2 ≤ lineCount vaddr len line * line.toNat :=
    Nat.mul_le_mul_left _ two
  refine lasts_finished (by omega) ?_ (fun n lt => ?_) ((ends _).2 (Nat.le_refl _))
  · rw [covers.line_eq]
    omega
  · rw [ends]
    exact Nat.not_le.2 lt

end Covers

end CacheLines

/-! ### Whole walks -/

open CacheLines

/-- The operation on one line. -/
def Cpu.cacheLine (operation : CacheOperation) (address : UInt32) : Program Unit :=
  Program.perform (.cache operation address)

/-- The operation on each line that a walk has seen, and then the walk's own ending. -/
def Cpu.onLines (operation : CacheOperation) (seen : List UInt32) (ending : CacheLines.Ending) :
    Program Unit := do
  seen.forM (Cpu.cacheLine operation)
  match ending with
  | .finished | .limited => .done ()
  | .faulted fault => .stop (.fault fault)

/-- An operation visits the lines that the walk sees. -/
theorem Cpu.visitLines_eq (operation : CacheOperation) (walk : CacheLines) (left : Nat)
    (n : UInt32) :
    Cpu.visitLines operation walk left n =
      Cpu.onLines operation (walk.collect left n #[]).1.toList (walk.collect left n #[]).2 := by
  induction left generalizing n with
  | zero => rfl
  | succ left ih =>
    cases visit : walk.visit n with
    | error fault =>
      simp only [Cpu.visitLines, collect, visit]
      rfl
    | ok found =>
      cases found with
      | none =>
        simp only [Cpu.visitLines, collect, visit]
        rfl
      | some address =>
        simp only [Cpu.visitLines, collect, visit]
        have behind (rest : Array UInt32) :
            (#[].push address ++ rest).toList = address :: rest.toList := by simp
        rw [collect_eq_append, ih, behind]
        rfl

/-- **An operation on a range**, by the walk: it acts on the lines that the walk sees before it
ends, and it ends in the same way. -/
theorem Cpu.cacheRange_eq_onLines (operation : CacheOperation) {walk : CacheLines}
    {vaddr len line : UInt32} (covers : walk.Covers vaddr len line) {count : Nat}
    {ending : CacheLines.Ending} (lasts : walk.Lasts count ending) (few : count < 2 ^ 32) :
    Cpu.cacheRange operation vaddr len line =
      Cpu.onLines operation (walk.firstLines count) ending := by
  rw [Cpu.cacheRange, covers.eq, Program.ofExcept_ok, Program.done_bind, Cpu.visitLines_eq]
  show Cpu.onLines operation (walk.take maxVisits).1.toList (walk.take maxVisits).2 = _
  rw [lasts.take_eq few]

/-- **An operation on a range** is the operation on each line that meets it, in order, if the range
stays away from the end of the address space, counted from its first line. -/
theorem Cpu.cacheRange_eq (operation : CacheOperation) {line : UInt32} {k : Nat}
    (h : line.toNat = 2 ^ k) (two : 2 ≤ line.toNat) (vaddr len : UInt32)
    (fits : vaddr.toNat % line.toNat + len.toNat + line.toNat ≤ 2 ^ 32) :
    Cpu.cacheRange operation vaddr len line =
      (addresses vaddr len line).forM (Cpu.cacheLine operation) := by
  obtain ⟨walk, covers⟩ := exists_covers h vaddr len
  have bound := lineCount_mul_le vaddr len line
  have few : lineCount vaddr len line * 2 ≤ lineCount vaddr len line * line.toNat :=
    Nat.mul_le_mul_left _ two
  rw [Cpu.cacheRange_eq_onLines operation covers (covers.lasts two fits) (by omega),
    covers.firstLines_eq]
  exact Program.bind_pure _

/-! ### Ranges of the data cache -/

namespace CacheLines

/-- Every byte of a range of physical memory lies in one of the lines that are visited, if the range
does not go round at the end of physical space. -/
theorem exists_of_mem_range {vaddr len : UInt32} {a : Nat}
    (fits : (PhysAddr.ofAddress vaddr).word.toNat + len.toNat ≤ 2 ^ 29)
    (le : (PhysAddr.ofAddress vaddr).word.toNat ≤ a)
    (lt : a < (PhysAddr.ofAddress vaddr).word.toNat + len.toNat) :
    ∃ address ∈ addresses vaddr len dataCacheLine,
      (PhysAddr.ofAddress address).word.toNat / 16 = a / 16 := by
  rw [PhysAddr.toNat_ofAddress] at fits le lt
  have := vaddr.toNat_lt
  have nonzero : len ≠ 0 := by
    rintro rfl
    rw [UInt32.toNat_zero] at lt
    omega
  -- the line of `a`, counted from the first one
  let n := (vaddr.toNat % 16 + (a - vaddr.toNat % 2 ^ 29)) / 16
  have few : n < lineCount vaddr len dataCacheLine := by
    rw [lineCount, if_neg nonzero]
    show n < (vaddr.toNat % 16 + len.toNat + 16 - 1) / 16
    omega
  refine ⟨UInt32.ofNat (vaddr.toNat - vaddr.toNat % 16 + n * 16),
    List.mem_map.2 ⟨n, List.mem_range.2 few, rfl⟩, ?_⟩
  rw [PhysAddr.toNat_ofAddress, UInt32.toNat_ofNat']
  omega

/-- And every line that is visited holds a byte of the range. -/
theorem exists_mem_range_of_mem {vaddr len address : UInt32}
    (fits : (PhysAddr.ofAddress vaddr).word.toNat + len.toNat ≤ 2 ^ 29)
    (member : address ∈ addresses vaddr len dataCacheLine) :
    ∃ a, (PhysAddr.ofAddress vaddr).word.toNat ≤ a ∧
      a < (PhysAddr.ofAddress vaddr).word.toNat + len.toNat ∧
      (PhysAddr.ofAddress address).word.toNat / 16 = a / 16 := by
  rw [PhysAddr.toNat_ofAddress] at fits ⊢
  have := vaddr.toNat_lt
  obtain ⟨n, few, rfl⟩ := List.mem_map.1 member
  rw [List.mem_range] at few
  unfold lineCount at few
  split at few
  · exact absurd few (Nat.not_lt_zero n)
  · next nonzero =>
    have few : n < (vaddr.toNat % 16 + len.toNat + 16 - 1) / 16 := few
    have positive : len.toNat ≠ 0 := fun zero => nonzero (UInt32.toNat_inj.1 zero)
    rw [PhysAddr.toNat_ofAddress, UInt32.toNat_ofNat']
    show ∃ a, _ ∧ _ ∧ (vaddr.toNat - vaddr.toNat % 16 + n * 16) % 2 ^ 32 % 2 ^ 29 / 16 = a / 16
    -- the first line may begin in front of the range, the others begin in it
    by_cases first : n = 0
    · exact ⟨vaddr.toNat % 2 ^ 29, by omega, by omega, by omega⟩
    · exact ⟨vaddr.toNat % 2 ^ 29 - vaddr.toNat % 16 + n * 16, by omega, by omega, by omega⟩

end CacheLines

end ColdBoot
