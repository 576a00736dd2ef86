import ColdBoot.Interrupt.Arming
import Mathlib.Data.Nat.Bitwise

/-! # Flag words, bit by bit

Identities between flag words hold bit by bit, and for one bit they are identities of truth values.
**`Flags.bit`** is one bit of a word, with one lemma for each operation.

* **`Interrupts.armedStatus_of_masked`** – arming undoes that interrupts were masked;
* **`LineMask.apply_setting_clearing`** – the lines that are left when all have been masked and then
  one is let through. -/

namespace ColdBoot

namespace Flags

variable (a b c : Flags) (i : Nat)

/-- One bit of a flag word. -/
def bit (a : Flags) (i : Nat) : Bool := a.toBitVec.getLsbD i

variable {a b} in
theorem eq_of_bit (h : ∀ i, a.bit i = b.bit i) : a = b :=
  UInt32.eq_of_toBitVec_eq (BitVec.eq_of_getLsbD_eq fun i _ => h i)

@[simp] theorem bit_zero : bit 0 i = false := by
  simp [bit]

@[simp] theorem bit_union : (a.union b).bit i = (a.bit i || b.bit i) := by
  simp [bit, union]

@[simp] theorem bit_inter : (a.inter b).bit i = (a.bit i && b.bit i) := by
  simp [bit, inter]

@[simp] theorem bit_without : (a.without b).bit i = (a.bit i && !b.bit i) := by
  by_cases h : i < 32
  · simp [bit, without, h]
  · have beyond : a.toBitVec.getLsbD i = false := BitVec.getLsbD_of_ge _ _ (Nat.le_of_not_lt h)
    simp [bit, without, beyond]

theorem without_without : (a.without b).without c = a.without (b.union c) := by
  refine eq_of_bit fun i => ?_
  simp [Bool.and_assoc]

theorem without_self : (a.without b).without b = a.without b := by
  refine eq_of_bit fun i => ?_
  simp

theorem union_without_self : (a.union b).without b = a.without b := by
  refine eq_of_bit fun i => ?_
  simp [Bool.and_or_distrib_right]

/-- What is taken away and then added is all that is left in its place. -/
theorem union_inter_of_without : ((a.without b).union c).inter b = c.inter b := by
  refine eq_of_bit fun i => ?_
  cases h : b.bit i <;> simp [h]

/-- Where a word agrees with one that lacks a flag, it lacks it too. -/
theorem not_contains_of_without {other : Flags} (h : a.without c = (other.without b).without c)
    (kept : b.without c = b) (nonzero : b ≠ 0) : a.contains b = false := by
  have disjoint : a.inter b = 0 := by
    refine eq_of_bit fun i => ?_
    have same := congrArg (bit · i) h
    have outside := congrArg (bit · i) kept
    simp only [bit_without, bit_inter, bit_zero] at same outside ⊢
    revert same outside
    cases a.bit i <;> cases b.bit i <;> cases c.bit i <;> simp
  refine decide_eq_false fun eq => nonzero ?_
  rw [← eq]
  exact disjoint

/-- What is taken away is not there. -/
theorem without_inter_self : (a.without b).inter b = 0 := by
  refine eq_of_bit fun i => ?_
  simp

variable {b} in
theorem contains_without_self (nonzero : b ≠ 0) : (a.without b).contains b = false := by
  refine decide_eq_false fun eq => nonzero ?_
  rw [← eq]
  exact without_inter_self a b

section Single

variable {a b} {k : Nat} (single : ∀ i, b.bit i = decide (i = k))

include single

/-- A word has a single bit if that bit is set. -/
theorem contains_of_single : a.contains b = a.bit k := by
  cases on : a.bit k with
  | false =>
    refine decide_eq_false fun eq => ?_
    have lost : (a.inter b).bit k = b.bit k := congrArg (bit · k) eq
    simp [single, on] at lost
  | true =>
    refine decide_eq_true (eq_of_bit fun i => ?_)
    show (a.inter b).bit i = b.bit i
    rw [bit_inter, single]
    by_cases h : i = k
    · rw [h, on]
      simp
    · simp [h]

/-- A word has all of a single bit, or nothing of it. -/
theorem inter_of_single : a.inter b = if a.contains b then b else 0 := by
  rw [contains_of_single single]
  refine eq_of_bit fun i => ?_
  rw [bit_inter, single]
  by_cases h : i = k
  · rw [h]
    cases on : a.bit k <;> simp [single]
  · cases a.bit k <;> simp [single, h]

end Single

/-- A power of two is a single bit. -/
theorem bit_two_pow {k : Nat} (lt : k < 32) (i : Nat) :
    bit (UInt32.ofNat (2 ^ k)) i = decide (i = k) := by
  show (BitVec.ofNat 32 (2 ^ k)).getLsbD i = decide (i = k)
  rw [BitVec.getLsbD_ofNat, Nat.testBit_two_pow]
  by_cases h : i = k
  · simp [h, lt]
  · simp [h, Ne.symm h]

/-- A single bit as a number. -/
theorem toNat_one_shiftLeft {place : UInt32} (inside : place.toNat < 32) :
    ((1 : UInt32) <<< place).toNat = 2 ^ place.toNat := by
  rw [UInt32.toNat_shiftLeft, UInt32.toNat_one, Nat.mod_eq_of_lt inside, Nat.one_shiftLeft,
    Nat.mod_eq_of_lt (Nat.pow_lt_pow_right (by decide) inside)]

/-- A single bit, by its place. -/
theorem bit_one_shiftLeft {place : UInt32} (inside : place.toNat < 32) (i : Nat) :
    bit (1 <<< place) i = decide (i = place.toNat) := by
  show ((1 : UInt32) <<< place).toNat.testBit i = _
  rw [toNat_one_shiftLeft inside, Nat.testBit_two_pow]
  exact decide_eq_decide.2 eq_comm

/-- The bits of a shifted word. -/
theorem bit_shiftRight {n : UInt32} (lt : n.toNat < 32) :
    bit (a >>> n) i = a.bit (n.toNat + i) := by
  have places : (n.toBitVec % 32).toNat = n.toNat := Nat.mod_eq_of_lt lt
  rw [bit, UInt32.toBitVec_shiftRight]
  show (a.toBitVec >>> (n.toBitVec % 32).toNat).getLsbD i = _
  rw [places, BitVec.getLsbD_ushiftRight]
  rfl

end Flags

/-- A bit of a word is the bit of the number. -/
theorem testBit_eq (word : UInt32) {index : UInt32} (inside : index.toNat < 32) :
    testBit word index = word.toNat.testBit index.toNat := by
  have bit : (word >>> index) &&& 1 = 1 ↔ word.toNat / 2 ^ index.toNat % 2 = 1 := by
    rw [← UInt32.toNat_inj, UInt32.toNat_and, UInt32.toNat_shiftRight, Nat.mod_eq_of_lt inside,
      UInt32.toNat_one, Nat.and_one_is_mod, Nat.shiftRight_eq_div_pow]
  rw [Nat.testBit_eq_decide_div_mod_eq]
  exact decide_eq_decide.2 bit

open Flags

/-- The line of a source is the bit that its number says. -/
theorem InterruptSource.bit_line (source : InterruptSource) (i : Nat) :
    Flags.bit source.line i = decide (i = source.index.toNat) := by
  cases source with
  | sp => exact bit_two_pow (show 0 < 32 by decide) i
  | si => exact bit_two_pow (show 1 < 32 by decide) i
  | ai => exact bit_two_pow (show 2 < 32 by decide) i
  | vi => exact bit_two_pow (show 3 < 32 by decide) i
  | pi => exact bit_two_pow (show 4 < 32 by decide) i
  | dp => exact bit_two_pow (show 5 < 32 by decide) i

/-- **Arming** undoes that interrupts were masked, whatever they were before. -/
theorem Interrupts.armedStatus_of_masked (status : Flags) :
    armedStatus ((status.without CpuStatus.ie).without CpuStatus.rp) =
      (status.without ((CpuStatus.exl.union CpuStatus.erl).union CpuStatus.rp)).union
        (CpuStatus.im2.union CpuStatus.ie) := by
  refine eq_of_bit fun i => ?_
  simp only [armedStatus, bit_union, bit_without]
  cases CpuStatus.ie.bit i <;> cases CpuStatus.rp.bit i <;> simp

namespace LineMask

/-- The write that masks every line. -/
theorem apply_clearing_all (mask : Flags) :
    apply mask (clearing Lines.all) = mask.without Lines.all := by
  -- the interrupt controller goes through the lines one by one
  have one_by_one : apply mask (clearing Lines.all) =
      InterruptSource.all.foldl (fun mask source => mask.without source.line) mask := rfl
  rw [one_by_one]
  simp only [InterruptSource.all, List.foldl_cons, List.foldl_nil, without_without]
  rfl

/-- When every line has been masked, and then one is let through, that one is left. -/
theorem apply_setting_clearing (mask : Flags) (source : InterruptSource) :
    (apply (apply mask (clearing Lines.all)) (setting source.line)).inter Lines.all =
      source.line := by
  have set : apply (apply mask (clearing Lines.all)) (setting source.line) =
      (apply mask (clearing Lines.all)).union source.line := by
    cases source <;> rfl
  rw [set, apply_clearing_all, union_inter_of_without]
  cases source <;> rfl

end LineMask

end ColdBoot
