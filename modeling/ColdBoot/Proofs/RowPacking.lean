import ColdBoot.Dma.RowLength
import ColdBoot.Proofs.FlagBits

/-! # Packing row lengths

A transfer's shape reaches the engine as one word. The fields are put into a word from the lowest
one up, so each of them meets a word with nothing in its place or above, and putting a value there
is adding it at its place.

* **`BitField.put_of_lt`** – putting a value above everything that is in the word;
* **`RowLength.bits_of_lt`** – the packed word as a sum;
* **`RowLength.ofBits_of_bits`** – a shape that packs is what its packed word stands for. -/

namespace ColdBoot

namespace BitField

/-! ### Fields as numbers -/

theorem toNat_mask (field : BitField) (h : field.width.toNat < 32) :
    field.mask.toNat = 2 ^ field.width.toNat - 1 := by
  have one := Flags.toNat_one_shiftLeft h
  have le : (1 : UInt32) ≤ (1 : UInt32) <<< field.width := by
    rw [UInt32.le_iff_toNat_le, one]
    exact Nat.one_le_two_pow
  rw [mask, UInt32.toNat_sub_of_le _ _ le, one, UInt32.toNat_one]

/-- What a field carries is a digit of the word. -/
theorem toNat_get (field : BitField) (word : UInt32) (low : field.low.toNat < 32)
    (width : field.width.toNat < 32) :
    (field.get word).toNat = word.toNat / 2 ^ field.low.toNat % 2 ^ field.width.toNat := by
  rw [get, UInt32.toNat_and, UInt32.toNat_shiftRight, field.toNat_mask width,
    Nat.and_two_pow_sub_one_eq_mod, Nat.mod_eq_of_lt low, Nat.shiftRight_eq_div_pow]

/-- Clearing bits from a place on keeps a word that has none there. -/
theorem and_not_shiftLeft (word mask low : UInt32) (above : word.toNat < 2 ^ low.toNat)
    (lt : low.toNat < 32) : word &&& ~~~(mask <<< low) = word := by
  rw [← UInt32.toBitVec_inj]
  refine BitVec.eq_of_getLsbD_eq fun i hi => ?_
  -- below the place the mask is clear, from there on the word is
  by_cases below : i < low.toNat
  · simp [hi, below, Nat.mod_eq_of_lt lt]
  · have le : 2 ^ low.toNat ≤ 2 ^ i := Nat.pow_le_pow_right (by decide) (Nat.le_of_not_lt below)
    have clear : word.toBitVec.getLsbD i = false :=
      Nat.testBit_lt_two_pow (Nat.lt_of_lt_of_le above le)
    simp [clear]

/-- A field that takes a value is wide enough for it. -/
theorem le_mask_of_put (field : BitField) {word value packed : UInt32}
    (h : field.put word value = .ok packed) : value ≤ field.mask := by
  by_contra wide
  rw [put, if_neg wide] at h
  cases h

/-- Putting a value above everything that is in the word adds it there. -/
theorem put_of_lt (field : BitField) (word value : UInt32)
    (fits : field.low.toNat + field.width.toNat ≤ 32) (width : field.width.toNat < 32)
    (low : field.low.toNat < 32) (above : word.toNat < 2 ^ field.low.toNat)
    (small : value.toNat < 2 ^ field.width.toNat) :
    ∃ packed, field.put word value = .ok packed ∧
      packed.toNat = value.toNat * 2 ^ field.low.toNat + word.toNat := by
  have le : value ≤ field.mask := by
    rw [UInt32.le_iff_toNat_le, field.toNat_mask width]
    omega
  have shifted : (value <<< field.low).toNat = value.toNat * 2 ^ field.low.toNat := by
    rw [UInt32.toNat_shiftLeft, Nat.mod_eq_of_lt low, Nat.shiftLeft_eq]
    refine Nat.mod_eq_of_lt ?_
    calc value.toNat * 2 ^ field.low.toNat < 2 ^ field.width.toNat * 2 ^ field.low.toNat :=
          Nat.mul_lt_mul_of_pos_right small (Nat.two_pow_pos _)
      _ = 2 ^ (field.low.toNat + field.width.toNat) := by rw [← Nat.pow_add, Nat.add_comm]
      _ ≤ 2 ^ 32 := Nat.pow_le_pow_right (by decide) fits
  refine ⟨_, if_pos le, ?_⟩
  -- the word ends below the field, so the union of the two is their sum
  rw [and_not_shiftLeft word _ _ above low, UInt32.toNat_or, shifted, Nat.or_comm, Nat.mul_comm,
    Nat.two_pow_add_eq_or_of_lt above]

end BitField

namespace RowLength

/-! ### Shapes -/

/-- A shape whose parts fit packs into the number with the three of them side by side. -/
theorem bits_of_lt (row : RowLength) (copy : row.copy.toNat < 2 ^ 12)
    (skip : row.skip.toNat < 2 ^ 12) :
    ∃ word, row.bits = .ok word ∧
      word.toNat = row.skip.toNat * 2 ^ 20 + (row.count.toNat * 2 ^ 12 + row.copy.toNat) := by
  have count := row.count.toNat_lt
  -- each field meets a word that ends right below it
  obtain ⟨first, eq₁, value₁⟩ := copyField.put_of_lt 0 row.copy.toUInt32
    (by decide) (by decide) (by decide) (by decide) copy
  have value₁ : first.toNat = row.copy.toNat := by simpa [copyField] using value₁
  obtain ⟨second, eq₂, value₂⟩ := countField.put_of_lt first row.count.toUInt32
    (by decide) (by decide) (by decide)
    (by rw [value₁]; exact copy) count
  have value₂ : second.toNat = row.count.toNat * 2 ^ 12 + row.copy.toNat := by
    simpa [countField, value₁] using value₂
  obtain ⟨third, eq₃, value₃⟩ := skipField.put_of_lt second row.skip.toUInt32
    (by decide) (by decide) (by decide)
    (by rw [value₂]; show _ < 2 ^ 20; omega) skip
  refine ⟨third, ?_, ?_⟩
  · rw [bits, eq₁]
    show (countField.put first _ >>= fun word => skipField.put word _) = _
    rw [eq₂]
    exact eq₃
  · simpa [skipField, value₂] using value₃

/-- A shape that packs has parts that fit. -/
theorem lt_of_bits (row : RowLength) {word : UInt32} (h : row.bits = .ok word) :
    row.copy.toNat < 2 ^ 12 ∧ row.skip.toNat < 2 ^ 12 := by
  cases eq₁ : copyField.put 0 row.copy.toUInt32 with
  | error fault => rw [bits, eq₁] at h; cases h
  | ok first =>
    cases eq₂ : countField.put first row.count.toUInt32 with
    | error fault =>
      rw [bits, eq₁] at h
      change (countField.put first _ >>= fun word => skipField.put word _) = _ at h
      rw [eq₂] at h
      cases h
    | ok second =>
      rw [bits, eq₁] at h
      change (countField.put first _ >>= fun word => skipField.put word _) = _ at h
      rw [eq₂] at h
      have copy := UInt32.le_iff_toNat_le.1 (copyField.le_mask_of_put eq₁)
      have skip := UInt32.le_iff_toNat_le.1 (skipField.le_mask_of_put h)
      rw [BitField.toNat_mask _ (by decide)] at copy skip
      exact ⟨Nat.lt_of_le_pred (by decide) copy, Nat.lt_of_le_pred (by decide) skip⟩

/-- A shape that packs is what its packed word stands for. -/
theorem ofBits_of_bits (row : RowLength) {word : UInt32} (h : row.bits = .ok word) :
    ofBits word = row := by
  obtain ⟨copy, skip⟩ := row.lt_of_bits h
  obtain ⟨packed, eq, value⟩ := row.bits_of_lt copy skip
  obtain rfl : packed = word := by rw [eq] at h; cases h; rfl
  have count := row.count.toNat_lt
  -- the three parts are digits of the packed number
  have copy' : (copyField.get packed).toNat = row.copy.toNat := by
    rw [BitField.toNat_get _ _ (by decide) (by decide), value]
    show _ / 2 ^ 0 % 2 ^ 12 = _
    omega
  have count' : (countField.get packed).toNat = row.count.toNat := by
    rw [BitField.toNat_get _ _ (by decide) (by decide), value]
    show _ / 2 ^ 12 % 2 ^ 8 = _
    omega
  have skip' : (skipField.get packed).toNat = row.skip.toNat := by
    rw [BitField.toNat_get _ _ (by decide) (by decide), value]
    show _ / 2 ^ 20 % 2 ^ 12 = _
    omega
  have eqCopy : (copyField.get packed).toUInt16 = row.copy := by
    rw [← UInt16.toNat_inj, UInt32.toNat_toUInt16, copy']
    exact Nat.mod_eq_of_lt row.copy.toNat_lt
  have eqCount : (countField.get packed).toUInt8 = row.count := by
    rw [← UInt8.toNat_inj, UInt32.toNat_toUInt8, count']
    exact Nat.mod_eq_of_lt count
  have eqSkip : (skipField.get packed).toUInt16 = row.skip := by
    rw [← UInt16.toNat_inj, UInt32.toNat_toUInt16, skip']
    exact Nat.mod_eq_of_lt row.skip.toNat_lt
  rw [ofBits, eqCopy, eqCount, eqSkip]

end RowLength

end ColdBoot
