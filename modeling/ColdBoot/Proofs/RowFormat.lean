import ColdBoot.Proofs.StartCommand

/-! # The format of row lengths

Three fields side by side make up the whole word, so every word is a shape, and a shape is a word
exactly if its two wide parts fit their fields.

* **`RowLength.bits_eq`** – the packed word, or the refusal;
* **`RowLength.bits_ofBits`** – every word is packed from the shape that it stands for;
* **`RowLength.totalBytes_eq`** – the number of bytes of a shape is far from overflowing;
* **`RowLength.packing_exact`** – packing and unpacking undo each other. -/

namespace ColdBoot

namespace Checked

variable (a b : UInt64)

/-- A sum that is a size. -/
theorem exists_addSize (fits : a.toNat + b.toNat < UInt64.size) :
    ∃ sum, addSize a b = .ok sum ∧ sum.toNat = a.toNat + b.toNat :=
  ⟨a + b, if_pos fits, (UInt64.toNat_add a b).trans (Nat.mod_eq_of_lt fits)⟩

/-- A product that is a size. -/
theorem exists_mulSize (fits : a.toNat * b.toNat < UInt64.size) :
    ∃ product, mulSize a b = .ok product ∧ product.toNat = a.toNat * b.toNat :=
  ⟨a * b, if_pos fits, (UInt64.toNat_mul a b).trans (Nat.mod_eq_of_lt fits)⟩

end Checked

namespace RowLength

/-! ### The parts of a word -/

section

variable (word : UInt32)

theorem toNat_copy_ofBits : (ofBits word).copy.toNat = word.toNat % 2 ^ 12 := by
  have digit := copyField.toNat_get word (by decide) (by decide)
  have part : (copyField.get word).toNat = word.toNat % 2 ^ 12 := by
    simpa [copyField] using digit
  rw [ofBits, UInt32.toNat_toUInt16, part]
  omega

theorem toNat_count_ofBits : (ofBits word).count.toNat = word.toNat / 2 ^ 12 % 2 ^ 8 := by
  have digit := countField.toNat_get word (by decide) (by decide)
  have part : (countField.get word).toNat = word.toNat / 2 ^ 12 % 2 ^ 8 := by
    simpa [countField] using digit
  rw [ofBits, UInt32.toNat_toUInt8, part]
  omega

theorem toNat_skip_ofBits : (ofBits word).skip.toNat = word.toNat / 2 ^ 20 := by
  have digit := skipField.toNat_get word (by decide) (by decide)
  have part : (skipField.get word).toNat = word.toNat / 2 ^ 20 % 2 ^ 12 := by
    simpa [skipField] using digit
  have lt := word.toNat_lt
  rw [ofBits, UInt32.toNat_toUInt16, part]
  omega

/-- The parts of a word are not too wide. -/
theorem fits_ofBits : (ofBits word).Fits where
  copy := by
    rw [toNat_copy_ofBits]
    omega
  skip := by
    have lt := word.toNat_lt
    rw [toNat_skip_ofBits]
    omega

/-- **Every word** is packed from the shape that it stands for. -/
theorem bits_ofBits : (ofBits word).bits = .ok word := by
  have fits := fits_ofBits word
  obtain ⟨packed, eq, value⟩ := (ofBits word).bits_of_lt (Nat.lt_succ_of_le fits.copy)
    (Nat.lt_succ_of_le fits.skip)
  -- the three digits of the number make it up again
  have same : packed.toNat = word.toNat := by
    rw [value, toNat_copy_ofBits, toNat_count_ofBits, toNat_skip_ofBits]
    omega
  rw [eq, UInt32.toNat_inj.1 same]

end

/-! ### The word of a shape -/

section

variable (row : RowLength)

/-- The parts of a shape side by side, as far as the word goes. -/
def sideBySide : UInt32 :=
  row.copy.toUInt32 ||| row.count.toUInt32 <<< 12 ||| row.skip.toUInt32 <<< 20

variable {row} in
/-- Where they do not overlap, side by side is one on top of the other. -/
theorem toNat_sideBySide (fits : row.Fits) : row.sideBySide.toNat =
    row.skip.toNat * 2 ^ 20 + (row.count.toNat * 2 ^ 12 + row.copy.toNat) := by
  have copy := fits.copy
  have skip := fits.skip
  have count := row.count.toNat_lt
  have middle : (row.count.toUInt32 <<< 12).toNat = 2 ^ 12 * row.count.toNat := by
    rw [UInt32.toNat_shiftLeft, Nat.shiftLeft_eq, UInt8.toNat_toUInt32, Nat.mul_comm]
    exact Nat.mod_eq_of_lt (by show 2 ^ 12 * _ < _; omega)
  have upper : (row.skip.toUInt32 <<< 20).toNat = 2 ^ 20 * row.skip.toNat := by
    rw [UInt32.toNat_shiftLeft, Nat.shiftLeft_eq, UInt16.toNat_toUInt32, Nat.mul_comm]
    exact Nat.mod_eq_of_lt (by show 2 ^ 20 * _ < _; omega)
  -- each part starts where the ones below it end
  have low : row.copy.toNat < 2 ^ 12 := by omega
  have low' : 2 ^ 12 * row.count.toNat + row.copy.toNat < 2 ^ 20 := by omega
  rw [sideBySide, UInt32.toNat_or, UInt32.toNat_or, middle, upper, UInt16.toNat_toUInt32,
    Nat.or_comm row.copy.toNat, ← Nat.two_pow_add_eq_or_of_lt low, Nat.or_comm,
    ← Nat.two_pow_add_eq_or_of_lt low']
  omega

/-- **A shape is packed** side by side, unless a part is too wide. -/
theorem bits_eq : row.bits =
    if 0xFFF < row.copy ∨ 0xFFF < row.skip then .error .fieldOverflow else .ok row.sideBySide := by
  by_cases fits : row.Fits
  · have narrow : ¬ (0xFFF < row.copy ∨ 0xFFF < row.skip) := by
      rintro (copy | skip)
      · exact absurd fits.copy (Nat.not_le_of_lt (UInt16.lt_iff_toNat_lt.1 copy))
      · exact absurd fits.skip (Nat.not_le_of_lt (UInt16.lt_iff_toNat_lt.1 skip))
    obtain ⟨packed, eq, value⟩ := row.bits_of_lt (Nat.lt_succ_of_le fits.copy)
      (Nat.lt_succ_of_le fits.skip)
    rw [if_neg narrow, eq, UInt32.toNat_inj.1 (value.trans (toNat_sideBySide fits).symm)]
  · have wide : 0xFFF < row.copy ∨ 0xFFF < row.skip := by
      by_contra narrow
      rw [not_or, UInt16.not_lt, UInt16.not_lt] at narrow
      exact fits ⟨UInt16.le_iff_toNat_le.1 narrow.1, UInt16.le_iff_toNat_le.1 narrow.2⟩
    rw [if_pos wide, bits_of_not_fits fits]

/-- The shapes that are refused. -/
theorem exists_error_iff : (∃ fault, row.bits = .error fault) ↔
    2 ^ 12 ≤ row.copy.toNat ∨ 2 ^ 12 ≤ row.skip.toNat := by
  constructor
  · rintro ⟨fault, refused⟩
    by_contra narrow
    obtain ⟨copy, skip⟩ := not_or.1 narrow
    obtain ⟨word, packed, -⟩ := row.bits_of_lt (Nat.lt_of_not_le copy) (Nat.lt_of_not_le skip)
    cases refused.symm.trans packed
  · intro wide
    refine ⟨_, bits_of_not_fits fun fits => ?_⟩
    have copy := fits.copy
    have skip := fits.skip
    omega

/-- **The bytes of a shape** can always be counted. -/
theorem totalBytes_eq : ∃ total, row.totalBytes = .ok total ∧
    total.toNat = (row.copy.toNat + 1) * (row.count.toNat + 1) := by
  have copy := row.copy.toNat_lt
  have count := row.count.toNat_lt
  obtain ⟨bytes, bytes_eq, bytes_value⟩ := Checked.exists_addSize row.copy.toUInt64 1
    (by rw [UInt16.toNat_toUInt64]; show _ + 1 < 2 ^ 64; omega)
  obtain ⟨rows, rows_eq, rows_value⟩ := Checked.exists_addSize row.count.toUInt64 1
    (by rw [UInt8.toNat_toUInt64]; show _ + 1 < 2 ^ 64; omega)
  rw [UInt16.toNat_toUInt64, UInt64.toNat_one] at bytes_value
  rw [UInt8.toNat_toUInt64, UInt64.toNat_one] at rows_value
  -- a product of 16 and 8 bits has 24
  obtain ⟨total, total_eq, total_value⟩ := Checked.exists_mulSize bytes rows <|
    calc bytes.toNat * rows.toNat ≤ 2 ^ 16 * 2 ^ 8 := Nat.mul_le_mul (by omega) (by omega)
      _ < UInt64.size := by decide
  refine ⟨total, ?_, ?_⟩
  · rw [totalBytes, bytes_eq, rows_eq]
    exact total_eq
  · rw [total_value, bytes_value, rows_value]

end

/-- **Packing and unpacking undo each other.** A shape is refused exactly if a part is wider than its
field, and otherwise packed with the three parts side by side; what is packed is unpacked to the same
shape, and moves as many bytes; and every word is packed from what it is unpacked to. -/
theorem packing_exact :
    (∀ row : RowLength, row.bits =
      if 0xFFF < row.copy ∨ 0xFFF < row.skip then .error .fieldOverflow
      else .ok (row.copy.toUInt32 ||| row.count.toUInt32 <<< 12 ||| row.skip.toUInt32 <<< 20)) ∧
    (∀ (row : RowLength) (word : UInt32), row.bits = .ok word → ofBits word = row) ∧
    (∀ word, (ofBits word).bits = .ok word) ∧
    ∀ row : RowLength, ∃ total, row.totalBytes = .ok total ∧
      total.toNat = (row.copy.toNat + 1) * (row.count.toNat + 1) ∧
      ∀ word, row.bits = .ok word → (ofBits word).totalBytes = .ok total := by
  refine ⟨bits_eq, fun row word => row.ofBits_of_bits, bits_ofBits, fun row => ?_⟩
  obtain ⟨total, eq, value⟩ := row.totalBytes_eq
  refine ⟨total, eq, value, fun word packed => ?_⟩
  rw [row.ofBits_of_bits packed, eq]

/-- The widest shape that fits is the greatest word, and moves a megabyte; one byte more in a row, or
in a gap, is refused. -/
theorem packing_exact_widest :
    let widest : RowLength := ⟨0xFFF, 0xFF, 0xFFF⟩
    widest.bits = .ok 0xFFFFFFFF ∧ ofBits 0xFFFFFFFF = widest ∧
      (∃ total, (ofBits 0xFFFFFFFF).totalBytes = .ok total ∧ total.toNat = 2 ^ 20) ∧
      (⟨0x1000, 0, 0⟩ : RowLength).bits = .error .fieldOverflow ∧
      (⟨0, 0, 0x1000⟩ : RowLength).bits = .error .fieldOverflow := by
  obtain ⟨bits, unpacked, -, totals⟩ := packing_exact
  have packed : (⟨0xFFF, 0xFF, 0xFFF⟩ : RowLength).bits = .ok 0xFFFFFFFF :=
    (bits _).trans (by decide)
  obtain ⟨total, -, value, same⟩ := totals ⟨0xFFF, 0xFF, 0xFFF⟩
  exact ⟨packed, unpacked _ _ packed, ⟨total, same _ packed, value⟩, (bits _).trans (by decide),
    (bits _).trans (by decide)⟩

end RowLength

end ColdBoot
