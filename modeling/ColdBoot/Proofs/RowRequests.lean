import ColdBoot.Proofs.RowFormat

/-! # Requests for rows

A shape is asked for with three sizes of 64 bits each: the bytes in a row, the rows, and the bytes
between rows. Of each size only as many bits are kept as its part of the shape has, 16, 8 and 16,
and packing refuses a part that is wider than its field only afterwards. So a request that is out of
range is refused if what was kept of it is out of range too; otherwise it becomes another transfer.

* **`RowLength.Describes`** – the transfer that a word stands for;
* **`RowLength.Outcome`** – what becomes of a request;
* **`RowLength.requests_kept_or_cut`** – that is what becomes of every request;
* **`RowLength.rows_cut_silently`** – 257 rows become a single one, with no refusal. -/

namespace ColdBoot

/-- The size before one that is not 0. -/
theorem Checked.subSize_one {n : UInt64} (nonzero : n ≠ 0) :
    Checked.subSize n 1 = .ok (n - 1) ∧ (n - 1).toNat = n.toNat - 1 := by
  have least : (1 : UInt64) ≤ n := by
    rw [UInt64.le_iff_toNat_le, UInt64.toNat_one]
    exact Nat.pos_of_ne_zero fun zero => nonzero (UInt64.toNat_inj.1 zero)
  exact ⟨if_pos least, UInt64.toNat_sub_of_le _ _ least⟩

namespace RowLength

/-- The word for rows of bytes, or why there is none. -/
def rowsWord (rowBytes rows skip : UInt64) : Except Fault UInt32 := do
  (← RowLength.rows rowBytes rows skip).bits

/-- The word for one row of bytes, or why there is none. -/
def linearWord (bytes : UInt64) : Except Fault UInt32 := do (← linear bytes).bits

/-- The word stands for `rows` rows of `rowBytes` bytes with `skip` bytes between them. -/
structure Describes (word : UInt32) (rowBytes rows skip : Nat) : Prop where
  copy : (ofBits word).copy.toNat + 1 = rowBytes
  count : (ofBits word).count.toNat + 1 = rows
  skip : (ofBits word).skip.toNat = skip
  total : ∃ total, (ofBits word).totalBytes = .ok total ∧ total.toNat = rowBytes * rows

/-- A number as it comes back from `width` bits that hold it less one. -/
def wrapped (width n : Nat) : Nat := (n - 1) % 2 ^ width + 1

/-- Each size of a request has room in its part of the shape. -/
structure Uncut (rowBytes rows skip : Nat) : Prop where
  rowBytes : rowBytes ≤ 2 ^ 16
  rows : rows ≤ 2 ^ 8
  skip : skip < 2 ^ 16

/-- **What becomes of a request.** -/
structure Outcome (result : Except Fault UInt32) (rowBytes rows skip : Nat) : Prop where
  /-- It is refused exactly if there is nothing to move, or what is kept of the bytes or of the gap
  is wider than its field. -/
  refused : (∃ fault, result = .error fault) ↔
    rowBytes = 0 ∨ rows = 0 ∨ 2 ^ 12 < wrapped 16 rowBytes ∨ 2 ^ 12 ≤ skip % 2 ^ 16
  /-- Otherwise the word stands for what is kept of it. -/
  kept : ∀ word, result = .ok word →
    Describes word (wrapped 16 rowBytes) (wrapped 8 rows) (skip % 2 ^ 16)
  /-- That is what was asked for exactly if nothing was cut off. -/
  faithful : ∀ word, result = .ok word →
    (Describes word rowBytes rows skip ↔ Uncut rowBytes rows skip)

/-! ### Shapes -/

section

variable {rowBytes rows skip : UInt64}

/-- What is kept of each size, of the two counts less one. -/
def cut (rowBytes rows skip : UInt64) : RowLength where
  copy := (rowBytes - 1).toUInt16
  count := (rows - 1).toUInt8
  skip := skip.toUInt16

/-- No rows, and rows of nothing, are refused. -/
theorem rows_of_zero (empty : rowBytes = 0 ∨ rows = 0) :
    RowLength.rows rowBytes rows skip = .error .subtractOverflow := by
  by_cases bytes : rowBytes = 0
  · rw [bytes]
    rfl
  · rw [RowLength.rows, (Checked.subSize_one bytes).1, empty.resolve_left bytes]
    rfl

theorem rows_of_ne_zero (bytes : rowBytes ≠ 0) (nonzero : rows ≠ 0) :
    RowLength.rows rowBytes rows skip = .ok (cut rowBytes rows skip) := by
  rw [RowLength.rows, (Checked.subSize_one bytes).1, (Checked.subSize_one nonzero).1]
  rfl

/-- One row is a request for rows. -/
theorem linear_eq_rows (bytes : UInt64) : linear bytes = RowLength.rows bytes 1 0 := by
  by_cases empty : bytes = 0
  · rw [empty]
    rfl
  · rw [rows_of_ne_zero empty (by decide), linear, (Checked.subSize_one empty).1]
    rfl

/-- What is kept, in numbers. -/
theorem toNat_cut (skip : UInt64) (bytes : rowBytes ≠ 0) (nonzero : rows ≠ 0) :
    (cut rowBytes rows skip).copy.toNat + 1 = wrapped 16 rowBytes.toNat ∧
      (cut rowBytes rows skip).count.toNat + 1 = wrapped 8 rows.toNat ∧
      (cut rowBytes rows skip).skip.toNat = skip.toNat % 2 ^ 16 := by
  refine ⟨?_, ?_, UInt64.toNat_toUInt16 skip⟩
  · rw [cut, UInt64.toNat_toUInt16, (Checked.subSize_one bytes).2, wrapped]
  · rw [cut, UInt64.toNat_toUInt8, (Checked.subSize_one nonzero).2, wrapped]

end

/-- The transfer of a shape that packs. -/
theorem describes_of_bits {row : RowLength} {word : UInt32} (packed : row.bits = .ok word) :
    Describes word (row.copy.toNat + 1) (row.count.toNat + 1) row.skip.toNat := by
  have unpacked := row.ofBits_of_bits packed
  obtain ⟨total, eq, value⟩ := row.totalBytes_eq
  constructor
  · rw [unpacked]
  · rw [unpacked]
  · rw [unpacked]
  · rw [unpacked]
    exact ⟨total, eq, value⟩

/-! ### Requests -/

theorem wrapped_of_le {width n : Nat} (nonzero : n ≠ 0) (le : n ≤ 2 ^ width) : wrapped width n = n := by
  rw [wrapped, Nat.mod_eq_of_lt (by omega)]
  omega

/-- What a word describes has room in the parts of its shape. -/
theorem Describes.uncut {word : UInt32} {rowBytes rows skip : Nat}
    (describes : Describes word rowBytes rows skip) : Uncut rowBytes rows skip where
  rowBytes := by
    rw [← describes.copy]
    exact (ofBits word).copy.toNat_lt
  rows := by
    rw [← describes.count]
    exact (ofBits word).count.toNat_lt
  skip := by
    rw [← describes.skip]
    exact (ofBits word).skip.toNat_lt

/-- **What becomes of a request for rows.** -/
theorem outcome_rows (rowBytes rows skip : UInt64) :
    Outcome (rowsWord rowBytes rows skip) rowBytes.toNat rows.toNat skip.toNat := by
  by_cases empty : rowBytes = 0 ∨ rows = 0
  · have error : rowsWord rowBytes rows skip = .error .subtractOverflow := by
      rw [rowsWord, rows_of_zero empty]
      rfl
    have zero : rowBytes.toNat = 0 ∨ rows.toNat = 0 :=
      empty.imp (congrArg UInt64.toNat) (congrArg UInt64.toNat)
    rw [error]
    constructor
    · exact iff_of_true ⟨_, rfl⟩ (zero.imp_right .inl)
    · nofun
    · nofun
  · obtain ⟨bytes, nonzero⟩ := not_or.1 empty
    have eq : rowsWord rowBytes rows skip = (cut rowBytes rows skip).bits := by
      rw [rowsWord, rows_of_ne_zero bytes nonzero]
      rfl
    have bytes' : rowBytes.toNat ≠ 0 := fun zero => bytes (UInt64.toNat_inj.1 zero)
    have nonzero' : rows.toNat ≠ 0 := fun zero => nonzero (UInt64.toNat_inj.1 zero)
    obtain ⟨copy, count, gap⟩ := toNat_cut skip bytes nonzero
    have kept (word : UInt32) (packed : (cut rowBytes rows skip).bits = .ok word) :
        Describes word (wrapped 16 rowBytes.toNat) (wrapped 8 rows.toNat) (skip.toNat % 2 ^ 16) := by
      rw [← copy, ← count, ← gap]
      exact describes_of_bits packed
    rw [eq]
    refine ⟨?_, kept, fun word packed => ⟨Describes.uncut, fun uncut => ?_⟩⟩
    · rw [exists_error_iff, ← copy, ← gap]
      omega
    · have whole := kept word packed
      rwa [wrapped_of_le bytes' uncut.rowBytes, wrapped_of_le nonzero' uncut.rows,
        Nat.mod_eq_of_lt uncut.skip] at whole

/-- **A request is encoded as it was made exactly if nothing of it is cut off.** Of each size as many
bits are kept as its part of the shape has; a request is refused if there is nothing to move or if
what was kept is too wide for its field, and otherwise it becomes the transfer that was kept. -/
theorem requests_kept_or_cut :
    (∀ rowBytes rows skip : UInt64,
      Outcome (rowsWord rowBytes rows skip) rowBytes.toNat rows.toNat skip.toNat) ∧
    ∀ bytes : UInt64, Outcome (linearWord bytes) bytes.toNat 1 0 := by
  refine ⟨outcome_rows, fun bytes => ?_⟩
  rw [linearWord, linear_eq_rows]
  exact outcome_rows bytes 1 0

/-- The greatest request is encoded as it was made, and so is the longest single row; one byte more
is refused. -/
theorem requests_kept_or_cut_greatest :
    Describes 0xFFFFFFFF 4096 256 4095 ∧ Describes 0xFFF 4096 1 0 ∧
      ∃ fault, linearWord 4097 = .error fault := by
  obtain ⟨rows, linear⟩ := requests_kept_or_cut
  refine ⟨?_, ?_, (linear 4097).refused.2 ?_⟩
  · exact ((rows 4096 256 4095).faithful 0xFFFFFFFF (by decide)).2
      ⟨by decide, by decide, by decide⟩
  · exact ((linear 4096).faithful 0xFFF (by decide)).2 ⟨by decide, by decide, by decide⟩
  · exact .inr (.inr (.inl (by decide)))

/-- **A request is not always refused or encoded as it was made**: 257 rows become a single one, and
65537 bytes become one. -/
theorem rows_cut_silently :
    (rowsWord 8 257 8 = .ok 0x00800007 ∧ Describes 0x00800007 8 1 8 ∧
      ¬ Describes 0x00800007 8 257 8) ∧
    linearWord 65537 = .ok 0 ∧ Describes 0 1 1 0 ∧ ¬ Describes 0 65537 1 0 := by
  have rows : rowsWord 8 257 8 = .ok 0x00800007 := by decide
  have linear : linearWord 65537 = .ok 0 := by decide
  have few : Describes 0x00800007 8 1 8 := (outcome_rows 8 257 8).kept _ rows
  have least : (⟨0, 0, 0⟩ : RowLength).bits = .ok 0 := by decide
  have short : Describes 0 1 1 0 := describes_of_bits least
  refine ⟨⟨rows, few, fun many => ?_⟩, linear, short, fun long => ?_⟩
  · cases few.count.symm.trans many.count
  · cases short.copy.symm.trans long.copy

end RowLength

end ColdBoot
