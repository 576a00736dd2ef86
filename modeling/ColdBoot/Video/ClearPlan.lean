import ColdBoot.Fault

/-! # Splitting a clear into pages

A framebuffer is cleared page by page from the one-page colour pattern. A **`ClearPlan`** hands out
the chunks in order: each one page long, the last one as long as what is left. -/

namespace ColdBoot

/-- A run of `len` bytes from `offset` on. -/
structure ClearChunk where
  offset : UInt64
  len : UInt64
  deriving DecidableEq, Repr

/-- What is left of a clear of `total` bytes in pages of `page` bytes. -/
structure ClearPlan where
  offset : UInt64
  total : UInt64
  page : UInt64
  /-- The plan never runs past its end. -/
  offset_le : offset ≤ total

namespace ClearPlan

/-- The whole of `total` bytes, from the start. -/
def ofTotal (total page : UInt64) : ClearPlan :=
  ⟨0, total, page, UInt64.le_iff_toNat_le.2 (Nat.zero_le _)⟩

/-- Bytes not yet handed out. -/
def rest (plan : ClearPlan) : UInt64 := plan.total - plan.offset

/-- Bytes in the next chunk. -/
def chunkLen (plan : ClearPlan) : UInt64 :=
  if plan.page ≤ plan.rest then plan.page else plan.rest

/-- The number of chunks still to come, which pages without bytes leave undefined. -/
def remaining (plan : ClearPlan) : Except Fault UInt64 := Checked.ceilDivSize plan.rest plan.page

theorem toNat_rest (plan : ClearPlan) :
    plan.rest.toNat = plan.total.toNat - plan.offset.toNat :=
  UInt64.toNat_sub_of_le _ _ plan.offset_le

theorem toNat_chunkLen (plan : ClearPlan) :
    plan.chunkLen.toNat = min plan.page.toNat (plan.total.toNat - plan.offset.toNat) := by
  unfold chunkLen
  rw [← plan.toNat_rest]
  split
  · next h => rw [Nat.min_eq_left (UInt64.le_iff_toNat_le.1 h)]
  · next h =>
    rw [UInt64.le_iff_toNat_le] at h
    rw [Nat.min_eq_right (by omega)]

theorem toNat_offset_add_chunkLen (plan : ClearPlan) :
    (plan.offset + plan.chunkLen).toNat =
      plan.offset.toNat + min plan.page.toNat (plan.total.toNat - plan.offset.toNat) := by
  have hle := UInt64.le_iff_toNat_le.1 plan.offset_le
  have hlt := plan.total.toNat_lt
  rw [UInt64.toNat_add, plan.toNat_chunkLen, Nat.mod_eq_of_lt (by omega)]

/-- The plan behind the next chunk. -/
def advance (plan : ClearPlan) : ClearPlan where
  offset := plan.offset + plan.chunkLen
  total := plan.total
  page := plan.page
  offset_le := by
    have hle := UInt64.le_iff_toNat_le.1 plan.offset_le
    rw [UInt64.le_iff_toNat_le, plan.toNat_offset_add_chunkLen]
    omega

/-- The next chunk and the plan behind it, or `none` at the end. -/
def next? (plan : ClearPlan) : Option (ClearChunk × ClearPlan) :=
  if plan.total ≤ plan.offset then none
  else some (⟨plan.offset, plan.chunkLen⟩, plan.advance)

/-- All chunks still to come. Pages without bytes never get to the end, so they are excluded. -/
def chunks (plan : ClearPlan) (hpage : 0 < plan.page) : List ClearChunk :=
  if _ : plan.total ≤ plan.offset then []
  else ⟨plan.offset, plan.chunkLen⟩ :: plan.advance.chunks hpage
termination_by plan.total.toNat - plan.offset.toNat
decreasing_by
  have hpos := UInt64.lt_iff_toNat_lt.1 hpage
  have h : ¬ plan.total ≤ plan.offset := by assumption
  rw [UInt64.le_iff_toNat_le] at h
  simp only [advance, plan.toNat_offset_add_chunkLen]
  simp only [UInt64.toNat_zero] at hpos
  omega

end ClearPlan

end ColdBoot
