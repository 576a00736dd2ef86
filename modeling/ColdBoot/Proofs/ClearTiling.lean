import ColdBoot.Video.Output
import Mathlib.Data.Nat.Bitwise

/-! # The chunks of a clear

A plan hands out its chunks by moving its offset; this module has them all at once. Chunk `i` begins
`i` pages behind the plan's offset, every chunk but the last is one page long, and the last one is
what is left.

* **`ClearPlan.chunks_eq`** – the chunks of a plan in closed form;
* **`Video.clearChunks_eq`** – those of a framebuffer, thirty-eight of them;
* **`Video.exists_chunk`**, **`Video.chunk_inside`** – they cover it and do not leave it. -/

namespace ColdBoot

namespace ClearPlan

/-- Chunks of `rest` bytes in pages of `page` bytes. -/
def chunkCount (rest page : Nat) : Nat := (rest + page - 1) / page

/-- Chunk `i` of `rest` bytes from `offset` on. -/
def chunkAt (offset rest page i : Nat) : ClearChunk :=
  ⟨UInt64.ofNat (offset + i * page), UInt64.ofNat (min page (rest - i * page))⟩

@[simp] theorem chunkCount_zero {page : Nat} (positive : 0 < page) : chunkCount 0 page = 0 :=
  Nat.div_eq_of_lt (by omega)

/-- The first chunk is one page, or all that is left. -/
theorem chunkCount_of_pos {rest page : Nat} (positive : 0 < page) (remains : 0 < rest) :
    chunkCount rest page = chunkCount (rest - min page rest) page + 1 := by
  by_cases long : page ≤ rest
  · have split : rest + page - 1 = (rest - page + page - 1) + page := by omega
    rw [Nat.min_eq_left long, chunkCount, chunkCount, split, Nat.add_div_right _ positive]
  · have last : rest + page - 1 = (rest - 1) + page := by omega
    rw [Nat.min_eq_right (by omega), Nat.sub_self, chunkCount_zero positive, chunkCount, last,
      Nat.add_div_right _ positive, Nat.div_eq_of_lt (by omega)]

/-- **The chunks of a plan.** -/
theorem chunks_eq (plan : ClearPlan) (hpage : 0 < plan.page) :
    plan.chunks hpage =
      (List.range (chunkCount (plan.total.toNat - plan.offset.toNat) plan.page.toNat)).map
        (chunkAt plan.offset.toNat (plan.total.toNat - plan.offset.toNat) plan.page.toNat) := by
  have positive : 0 < plan.page.toNat := UInt64.lt_iff_toNat_lt.1 hpage
  -- over the plan's own recursion: a step hands out the chunk with number 0 of what is left
  induction plan, hpage using chunks.induct with
  | case1 plan hpage finished =>
    have empty : plan.total.toNat - plan.offset.toNat = 0 :=
      Nat.sub_eq_zero_of_le (UInt64.le_iff_toNat_le.1 finished)
    rw [chunks, dif_pos finished, empty, chunkCount_zero positive]
    rfl
  | case2 plan hpage more ih =>
    have remains : 0 < plan.total.toNat - plan.offset.toNat := by
      rw [UInt64.le_iff_toNat_le] at more
      omega
    have offset : plan.advance.offset.toNat =
        plan.offset.toNat + min plan.page.toNat (plan.total.toNat - plan.offset.toNat) :=
      plan.toNat_offset_add_chunkLen
    have rest : plan.advance.total.toNat - plan.advance.offset.toNat =
        plan.total.toNat - plan.offset.toNat -
          min plan.page.toNat (plan.total.toNat - plan.offset.toNat) := by
      rw [offset, ← Nat.sub_sub]
      rfl
    have first : (⟨plan.offset, plan.chunkLen⟩ : ClearChunk) =
        chunkAt plan.offset.toNat (plan.total.toNat - plan.offset.toNat) plan.page.toNat 0 := by
      rw [chunkAt, Nat.zero_mul, Nat.add_zero, Nat.sub_zero, ← plan.toNat_chunkLen,
        UInt64.ofNat_toNat, UInt64.ofNat_toNat]
    rw [chunks, dif_neg more, ih positive, rest, offset,
      chunkCount_of_pos positive remains, List.range_succ_eq_map, List.map_cons, List.map_map, first]
    refine congrArg (List.cons _) (List.map_congr_left fun i member => ?_)
    have page : plan.advance.page = plan.page := rfl
    show chunkAt _ _ _ i = chunkAt _ _ _ (i + 1)
    rw [page]
    -- behind a chunk shorter than a page nothing is left
    by_cases long : plan.page.toNat ≤ plan.total.toNat - plan.offset.toNat
    · rw [Nat.min_eq_left long, chunkAt, chunkAt, Nat.succ_mul, Nat.add_assoc,
        Nat.add_comm plan.page.toNat, Nat.sub_sub, Nat.add_comm plan.page.toNat]
    · rw [List.mem_range, Nat.min_eq_right (by omega), Nat.sub_self, page,
        chunkCount_zero positive] at member
      exact absurd member (Nat.not_lt_zero i)

end ClearPlan

namespace Video

/-- Chunk `i` of a framebuffer. -/
def frameChunk (i : Nat) : ClearChunk :=
  ⟨UInt64.ofNat (i * 4096), UInt64.ofNat (min 4096 (153600 - i * 4096))⟩

/-- **The chunks of a framebuffer.** -/
theorem clearChunks_eq : clearChunks = (List.range 38).map frameChunk := by
  rw [clearChunks, ClearPlan.chunks_eq]
  refine List.map_congr_left fun i _ => ?_
  show ClearPlan.chunkAt 0 153600 4096 i = _
  rw [ClearPlan.chunkAt, Nat.zero_add]
  rfl

theorem toNat_offset_frameChunk {i : Nat} (lt : i < 38) :
    (frameChunk i).offset.toNat = i * 4096 :=
  UInt64.toNat_ofNat_of_lt' (show i * 4096 < 2 ^ 64 by omega)

theorem toNat_len_frameChunk (i : Nat) :
    (frameChunk i).len.toNat = min 4096 (153600 - i * 4096) :=
  UInt64.toNat_ofNat_of_lt' (show min 4096 (153600 - i * 4096) < 2 ^ 64 by omega)

/-- A chunk begins on a doubleword, has some bytes and at most a page of them, and ends inside the
framebuffer. -/
theorem chunk_inside {chunk : ClearChunk} (member : chunk ∈ clearChunks) :
    chunk.offset.toNat % 8 = 0 ∧ 0 < chunk.len.toNat ∧ chunk.len.toNat ≤ pageSize.toNat ∧
      chunk.offset.toNat + chunk.len.toNat ≤ Framebuffer.byteSize.toNat := by
  rw [clearChunks_eq] at member
  obtain ⟨i, lt, rfl⟩ := List.mem_map.1 member
  rw [List.mem_range] at lt
  rw [toNat_offset_frameChunk lt, toNat_len_frameChunk]
  show i * 4096 % 8 = 0 ∧ 0 < min 4096 (153600 - i * 4096) ∧
    min 4096 (153600 - i * 4096) ≤ 4096 ∧ i * 4096 + min 4096 (153600 - i * 4096) ≤ 153600
  omega

/-- The place of a chunk in a framebuffer that does not go round. -/
theorem toNat_offset_chunk {target : PhysAddr}
    (fits : target.word.toNat + Framebuffer.byteSize.toNat ≤ 2 ^ 29) {chunk : ClearChunk}
    (member : chunk ∈ clearChunks) :
    (target.offset chunk.offset.toUInt32).word.toNat =
      target.word.toNat + chunk.offset.toNat := by
  obtain ⟨-, nonempty, -, inside⟩ := chunk_inside member
  have : target.word.toNat + 153600 ≤ 2 ^ 29 := fits
  have : chunk.offset.toNat + chunk.len.toNat ≤ 153600 := inside
  rw [PhysAddr.offset, PhysAddr.toNat_ofAddress, UInt32.toNat_add, UInt64.toNat_toUInt32]
  omega

/-- Every byte of a framebuffer lies in a chunk. -/
theorem exists_chunk {k : Nat} (lt : k < Framebuffer.byteSize.toNat) :
    ∃ chunk ∈ clearChunks, chunk.offset.toNat ≤ k ∧ k < chunk.offset.toNat + chunk.len.toNat := by
  have lt : k < 153600 := lt
  have few : k / 4096 < 38 := by omega
  refine ⟨frameChunk (k / 4096), ?_, ?_⟩
  · rw [clearChunks_eq]
    exact List.mem_map.2 ⟨_, List.mem_range.2 few, rfl⟩
  · rw [toNat_offset_frameChunk few, toNat_len_frameChunk]
    omega

end Video

end ColdBoot
