import ColdBoot.Proofs.ClearTiling
import ColdBoot.Proofs.FaultFree
import Mathlib.Algebra.Order.Floor.Div

/-! # Asking a plan for its chunks

A plan is asked for one chunk after another, and at any time how many are still to come. Its chunks
lie side by side, and whatever it was asked before, it hands out the next one and tells the right
number.

* **`ClearPlan.SideBySide`** – chunks without gap and overlap, with **`SideBySide.apart`** and
  **`SideBySide.covers`**;
* **`ClearPlan.IsSplit`** – so many bytes in pages, and **`ClearPlan.isSplit_chunks`** – the chunks
  of a plan are that;
* **`ClearPlan.chunks_after`** – what is left behind any number of requests;
* **`ClearPlan.chunks_exact`** – so a plan splits its bytes, and answers its requests with them. -/

namespace ColdBoot

/-- A quotient rounded up is the quotient, or one more where it does not come out even. -/
theorem ceilDiv_eq_ite (a : Nat) {b : Nat} (positive : 0 < b) :
    a ⌈/⌉ b = if a % b = 0 then a / b else a / b + 1 := by
  have euclid := Nat.div_add_mod' a b
  have digit := Nat.mod_lt a positive
  rw [Nat.ceilDiv_eq_add_pred_div]
  by_cases even : a % b = 0
  · rw [if_pos even]
    refine Nat.div_eq_of_lt_le ?_ ?_
    · omega
    · rw [Nat.succ_mul]
      omega
  · rw [if_neg even]
    refine Nat.div_eq_of_lt_le ?_ ?_
    · rw [Nat.succ_mul]
      omega
    · rw [Nat.succ_mul, Nat.succ_mul]
      omega

/-- A quotient of sizes, rounded up, is a size. -/
theorem Checked.exists_ceilDivSize (a : UInt64) {b : UInt64} (positive : 0 < b.toNat) :
    ∃ count, Checked.ceilDivSize a b = .ok count ∧ count.toNat = a.toNat ⌈/⌉ b.toNat := by
  have nonzero : b ≠ 0 := by
    rintro rfl
    exact Nat.lt_irrefl 0 positive
  have even : a % b = 0 ↔ a.toNat % b.toNat = 0 := by
    rw [← UInt64.toNat_inj, UInt64.toNat_mod, UInt64.toNat_zero]
  refine ⟨_, if_neg nonzero, ?_⟩
  rw [ceilDiv_eq_ite _ positive, apply_ite UInt64.toNat, UInt64.toNat_div, UInt64.toNat_add,
    UInt64.toNat_div, UInt64.toNat_one]
  refine if_ctx_congr even (fun _ => rfl) fun odd => Nat.mod_eq_of_lt ?_
  -- a quotient that does not come out even is not the largest size
  have euclid := Nat.div_add_mod' a.toNat b.toNat
  have le : a.toNat / b.toNat * 1 ≤ a.toNat / b.toNat * b.toNat := Nat.mul_le_mul_left _ positive
  have lt := a.toNat_lt
  omega

/-- Byte `k` belongs to a chunk. -/
def ClearChunk.Has (chunk : ClearChunk) (k : Nat) : Prop :=
  chunk.offset.toNat ≤ k ∧ k < chunk.offset.toNat + chunk.len.toNat

namespace ClearPlan

/-! ### Chunks side by side -/

/-- Chunks from `start` to `stop`: each has some bytes and begins where the one before it ends. -/
inductive SideBySide (stop : Nat) : Nat → List ClearChunk → Prop where
  | done : SideBySide stop stop []
  | chunk {start : Nat} {chunk : ClearChunk} {rest : List ClearChunk}
      (offset : chunk.offset.toNat = start) (len_pos : 0 < chunk.len.toNat)
      (further : SideBySide stop (start + chunk.len.toNat) rest) :
      SideBySide stop start (chunk :: rest)

namespace SideBySide

variable {start stop : Nat} {chunks : List ClearChunk}

theorem le (h : SideBySide stop start chunks) : start ≤ stop := by
  induction h with
  | done => exact Nat.le_refl _
  | chunk _ _ _ ih => omega

theorem len_pos (h : SideBySide stop start chunks) : ∀ chunk ∈ chunks, 0 < chunk.len.toNat := by
  induction h with
  | done => exact nofun
  | chunk _ nonempty _ ih => exact List.forall_mem_cons.2 ⟨nonempty, ih⟩

/-- All of them begin from `start` on. -/
theorem start_le (h : SideBySide stop start chunks) :
    ∀ chunk ∈ chunks, start ≤ chunk.offset.toNat := by
  induction h with
  | done => exact nofun
  | chunk offset _ _ ih =>
    refine List.forall_mem_cons.2 ⟨offset.ge, fun later member => ?_⟩
    have := ih later member
    omega

/-- **No overlap**: each ends before any later one begins. -/
theorem apart (h : SideBySide stop start chunks) :
    chunks.Pairwise fun a b => a.offset.toNat + a.len.toNat ≤ b.offset.toNat := by
  induction h with
  | done => exact .nil
  | chunk offset _ further ih =>
    refine .cons (fun later member => ?_) ih
    rw [offset]
    exact further.start_le later member

/-- **No gap**: the bytes from `start` to `stop` are those of the chunks. -/
theorem covers (h : SideBySide stop start chunks) (k : Nat) :
    start ≤ k ∧ k < stop ↔ ∃ chunk ∈ chunks, chunk.Has k := by
  induction h with
  | done => exact ⟨fun ⟨ge, lt⟩ => absurd lt (Nat.not_lt.2 ge), nofun⟩
  | @chunk start chunk rest offset nonempty further ih =>
    have le := further.le
    rw [List.exists_mem_cons_iff, ← ih, ClearChunk.Has, offset]
    omega

end SideBySide

/-! ### Pages -/

/-- The bytes from `start` to `stop`, split into pages: chunks side by side, as many as the quotient
rounded up, all of them one page long but for the last one, which has what is left over. -/
structure IsSplit (start stop page : Nat) (chunks : List ClearChunk) : Prop where
  sideBySide : SideBySide stop start chunks
  length : chunks.length = (stop - start) ⌈/⌉ page
  whole : ∀ i (h : i + 1 < chunks.length), chunks[i].len.toNat = page
  last : ∀ h : chunks ≠ [], (chunks.getLast h).len.toNat =
    if (stop - start) % page = 0 then page else (stop - start) % page

variable {plan : ClearPlan}

/-- The chunks of a plan go from its offset to its end. -/
theorem sideBySide_chunks (hpage : 0 < plan.page) :
    SideBySide plan.total.toNat plan.offset.toNat (plan.chunks hpage) := by
  -- over the plan's own recursion
  induction plan, hpage using chunks.induct with
  | case1 plan hpage finished =>
    have offset := Nat.le_antisymm (UInt64.le_iff_toNat_le.1 plan.offset_le)
      (UInt64.le_iff_toNat_le.1 finished)
    rw [chunks, dif_pos finished, offset]
    exact .done
  | case2 plan hpage more ih =>
    have positive : 0 < plan.page.toNat := UInt64.lt_iff_toNat_lt.1 hpage
    have len := plan.toNat_chunkLen
    have behind : plan.advance.offset.toNat = plan.offset.toNat + plan.chunkLen.toNat := by
      rw [len]
      exact plan.toNat_offset_add_chunkLen
    rw [behind] at ih
    rw [chunks, dif_neg more]
    refine .chunk rfl ?_ ih
    rw [UInt64.le_iff_toNat_le] at more
    rw [len]
    omega

theorem length_chunks (hpage : 0 < plan.page) : (plan.chunks hpage).length =
    (plan.total.toNat - plan.offset.toNat) ⌈/⌉ plan.page.toNat := by
  rw [chunks_eq, List.length_map, List.length_range, Nat.ceilDiv_eq_add_pred_div]
  rfl

/-- A chunk is one page long, or as long as what is left. -/
theorem toNat_len_getElem_chunks (hpage : 0 < plan.page) {i : Nat}
    (h : i < (plan.chunks hpage).length) : (plan.chunks hpage)[i].len.toNat =
      min plan.page.toNat (plan.total.toNat - plan.offset.toNat - i * plan.page.toNat) := by
  have bound := plan.page.toNat_lt
  simp only [chunks_eq, List.getElem_map, List.getElem_range, chunkAt]
  exact UInt64.toNat_ofNat_of_lt' (show _ < 2 ^ 64 by omega)

/-- **The chunks of a plan** split what is left of it. -/
theorem isSplit_chunks (hpage : 0 < plan.page) :
    IsSplit plan.offset.toNat plan.total.toNat plan.page.toNat (plan.chunks hpage) := by
  have positive : 0 < plan.page.toNat := UInt64.lt_iff_toNat_lt.1 hpage
  have length := length_chunks hpage
  refine ⟨sideBySide_chunks hpage, length, fun i h => ?_, fun further => ?_⟩
  · -- a further chunk behind this one has some bytes
    rw [toNat_len_getElem_chunks]
    rw [length, Nat.ceilDiv_eq_add_pred_div, Nat.lt_iff_add_one_le, Nat.le_div_iff_mul_le positive,
      Nat.add_assoc, Nat.add_mul] at h
    omega
  · have euclid := Nat.div_add_mod' (plan.total.toNat - plan.offset.toNat) plan.page.toNat
    have digit := Nat.mod_lt (plan.total.toNat - plan.offset.toNat) positive
    rw [List.getLast_eq_getElem, toNat_len_getElem_chunks, length, ceilDiv_eq_ite _ positive]
    by_cases even : (plan.total.toNat - plan.offset.toNat) % plan.page.toNat = 0
    · have lengthPos := List.length_pos_iff.2 further
      rw [length, ceilDiv_eq_ite _ positive, if_pos even] at lengthPos
      have le := Nat.le_mul_of_pos_left plan.page.toNat lengthPos
      rw [if_pos even, if_pos even, Nat.sub_one_mul]
      omega
    · rw [if_neg even, if_neg even, Nat.add_sub_cancel]
      omega

/-! ### Requests -/

/-- What a request is answered. -/
def offered (plan : ClearPlan) : Option ClearChunk := plan.next?.map Prod.fst

/-- The plan behind a request. A finished plan is left as it is. -/
def asked (plan : ClearPlan) : ClearPlan := (plan.next?.map Prod.snd).getD plan

/-- The plan behind `n` requests. -/
def after (plan : ClearPlan) : Nat → ClearPlan
  | 0 => plan
  | n + 1 => plan.asked.after n

/-- What is left behind a request: all chunks but the first one, which is the answer. -/
theorem chunks_asked (hpage : 0 < plan.page) : ∃ hpage' : 0 < plan.asked.page,
    plan.asked.chunks hpage' = (plan.chunks hpage).tail ∧
      plan.offered = (plan.chunks hpage).head? := by
  by_cases finished : plan.total ≤ plan.offset
  · have next : plan.next? = none := if_pos finished
    have same : plan.asked = plan := by rw [asked, next]; rfl
    have empty : plan.chunks hpage = [] := by rw [chunks, dif_pos finished]
    rw [same, empty, offered, next]
    exact ⟨hpage, empty, rfl⟩
  · have next : plan.next? = some (⟨plan.offset, plan.chunkLen⟩, plan.advance) := if_neg finished
    have behind : plan.asked = plan.advance := by rw [asked, next]; rfl
    rw [behind, chunks, dif_neg finished, offered, next]
    exact ⟨hpage, rfl, rfl⟩

/-- **What is left behind any number of requests.** -/
theorem chunks_after (hpage : 0 < plan.page) (n : Nat) : ∃ hpage' : 0 < (plan.after n).page,
    (plan.after n).chunks hpage' = (plan.chunks hpage).drop n := by
  induction n generalizing plan with
  | zero => exact ⟨hpage, rfl⟩
  | succ n ih =>
    obtain ⟨hpage', left, -⟩ := chunks_asked hpage
    obtain ⟨hpage'', eq⟩ := ih hpage'
    refine ⟨hpage'', ?_⟩
    rw [left, List.drop_tail] at eq
    exact eq

/-- A plan tells how many chunks are still to come. -/
theorem exists_remaining (hpage : 0 < plan.page) :
    ∃ count, plan.remaining = .ok count ∧ count.toNat = (plan.chunks hpage).length := by
  obtain ⟨count, eq, value⟩ :=
    Checked.exists_ceilDivSize plan.rest (UInt64.lt_iff_toNat_lt.1 hpage)
  rw [plan.toNat_rest, ← length_chunks hpage] at value
  exact ⟨count, eq, value⟩

/-- **A plan splits its bytes, and tells how far it is.** Take any number of bytes, and pages with
some bytes. The chunks are the bytes in pages, side by side from the first byte to the last one.
Behind any number `n` of requests the next one is answered with chunk `n`, and where there is none
with nothing, then and for ever; the plan's arithmetic stays in range; and it tells how many chunks
are still to come. -/
theorem chunks_exact {page : UInt64} (positive : 0 < page) (total : UInt64) :
    ∃ chunks, chunks = (ofTotal total page).chunks positive ∧
      IsSplit 0 total.toNat page.toNat chunks ∧ (∀ chunk ∈ chunks, 0 < chunk.len.toNat) ∧
      (chunks.Pairwise fun a b => a.offset.toNat + a.len.toNat ≤ b.offset.toNat) ∧
      (∀ k, k < total.toNat ↔ ∃ chunk ∈ chunks, chunk.Has k) ∧
      (∀ n, ((ofTotal total page).after n).offered = chunks[n]? ∧
        ((ofTotal total page).after n).InRange ∧
        ∃ count, ((ofTotal total page).after n).remaining = .ok count ∧
          count.toNat = chunks.length - n) ∧
      ∀ n m, n ≤ m → ((ofTotal total page).after n).offered = none →
        ((ofTotal total page).after m).offered = none := by
  have split := @isSplit_chunks (ofTotal total page) positive
  have answers (n : Nat) : ((ofTotal total page).after n).offered =
      ((ofTotal total page).chunks positive)[n]? := by
    obtain ⟨hpage, left⟩ := @chunks_after (ofTotal total page) positive n
    obtain ⟨-, -, offered⟩ := chunks_asked hpage
    rw [offered, left, List.head?_drop]
  refine ⟨_, rfl, split, split.sideBySide.len_pos, split.sideBySide.apart, fun k => ?_,
    fun n => ⟨answers n, inRange _, ?_⟩, fun n m le finished => ?_⟩
  · rw [← split.sideBySide.covers k]
    exact (and_iff_right (Nat.zero_le k)).symm
  · obtain ⟨hpage, left⟩ := @chunks_after (ofTotal total page) positive n
    obtain ⟨count, told, value⟩ := exists_remaining hpage
    rw [left, List.length_drop] at value
    exact ⟨count, told, value⟩
  · rw [answers, List.getElem?_eq_none_iff] at finished ⊢
    exact Nat.le_trans finished le

/-- As many bytes as there can be, in two pages of which the last one is a byte short. -/
theorem chunks_exact_greatest : (0 : UInt64) < 0x8000000000000000 ∧
    ∃ chunks, IsSplit 0 0xFFFFFFFFFFFFFFFF 0x8000000000000000 chunks ∧ chunks.length = 2 ∧
      chunks[1]? = some ⟨0x8000000000000000, 0x7FFFFFFFFFFFFFFF⟩ ∧
      ((ofTotal 0xFFFFFFFFFFFFFFFF 0x8000000000000000).after 2).offered = none := by
  have positive : (0 : UInt64) < 0x8000000000000000 := by decide
  obtain ⟨chunks, -, split, -, -, -, answers, -⟩ := chunks_exact positive 0xFFFFFFFFFFFFFFFF
  have length : chunks.length = 2 := by
    rw [split.length, ceilDiv_eq_ite _ (by decide)]
    rfl
  refine ⟨positive, chunks, split, length, ?_, ?_⟩
  · rw [← (answers 1).1]
    rfl
  · rw [(answers 2).1, List.getElem?_eq_none_iff, length]

end ClearPlan

end ColdBoot
