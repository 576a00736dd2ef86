import ColdBoot.Proofs.CacheWalk
import Mathlib.Algebra.Order.Floor.Div
import Mathlib.Data.Nat.ModEq

/-! # Where a walk over cache lines ends

A walk measures its range from the start of the first line, in a word. How it ends therefore depends
on one number, the **`reach`** of the range: the bytes from that start to the end of the range.

* A reach that leaves a line's room below 2³² is walked to its end, also where the addresses go
  round.
* With less room the walk sees all its lines and then breaks off, since the checked distance to the
  next one does not fit a word.
* A reach of 2³² or more is taken for what is left of it modulo 2³². Then the walk finishes at once
  or behind its first line.

**`walk_ends`** puts this together with what the lines are, **`AreLines`**, and finds that the ranges
of the last kind are the only ones with lines that are silently left out. -/

namespace ColdBoot

namespace CacheLines

/-- Bytes from the start of the first line to the end of the range. -/
def reach (vaddr len line : UInt32) : Nat := vaddr.toNat % line.toNat + len.toNat

/-- The line at `address` shares a byte with a range; both go round at the end of the address
space. -/
def Meets (vaddr len line address : UInt32) : Prop :=
  ∃ i < len.toNat, ∃ j < line.toNat, (vaddr.toNat + i) % 2 ^ 32 = (address.toNat + j) % 2 ^ 32

/-- A line of a range: aligned, and it meets the range. -/
structure IsLineOf (vaddr len line address : UInt32) : Prop where
  aligned : address.toNat % line.toNat = 0
  meets : Meets vaddr len line address

/-- All lines of a range, from its first one on. -/
structure AreLines (vaddr len line : UInt32) (seen : List UInt32) : Prop where
  /-- They are the lines of the range, and nothing else. -/
  mem_iff : ∀ address, address ∈ seen ↔ IsLineOf vaddr len line address
  /-- No line comes twice. -/
  nodup : seen.Nodup
  /-- There are as many as the reach fills, the last one maybe in part. -/
  length_eq : seen.length = if len = 0 then 0 else reach vaddr len line ⌈/⌉ line.toNat
  /-- They follow one another, modulo 2³². -/
  getElem_eq : ∀ (n : Nat) (lt : n < seen.length),
    seen[n].toNat = (vaddr.toNat - vaddr.toNat % line.toNat + n * line.toNat) % 2 ^ 32

/-! ### The lines of a range -/

section Lines

variable {line : UInt32} {k : Nat}

theorem line_pos (power : line.toNat = 2 ^ k) : 0 < line.toNat := by
  rw [power]
  exact Nat.two_pow_pos k

/-- The address space has a last line, and it is not the first one. -/
theorem exists_last (power : line.toNat = 2 ^ k) :
    ∃ last, 0 < last ∧ (last + 1) * line.toNat = 2 ^ 32 := by
  have lt := line.toNat_lt
  rw [power] at lt ⊢
  have lt : k < 32 := (Nat.pow_lt_pow_iff_right (by decide)).1 lt
  have two : 2 ^ 1 ≤ 2 ^ (32 - k) := Nat.pow_le_pow_right (by decide) (by omega)
  refine ⟨2 ^ (32 - k) - 1, by omega, ?_⟩
  rw [Nat.sub_add_cancel (by omega), ← Nat.pow_add, Nat.sub_add_cancel (Nat.le_of_lt lt)]

theorem line_dvd (power : line.toNat = 2 ^ k) : line.toNat ∣ 2 ^ 32 := by
  obtain ⟨last, -, turn⟩ := exists_last power
  exact Dvd.intro_left (last + 1) turn

/-- The line `n` steps after the first one is a line of the range, if it starts within reach. -/
theorem isLineOf_ofNat (power : line.toNat = 2 ^ k) {vaddr len : UInt32} (nonempty : len ≠ 0) {n : Nat}
    (within : n * line.toNat < reach vaddr len line) :
    IsLineOf vaddr len line
      (UInt32.ofNat (vaddr.toNat - vaddr.toNat % line.toNat + n * line.toNat)) := by
  have positive := line_pos power
  have below := Nat.mod_lt vaddr.toNat positive
  have le := Nat.mod_le vaddr.toNat line.toNat
  have filled : len.toNat ≠ 0 := fun zero => nonempty (UInt32.toNat_inj.1 zero)
  unfold reach at within
  refine ⟨?_, ?_⟩
  · rw [UInt32.toNat_ofNat', Nat.mod_mod_of_dvd _ (line_dvd power), Nat.add_mul_mod_self_right]
    exact Nat.sub_mod_eq_zero_of_mod_eq (Nat.mod_mod _ _).symm
  · unfold Meets
    rw [UInt32.toNat_ofNat']
    -- the first line may start in front of the range, the others start in it
    by_cases first : n = 0
    · refine ⟨0, by omega, vaddr.toNat % line.toNat, below, ?_⟩
      rw [first]
      omega
    · have step : line.toNat ≤ n * line.toNat := Nat.le_mul_of_pos_left _ (Nat.pos_of_ne_zero first)
      exact ⟨n * line.toNat - vaddr.toNat % line.toNat, by omega, 0, positive, by omega⟩

/-- Every line of a range is some steps after the first one, and starts within reach. -/
theorem exists_of_isLineOf (power : line.toNat = 2 ^ k) {vaddr len address : UInt32}
    (isLine : IsLineOf vaddr len line address) :
    ∃ n, n * line.toNat < reach vaddr len line ∧
      address = UInt32.ofNat (vaddr.toNat - vaddr.toNat % line.toNat + n * line.toNat) := by
  obtain ⟨aligned, i, hi, j, hj, meet⟩ := isLine
  have le := Nat.mod_le vaddr.toNat line.toNat
  -- the shared byte, counted from the first line, tells the line and the place in it
  let byte := vaddr.toNat % line.toNat + i
  have parts : byte / line.toNat * line.toNat + byte % line.toNat = byte := Nat.div_add_mod' _ _
  have aligned' : (vaddr.toNat - vaddr.toNat % line.toNat + byte / line.toNat * line.toNat) %
      line.toNat = 0 := by
    rw [Nat.add_mul_mod_self_right]
    exact Nat.sub_mod_eq_zero_of_mod_eq (Nat.mod_mod _ _).symm
  have split : vaddr.toNat + i =
      vaddr.toNat - vaddr.toNat % line.toNat + byte / line.toNat * line.toNat +
        byte % line.toNat := by
    show _ = vaddr.toNat - vaddr.toNat % line.toNat + _ + _
    omega
  have place : byte % line.toNat = j := by
    have same := congrArg (· % line.toNat) meet
    simp only [Nat.mod_mod_of_dvd _ (line_dvd power)] at same
    rw [split, Nat.add_mod, aligned', Nat.add_mod address.toNat, aligned, Nat.zero_add,
      Nat.zero_add, Nat.mod_mod, Nat.mod_mod, Nat.mod_mod, Nat.mod_eq_of_lt hj] at same
    exact same
  refine ⟨byte / line.toNat, ?_, ?_⟩
  · show _ < vaddr.toNat % line.toNat + len.toNat
    omega
  · rw [split, place] at meet
    rw [← UInt32.toNat_inj, UInt32.toNat_ofNat', ← Nat.mod_eq_of_lt address.toNat_lt]
    exact (Nat.ModEq.add_right_cancel' j meet).symm

/-- **The addresses of a walk are the lines of its range**, if it does not reach further than
2³². -/
theorem areLines_addresses (power : line.toNat = 2 ^ k) {vaddr len : UInt32}
    (near : lineCount vaddr len line * line.toNat ≤ 2 ^ 32) :
    AreLines vaddr len line (addresses vaddr len line) where
  mem_iff address := by
    have positive := line_pos power
    simp only [addresses, List.mem_map, List.mem_range, lt_lineCount_iff positive]
    constructor
    · rintro ⟨n, ⟨nonempty, within⟩, rfl⟩
      exact isLineOf_ofNat power nonempty within
    · intro isLine
      obtain ⟨i, hi, -⟩ := isLine.meets
      obtain ⟨n, within, eq⟩ := exists_of_isLineOf power isLine
      refine ⟨n, ⟨?_, within⟩, eq.symm⟩
      rintro rfl
      exact absurd hi (Nat.not_lt_zero i)
  nodup := by
    have positive := line_pos power
    -- two steps to one address are a whole turn apart, and no walk is so long
    have short {n : Nat} (member : n ∈ List.range (lineCount vaddr len line)) :
        n * line.toNat < 2 ^ 32 :=
      Nat.lt_of_lt_of_le (Nat.mul_lt_mul_of_pos_right (List.mem_range.1 member) positive) near
    refine List.Nodup.map_on (fun n hn m hm same => ?_) List.nodup_range
    rw [← UInt32.toNat_inj, UInt32.toNat_ofNat', UInt32.toNat_ofNat'] at same
    have turn : n * line.toNat % 2 ^ 32 = m * line.toNat % 2 ^ 32 :=
      Nat.ModEq.add_left_cancel' _ same
    rw [Nat.mod_eq_of_lt (short hn), Nat.mod_eq_of_lt (short hm)] at turn
    exact Nat.eq_of_mul_eq_mul_right positive turn
  length_eq := by
    rw [addresses, List.length_map, List.length_range, lineCount]
    rfl
  getElem_eq n lt := by
    simp only [addresses, List.getElem_map, List.getElem_range, UInt32.toNat_ofNat']

end Lines

/-! ### The ways a walk ends -/

namespace Covers

variable {walk : CacheLines} {vaddr len line : UInt32} {k : Nat}

/-- A walk whose last line is the last one before it would go round breaks off behind it. -/
theorem lasts_of_close (covers : walk.Covers vaddr len line) (power : line.toNat = 2 ^ k)
    (two : 2 ≤ line.toNat) (close : 2 ^ 32 < reach vaddr len line + line.toNat)
    (near : reach vaddr len line < 2 ^ 32) :
    lineCount vaddr len line * line.toNat = 2 ^ 32 ∧
      walk.Lasts (lineCount vaddr len line) (.faulted .multiplyOverflow) := by
  have positive : 0 < line.toNat := by omega
  have ends := covers.isOver_iff positive near
  -- the last line of a turn starts within reach, and the turn's end does not
  have whole : lineCount vaddr len line * line.toNat = 2 ^ 32 := by
    obtain ⟨last, lastPos, turn⟩ := exists_last power
    have below := Nat.mod_lt vaddr.toNat positive
    have step : line.toNat ≤ last * line.toNat := Nat.le_mul_of_pos_left _ lastPos
    unfold reach at close near
    rw [Nat.succ_mul] at turn
    have filled : len ≠ 0 := by
      rintro rfl
      rw [UInt32.toNat_zero] at close
      omega
    have sees : last < lineCount vaddr len line := (lt_lineCount_iff positive).2 ⟨filled, by omega⟩
    have more : ¬ last + 1 < lineCount vaddr len line := by
      rw [lt_lineCount_iff positive, Nat.succ_mul]
      omega
    rw [show lineCount vaddr len line = last + 1 by omega, Nat.succ_mul, turn]
  have few : lineCount vaddr len line * 2 ≤ lineCount vaddr len line * line.toNat :=
    Nat.mul_le_mul_left _ two
  refine ⟨whole, lasts_faulted (by omega) (by rw [covers.line_eq, whole]) fun n lt => ?_⟩
  rw [ends]
  exact Nat.not_le.2 lt

/-- A range that reaches to the end of a turn is taken for an empty one. -/
theorem lasts_of_turn (covers : walk.Covers vaddr len line)
    (turn : reach vaddr len line = 2 ^ 32) : walk.Lasts 0 .finished := by
  refine lasts_finished (by decide) (by omega) (fun n lt => absurd lt (Nat.not_lt_zero n)) (.inr ?_)
  have span := covers.span_eq
  unfold reach at turn
  rw [turn] at span
  omega

/-- A range that reaches further is taken for the part of its first line in front of it. -/
theorem lasts_of_beyond (covers : walk.Covers vaddr len line) (power : line.toNat = 2 ^ k)
    (two : 2 ≤ line.toNat) (beyond : 2 ^ 32 < reach vaddr len line) :
    walk.Lasts 1 .finished := by
  -- the span has lost a turn, and what is left of it is shorter than a line
  have span := covers.span_eq
  have line_lt := line.toNat_lt
  have len_lt := len.toNat_lt
  have below := Nat.mod_lt vaddr.toNat (show line.toNat > 0 by omega)
  unfold reach at beyond
  refine lasts_finished (by decide) (by rw [covers.line_eq]; omega) (fun n lt => ?_) (.inr ?_)
  · obtain rfl : n = 0 := by omega
    have filled : len ≠ 0 := by
      rintro rfl
      rw [UInt32.toNat_zero] at beyond
      omega
    unfold IsOver
    rw [covers.isEmpty_eq, decide_eq_true_eq]
    rintro (empty | past)
    · exact filled empty
    · omega
  · rw [covers.line_eq]
    omega

end Covers

/-- What a walk sees of its range and how it ends, by the reach of the range. -/
structure Outcome (vaddr len line : UInt32) (seen : List UInt32) (ending : Ending) : Prop where
  /-- With room for one more line the walk comes to the end of its range. -/
  roomy : reach vaddr len line + line.toNat ≤ 2 ^ 32 →
    AreLines vaddr len line seen ∧ ending = .finished
  /-- With less room it breaks off behind its last line. -/
  close : 2 ^ 32 < reach vaddr len line + line.toNat → reach vaddr len line < 2 ^ 32 →
    AreLines vaddr len line seen ∧ ending = .faulted .multiplyOverflow
  /-- A range that reaches to 2³² is taken for an empty one. -/
  turn : reach vaddr len line = 2 ^ 32 → seen = [] ∧ ending = .finished
  /-- A range that reaches further is taken for a part of its first line. -/
  beyond : 2 ^ 32 < reach vaddr len line →
    seen = [UInt32.ofNat (vaddr.toNat - vaddr.toNat % line.toNat)] ∧ ending = .finished

/-- Every walk ends, in one of these ways. -/
theorem Covers.exists_outcome {walk : CacheLines} {vaddr len line : UInt32} {k : Nat}
    (covers : walk.Covers vaddr len line) (power : line.toNat = 2 ^ k) (two : 2 ≤ line.toNat) :
    ∃ count ending, count < 2 ^ 32 ∧ walk.Lasts count ending ∧
      Outcome vaddr len line (walk.firstLines count) ending := by
  have bound : lineCount vaddr len line * line.toNat ≤
      reach vaddr len line + line.toNat - 1 := lineCount_mul_le vaddr len line
  have few : lineCount vaddr len line * 2 ≤ lineCount vaddr len line * line.toNat :=
    Nat.mul_le_mul_left _ two
  by_cases near : reach vaddr len line < 2 ^ 32
  · by_cases fits : reach vaddr len line + line.toNat ≤ 2 ^ 32
    · refine ⟨_, _, by omega, covers.lasts two fits, fun _ => ⟨?_, rfl⟩, ?_, ?_, ?_⟩
      · rw [covers.firstLines_eq]
        exact areLines_addresses power (by omega)
      all_goals omega
    · obtain ⟨whole, lasts⟩ := covers.lasts_of_close power two (by omega) near
      refine ⟨_, _, by omega, lasts, ?_, fun _ _ => ⟨?_, rfl⟩, ?_, ?_⟩
      · omega
      · rw [covers.firstLines_eq]
        exact areLines_addresses power (Nat.le_of_eq whole)
      all_goals omega
  · by_cases turn : reach vaddr len line = 2 ^ 32
    · refine ⟨_, _, by decide, covers.lasts_of_turn turn, ?_, ?_, fun _ => ⟨rfl, rfl⟩, ?_⟩
      all_goals omega
    · refine ⟨_, _, by decide, covers.lasts_of_beyond power two (by omega), ?_, ?_, ?_,
        fun _ => ⟨?_, rfl⟩⟩
      · omega
      · omega
      · omega
      · show [UInt32.ofNat (walk.first.toNat + 0 * walk.line.toNat)] = _
        rw [covers.first_eq, Nat.zero_mul, Nat.add_zero]

/-- **Lines are silently left out** exactly if the range reaches to 2³² or further. -/
theorem Outcome.left_out_iff {vaddr len line : UInt32} {seen : List UInt32} {ending : Ending}
    {k : Nat} (outcome : Outcome vaddr len line seen ending) (power : line.toNat = 2 ^ k)
    (two : 2 ≤ line.toNat) :
    (ending = .finished ∧ ∃ address, IsLineOf vaddr len line address ∧ address ∉ seen) ↔
      2 ^ 32 ≤ reach vaddr len line := by
  constructor
  · rintro ⟨finished, address, isLine, missing⟩
    refine Nat.le_of_not_lt fun near => ?_
    by_cases fits : reach vaddr len line + line.toNat ≤ 2 ^ 32
    · exact missing (((outcome.roomy fits).1.mem_iff address).2 isLine)
    · obtain ⟨-, faulted⟩ := outcome.close (by omega) near
      rw [finished] at faulted
      cases faulted
  · intro far
    have below := Nat.mod_lt vaddr.toNat (line_pos power)
    have line_lt := line.toNat_lt
    have filled : len ≠ 0 := by
      rintro rfl
      rw [reach, UInt32.toNat_zero] at far
      omega
    by_cases turn : reach vaddr len line = 2 ^ 32
    -- nothing is seen, so the first line is left out
    · obtain ⟨rfl, finished⟩ := outcome.turn turn
      exact ⟨finished, _, isLineOf_ofNat power filled (n := 0) (by omega), List.not_mem_nil⟩
    · obtain ⟨rfl, finished⟩ := outcome.beyond (by omega)
      -- the second line is one of the range as well
      refine ⟨finished, _, isLineOf_ofNat power filled (n := 1) (by omega), ?_⟩
      rw [List.mem_singleton, ← UInt32.toNat_inj, UInt32.toNat_ofNat', UInt32.toNat_ofNat',
        Nat.one_mul]
      omega

/-- **What a walk over cache lines sees, how it ends, and that the operations on ranges go along
with it.** -/
theorem walk_ends {line : UInt32} {k : Nat} (power : line.toNat = 2 ^ k) (two : 2 ≤ line.toNat)
    (vaddr len : UInt32) :
    ∃ walk seen ending,
      ofRange vaddr len line = .ok walk ∧ walk.take maxVisits = (seen.toArray, ending) ∧
      Outcome vaddr len line seen ending ∧
      ((ending = .finished ∧ ∃ address, IsLineOf vaddr len line address ∧ address ∉ seen) ↔
        2 ^ 32 ≤ reach vaddr len line) ∧
      (line = dataCacheLine →
        Cpu.writeBackRange vaddr len = Cpu.onLines .writeBackData seen ending ∧
        Cpu.invalidateDataRange vaddr len = Cpu.onLines .invalidateData seen ending) ∧
      (line = instructionCacheLine →
        Cpu.invalidateInstructionRange vaddr len =
          Cpu.onLines .invalidateInstruction seen ending) := by
  obtain ⟨walk, covers⟩ := exists_covers power vaddr len
  obtain ⟨count, ending, few, lasts, outcome⟩ := covers.exists_outcome power two
  have along (operation : CacheOperation) := Cpu.cacheRange_eq_onLines operation covers lasts few
  refine ⟨walk, walk.firstLines count, ending, covers.eq, lasts.take_eq few, outcome,
    outcome.left_out_iff power two, ?_, ?_⟩
  · rintro rfl
    exact ⟨along .writeBackData, along .invalidateData⟩
  · rintro rfl
    exact along .invalidateInstruction

/-- A range of three lines that goes round at the end of the address space is written back whole. -/
theorem write_back_round_turn :
    ∃ seen, AreLines 0xFFFFFFF8 0x20 dataCacheLine seen ∧
      Cpu.writeBackRange 0xFFFFFFF8 0x20 = Cpu.onLines .writeBackData seen .finished := by
  obtain ⟨walk, seen, ending, -, -, outcome, -, data, -⟩ :=
    walk_ends (show dataCacheLine.toNat = 2 ^ 4 from rfl) (by decide) 0xFFFFFFF8 0x20
  obtain ⟨lines, rfl⟩ := outcome.roomy (by decide)
  exact ⟨seen, lines, (data rfl).1⟩

end CacheLines

end ColdBoot
