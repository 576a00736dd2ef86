import ColdBoot.Proofs.InstructionPath

/-! # Jumping from the exception vector

A jump holds 26 bits of its target. The two low ones are lost because it goes to whole words, and
the four high ones because it stays in the 256 MB of its delay slot, so a trampoline leads to its
target only if that is a word in the vector's part of the cached window.

* **`Trampoline.leadsTo_ofTarget`** – where a trampoline leads;
* **`Trampoline.landing_eq_iff`** – the targets that are reached exactly;
* **`Trampoline.plays_install`** – the accesses that installing makes;
* **`Trampoline.enters_of_install`** – the jump that is fetched from then on, and where it leads;
* **`Trampoline.install_jumps`** – a vector that was patched leads where it was told, and nothing
  else was done. -/

namespace ColdBoot

open Hardware Program

/-! ### Shifts and masks -/

/-- Taking a field out and putting it back leaves its bits alone. -/
theorem shiftRight_and_shiftLeft (word mask places : UInt32) :
    ((word >>> places) &&& mask) <<< places = word &&& (mask <<< places) := by
  apply UInt32.eq_of_toBitVec_eq
  ext i inside
  by_cases low : i < places.toNat % 32
  · simp [low]
  · simp [low, Nat.add_sub_cancel' (Nat.le_of_not_lt low), inside]

/-- The low bits of a word are a remainder. -/
theorem toNat_and_mask (word : UInt32) {mask : UInt32} (width : Nat)
    (low : mask.toNat = 2 ^ width - 1) : (word &&& mask).toNat = word.toNat % 2 ^ width := by
  rw [UInt32.toNat_and, low, Nat.and_two_pow_sub_one_eq_mod]

/-- A word in the high half of a doubleword. -/
theorem high_toUInt64_shiftLeft (word : UInt32) :
    (word.toUInt64 <<< 32 >>> 32).toUInt32 = word := by
  apply UInt32.eq_of_toBitVec_eq
  refine BitVec.eq_of_getLsbD_eq fun i inside => ?_
  have fits : 32 + i < 64 := by omega
  have high : ¬ 32 + i < 32 := by omega
  have short : i < 64 := by omega
  simp [inside, fits, high, short]

/-- Nothing is in the low half. -/
theorem low_toUInt64_shiftLeft (word : UInt32) : (word.toUInt64 <<< 32).toUInt32 = 0 := by
  apply UInt32.eq_of_toBitVec_eq
  ext i inside
  simp

namespace Trampoline

/-- The 26 bits of a target that a jump holds. -/
def field (target : UInt32) : UInt32 := (target >>> 2) &&& targetMask

theorem toNat_field (target : UInt32) : (field target).toNat = target.toNat / 4 % 2 ^ 26 := by
  rw [field, toNat_and_mask _ 26 rfl, UInt32.toNat_shiftRight, Nat.shiftRight_eq_div_pow]
  rfl

theorem toNat_field_lt (target : UInt32) : (field target).toNat < 2 ^ 26 := by
  rw [toNat_field]
  exact Nat.mod_lt _ (by decide)

/-- In a shifted field the two low bits of the target are clear, and so are its four high bits. -/
theorem field_shiftLeft (target : UInt32) : field target <<< 2 = target &&& 0x0FFFFFFC :=
  shiftRight_and_shiftLeft target targetMask 2

theorem toNat_field_shiftLeft (target : UInt32) :
    (field target <<< 2).toNat = 4 * (field target).toNat := by
  have lt := toNat_field_lt target
  rw [UInt32.toNat_shiftLeft, Nat.shiftLeft_eq, Nat.mod_eq_of_lt]
  · exact Nat.mul_comm _ _
  · show _ * 4 < 2 ^ 32
    omega

/-! ### The two words -/

theorem instruction_ofTarget (target : UInt32) :
    (ofTarget target).instruction = jumpOpcode ||| field target :=
  high_toUInt64_shiftLeft _

/-- The delay slot is empty. -/
theorem word_ofTarget_low (target : UInt32) : (ofTarget target).word.toUInt32 = 0 :=
  low_toUInt64_shiftLeft _

theorem toNat_instruction_ofTarget (target : UInt32) :
    (ofTarget target).instruction.toNat = 2 ^ 27 + (field target).toNat := by
  have lt := toNat_field_lt target
  rw [instruction_ofTarget, UInt32.toNat_or]
  exact (Nat.two_pow_add_eq_or_of_lt (show _ < 2 ^ 27 by omega) 1).symm

/-- The operation code of a jump. -/
theorem opcode_ofTarget (target : UInt32) :
    (ofTarget target).instruction >>> 26 = Instruction.jumpCode := by
  have lt := toNat_field_lt target
  rw [← UInt32.toNat_inj, UInt32.toNat_shiftRight, toNat_instruction_ofTarget,
    Nat.shiftRight_eq_div_pow]
  show (2 ^ 27 + _) / 2 ^ 26 = 2
  omega

theorem instruction_ofTarget_and (target : UInt32) :
    (ofTarget target).instruction &&& targetMask = field target := by
  have lt := toNat_field_lt target
  rw [← UInt32.toNat_inj, toNat_and_mask _ 26 rfl, toNat_instruction_ofTarget]
  omega

/-- **A trampoline is a jump** with nothing in its delay slot. -/
theorem leadsTo_ofTarget (target place : UInt32) :
    (ofTarget target).leadsTo? place =
      some (Instruction.destination (place + 4) (field target)) := by
  have jump : Instruction.decode? ((ofTarget target).fetched 0) = some (.jump (field target)) := by
    show Instruction.decode? (ofTarget target).instruction = _
    rw [Instruction.decode?, if_pos (opcode_ofTarget target)]
    exact congrArg (fun field => some (Instruction.jump field)) (instruction_ofTarget_and target)
  have nothing : Instruction.decode? ((ofTarget target).fetched 4) = some .nothing := by
    show Instruction.decode? (ofTarget target).word.toUInt32 = _
    rw [word_ofTarget_low]
    rfl
  rw [leadsTo?, jump, nothing]

/-! ### Where it lands -/

/-- The target as far as a jump from the general exception vector can reach it. -/
def landing (target : UInt32) : UInt32 := 0x80000000 ||| (target &&& 0x0FFFFFFC)

theorem destination_field (target : UInt32) :
    Instruction.destination 0x80000184 (field target) = landing target := by
  rw [Instruction.destination, field_shiftLeft]
  rfl

theorem toNat_landing (target : UInt32) :
    (landing target).toNat = 2 ^ 31 + 4 * (field target).toNat := by
  have lt := toNat_field_lt target
  rw [landing, ← field_shiftLeft, UInt32.toNat_or, toNat_field_shiftLeft]
  exact (Nat.two_pow_add_eq_or_of_lt (show _ < 2 ^ 31 by omega) 1).symm

/-- **The targets that are reached**: the words in the first 256 MB of the cached window. -/
theorem landing_eq_iff (target : UInt32) :
    landing target = target ↔ 4 ∣ target.toNat ∧ 0x80000000 ≤ target ∧ target ≤ 0x8FFFFFFF := by
  have whole := toNat_field target
  have lt : target.toNat < 2 ^ 32 := target.toNat_lt
  rw [← UInt32.toNat_inj, toNat_landing, UInt32.le_iff_toNat_le, UInt32.le_iff_toNat_le]
  show _ ↔ _ ∧ 2147483648 ≤ _ ∧ _ ≤ 2415919103
  omega

/-- What a trampoline says of its target are the low 28 bits of where it lands. -/
theorem target_ofTarget (target : UInt32) :
    (ofTarget target).target = landing target &&& 0x0FFFFFFF := by
  have lt := toNat_field_lt target
  rw [Trampoline.target, instruction_ofTarget_and, ← UInt32.toNat_inj, toNat_field_shiftLeft,
    toNat_and_mask _ 28 rfl, toNat_landing]
  omega

/-- Of a pointer only the low word counts. -/
theorem ofPointer_eq {entry : UInt64} {target : UInt32}
    (low : entry.toNat % 2 ^ 32 = target.toNat) : ofPointer entry = ofTarget target := by
  have same : entry.toUInt32 = target := by
    rw [← UInt32.toNat_inj, UInt64.toNat_toUInt32]
    exact low
  rw [ofPointer, same]

/-! ### What installing does -/

/-- The accesses that patch the vector of a slot. -/
def patching (trampoline : Trampoline) (slot : VectorSlot) : List Event :=
  [⟨.storeDoubleword slot.uncached trampoline.word, ()⟩,
    ⟨.cache .invalidateInstruction slot.cached, ()⟩]

/-- **Installing** stores the doubleword, drops one line, prints a record and does nothing else. -/
theorem plays_install (config : Config) (trampoline : Trampoline) (slot : VectorSlot) :
    (trampoline.install config slot).Plays
      (trampoline.patching slot ++ trampoline.installedRecord.printed config.logFilter) () := by
  have write := Plays.perform (.storeDoubleword slot.uncached trampoline.word) () fun _ => rfl
  have drop := Plays.perform (.cache .invalidateInstruction slot.cached) () fun _ => rfl
  exact write.bind (drop.bind (trampoline.installedRecord.plays_emit config.logFilter))

/-- What is fetched at the general exception vector from then on, and where it leads. -/
theorem enters_of_install {config : Config} {target : UInt32} {s t : InstructionPath}
    {moments : List (Moment InstructionPath)}
    (execution : (InstructionPath.hardware generalExceptionVector.toNat).Execution
      ((ofTarget target).install config .generalException) s moments (.returned ()) t) :
    t.fetch 0x80000180 >>> 26 = 2 ∧ t.fetch 0x80000184 = 0 ∧
      t.Enters 0x80000180 (landing target) := by
  have line : ∀ k < 8, InstructionPath.lineOf (placeOf 0x80000180 + k) =
      InstructionPath.lineOf (placeOf VectorSlot.generalException.cached) := by decide
  have patched : t.Patched (placeOf 0x80000180) (ofTarget target).word :=
    patched_of_install (by decide) (by decide) line execution
  refine ⟨?_, ?_, patched.enters (by decide) ?_⟩
  · rw [patched.fetch_high rfl]
    exact opcode_ofTarget target
  · rw [patched.fetch_low (by decide)]
    exact word_ofTarget_low target
  · rw [leadsTo_ofTarget]
    exact congrArg some (destination_field target)

/-- **The patched vector jumps where it was told.** On any machine whose vector is the general
exception vector, with whatever lines held before, installing a trampoline there returns, and from
then on the processor that enters the vector fetches a jump, and nothing in its delay slot, that leads
to the target's bits 2 to 27 in the first part of the cached window. That is the target itself exactly
for the words there. The trampoline tells the low 28 bits of it, and of a 64-bit pointer only the low
word counts. For any slot, and wherever the vector is, installing stores the doubleword through the
slot's one address and then drops the line of its other one, and all it does besides is to print a
record. -/
theorem install_jumps (config : Config) (target : UInt32) :
    let trampoline := ofTarget target
    let landing := 0x80000000 ||| (target &&& 0x0FFFFFFC)
    let path := InstructionPath.hardware generalExceptionVector.toNat
    (∀ s, ∃ moments t, path.Execution (trampoline.install config .generalException) s moments
      (.returned ()) t) ∧
    (∀ {s moments t}, path.Execution (trampoline.install config .generalException) s moments
      (.returned ()) t →
        t.fetch 0x80000180 >>> 26 = 2 ∧ t.fetch 0x80000184 = 0 ∧ t.Enters 0x80000180 landing) ∧
    (landing = target ↔ 4 ∣ target.toNat ∧ 0x80000000 ≤ target ∧ target ≤ 0x8FFFFFFF) ∧
    trampoline.target = landing &&& 0x0FFFFFFF ∧
    (∀ entry : UInt64, entry.toNat % 2 ^ 32 = target.toNat → ofPointer entry = trampoline) ∧
    (∀ event ∈ trampoline.installedRecord.printed config.logFilter, Viewer.InWindow event) ∧
    ∀ slot, (trampoline.install config slot).Plays
        (trampoline.patching slot ++ trampoline.installedRecord.printed config.logFilter) () ∧
      ∀ {a s moments t}, (InstructionPath.hardware a).Execution (trampoline.install config slot) s
        moments (.returned ()) t → ∃ met between, (InstructionPath.hardware a).MovesTo s met ∧
          (InstructionPath.hardware a).MovesTo (met.stored slot.uncached trampoline.word) between ∧
          (InstructionPath.hardware a).MovesTo (between.dropped slot.cached) t := by
  intro trampoline landing path
  refine ⟨fun s => ?_, enters_of_install, landing_eq_iff target, target_ofTarget target,
    fun entry => ofPointer_eq, LogRecord.inWindow_printed _ _, fun slot =>
      ⟨plays_install config trampoline slot, effects_of_install⟩⟩
  obtain ⟨moments, _, t, -, execution⟩ := (InstructionPath.live _).exists_execution
    (finishable_install config trampoline .generalException) s
  exact ⟨moments, t, execution⟩

/-- Every line is held, and holds something else than RDRAM has. A pointer with a high word, to an
address that is no word and lies outside the window's first part, is patched in: the vector leads to
the word below it in that part. -/
theorem install_jumps_through_stale_lines :
    let trampoline := ofPointer 0xFFFFFFFFA0123459
    let stale : InstructionPath := ⟨fun _ => 0, fun _ => some fun _ => 0xFF⟩
    trampoline.target = 0x00123458 ∧ ∃ moments t, (InstructionPath.hardware 0x180).Execution
      (trampoline.install ⟨true, false, none, ⟨some .debug⟩⟩ .generalException) stale moments
        (.returned ()) t ∧ t.Enters 0x80000180 0x80123458 := by
  obtain ⟨returns, leads, -, target, low, -⟩ :=
    install_jumps ⟨true, false, none, ⟨some .debug⟩⟩ 0xA0123459
  obtain ⟨moments, t, execution⟩ := returns ⟨fun _ => 0, fun _ => some fun _ => 0xFF⟩
  have word : ofPointer 0xFFFFFFFFA0123459 = ofTarget 0xA0123459 := low _ (by decide)
  obtain ⟨-, -, enters⟩ := leads execution
  rw [word]
  exact ⟨target, moments, t, execution, enters⟩

end Trampoline

end ColdBoot
