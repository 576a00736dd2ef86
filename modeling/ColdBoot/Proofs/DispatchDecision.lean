import ColdBoot.Proofs.VblankService

/-! # What a dispatch decides

Four words meet in a dispatch: the cause, the pending lines, the enabled lines and, where nothing is
served, the status. Six bits of the cause count and six of each word of lines; the others are
reserved, or belong to other things. This is the decision in terms of the bits themselves, for every
value of the words.

* **`Cause.fromDevice_iff`** – the exceptions that are looked into;
* **`InterruptSource.first?_eq_some_iff`** – the first source is the lowest bit that is set;
* **`Interrupt.handles_iff`** – the exceptions that are served;
* **`Interrupt.dispatch_exact`** – with the accesses that are made, and what is left as it was. -/

namespace ColdBoot

open Flags Hardware

/-! ### Bits -/

namespace Flags

/-- Bit `k` is the lowest one that is set. -/
structure Lowest (a : Flags) (k : Nat) : Prop where
  set : a.bit k = true
  clear : ∀ i < k, a.bit i = false

end Flags

namespace BitField

/-- The bits of a field's largest value. -/
theorem bit_mask {field : BitField} (narrow : field.width.toNat < 32) (i : Nat) :
    Flags.bit field.mask i = decide (i < field.width.toNat) := by
  show field.mask.toNat.testBit i = _
  rw [field.toNat_mask narrow, Nat.testBit_two_pow_sub_one]

/-- A field holds 0 if its bits are clear. -/
theorem get_eq_zero_iff (field : BitField) (low : field.low.toNat < 32)
    (narrow : field.width.toNat < 32) (word : UInt32) :
    field.get word = 0 ↔
      ∀ i < field.width.toNat, Flags.bit word (field.low.toNat + i) = false := by
  have bit_get (i : Nat) : Flags.bit (field.get word) i =
      (Flags.bit word (field.low.toNat + i) && decide (i < field.width.toNat)) := by
    rw [← bit_mask narrow, ← bit_shiftRight word i low, ← bit_inter]
    rfl
  constructor
  · intro zero i lt
    have clear := bit_get i
    rw [zero, bit_zero, decide_eq_true lt, Bool.and_true] at clear
    exact clear.symm
  · intro clear
    refine eq_of_bit fun i => ?_
    rw [bit_get, bit_zero]
    by_cases lt : i < field.width.toNat
    · rw [clear i lt, Bool.false_and]
    · rw [decide_eq_false lt, Bool.and_false]

end BitField

/-! ### The four words -/

namespace Cause

/-- The exception is an interrupt, and the line that all devices share is raised: exception code 0,
and interrupt line 2. -/
structure FromDevice (cause : Cause) : Prop where
  code : ∀ i, 2 ≤ i → i ≤ 6 → Flags.bit cause.word i = false
  line : Flags.bit cause.word 10 = true

/-- These are the exceptions that are looked into. -/
theorem fromDevice_iff (cause : Cause) :
    cause.FromDevice ↔ cause.isInterrupt = true ∧ cause.deviceLineRaised = true := by
  have line : cause.deviceLineRaised = Flags.bit cause.word 10 := by
    have shifted := bit_shiftRight cause.word 0 (show (10 : UInt32).toNat < 32 by decide)
    rw [← contains_of_single (bit_two_pow (show 0 < 32 by decide))] at shifted
    exact shifted
  have code : cause.isInterrupt = true ↔ ∀ i < 5, Flags.bit cause.word (2 + i) = false := by
    rw [isInterrupt, decide_eq_true_eq]
    exact BitField.get_eq_zero_iff ⟨2, 5⟩ (by decide) (by decide) cause.word
  rw [line, code]
  constructor
  · rintro ⟨clear, raised⟩
    exact ⟨fun i lt => clear (2 + i) (by omega) (by omega), raised⟩
  · rintro ⟨clear, raised⟩
    refine ⟨fun i low high => ?_, raised⟩
    have clear := clear (i - 2) (by omega)
    rwa [Nat.add_sub_cancel' low] at clear

end Cause

namespace InterruptSource

/-- Sources are listed by their lines. -/
theorem index_getElem_all {i : Nat} (lt : i < all.length) : all[i].index.toNat = i := by
  revert i
  decide

theorem exists_getElem_all (source : InterruptSource) :
    ∃ lt : source.index.toNat < all.length, all[source.index.toNat] = source := by
  cases source <;> exact ⟨by decide, rfl⟩

/-- **The first source** is the one whose line is the lowest bit that is set. -/
theorem first?_eq_some_iff (pending : Flags) (source : InterruptSource) :
    first? pending = some source ↔ pending.Lowest source.index.toNat := by
  rw [first?, List.find?_eq_some_iff_getElem]
  simp only [contains_of_single (bit_line _), Bool.not_eq_true']
  -- in the list of sources, in front of one stand those with the lower lines
  constructor
  · rintro ⟨set, i, lt, rfl, clear⟩
    refine ⟨set, fun j below => ?_⟩
    rw [index_getElem_all lt] at below
    have clear := clear j below
    rwa [index_getElem_all] at clear
  · rintro ⟨set, clear⟩
    obtain ⟨lt, found⟩ := exists_getElem_all source
    refine ⟨set, _, lt, found, fun j below => ?_⟩
    rw [index_getElem_all]
    exact clear j below

end InterruptSource

/-! ### The decision -/

namespace Chassis

variable {δ : Type} {devices : Devices δ} {s : Chassis δ} {cause : Cause}

/-- Reserved bits are no lines. -/
theorem asking_eq (s : Chassis δ) : s.asking = s.pending &&& s.controls.lines &&& 0x3F := by
  have lines : Lines.all = 0x3F := by decide
  refine eq_of_bit fun i => ?_
  show ((s.pending.inter Lines.all).inter (s.controls.lines.inter Lines.all)).bit i =
    ((s.pending.inter s.controls.lines).inter 0x3F).bit i
  -- reserved bits are taken off both words there, and off what they share here
  rw [← lines]
  simp only [bit_inter]
  cases s.pending.bit i <;> cases Lines.all.bit i <;> simp

/-- The video interface comes first. -/
theorem first_eq_vi_iff : InterruptSource.first? s.asking = some .vi ↔
    Flags.Lowest (s.pending &&& s.controls.lines &&& 0x3F) 3 := by
  rw [InterruptSource.first?_eq_some_iff, asking_eq]
  exact Iff.rfl

theorem follows_of_lowest (device : cause.FromDevice)
    (lowest : Flags.Lowest (s.pending &&& s.controls.lines &&& 0x3F) 3) :
    (still devices).Follows (Interrupt.dispatch cause) s (s.looks ++ serving)
      (.returned (.handled .vi)) s.serviced := by
  obtain ⟨interrupt, line⟩ := cause.fromDevice_iff.1 device
  exact follows_handled interrupt line (first_eq_vi_iff.2 lowest)

theorem follows_of_not_lowest (device : cause.FromDevice)
    (other : ¬ Flags.Lowest (s.pending &&& s.controls.lines &&& 0x3F) 3) :
    (still devices).Follows (Interrupt.dispatch cause) s s.looks
      (.returned (.unhandled cause (s.pending &&& s.controls.lines &&& 0x3F))) s := by
  obtain ⟨interrupt, line⟩ := cause.fromDevice_iff.1 device
  rw [← asking_eq]
  exact follows_unhandled interrupt line fun first => other (first_eq_vi_iff.1 first)

theorem follows_of_not_fromDevice (other : ¬ cause.FromDevice) :
    (still devices).Follows (Interrupt.dispatch cause) s [] (.returned (.unhandled cause 0)) s :=
  follows_ignored fun both => other (cause.fromDevice_iff.2 both)

/-- What is not served is turned away. -/
theorem exists_follows_unhandled (devices : Devices δ) (s : Chassis δ)
    (other : ¬ (cause.FromDevice ∧ Flags.Lowest (s.pending &&& s.controls.lines &&& 0x3F) 3)) :
    ∃ events pending, (still devices).Follows (Interrupt.dispatch cause) s events
      (.returned (.unhandled cause pending)) s := by
  by_cases device : cause.FromDevice
  · exact ⟨_, _, follows_of_not_lowest device fun lowest => other ⟨device, lowest⟩⟩
  · exact ⟨_, _, follows_of_not_fromDevice device⟩

end Chassis

namespace Interrupt

open Chassis

variable {δ : Type} (devices : Devices δ) (s : Chassis δ)

/-- Something is served exactly if a device asks and the video line is the lowest of the enabled ones
that are pending. -/
theorem handles_iff (cause : Cause) :
    (∃ moments source t, (still devices).Execution (dispatch cause) s moments
        (.returned (.handled source)) t) ↔
      cause.FromDevice ∧ Flags.Lowest (s.pending &&& s.controls.lines &&& 0x3F) 3 := by
  constructor
  · rintro ⟨moments, source, t, execution⟩
    -- the one way that such a dispatch can take does not end like this
    by_contra other
    obtain ⟨events, pending, follows⟩ := exists_follows_unhandled devices s other
    cases ((follows.unique execution).2 nofun).2.1
  · rintro ⟨device, lowest⟩
    obtain ⟨moments, execution, -⟩ := (follows_of_lowest device lowest).exists_execution
    exact ⟨moments, .vi, s.serviced, execution⟩

/-- The handler returns exactly if something is served. -/
theorem returns_iff :
    (∃ moments t, (still devices).Execution handle s moments (.returned ()) t) ↔
      ∃ moments source t, (still devices).Execution (dispatch s.cause) s moments
        (.returned (.handled source)) t := by
  rw [handles_iff]
  constructor
  · rintro ⟨moments, t, execution⟩
    by_contra other
    obtain ⟨events, pending, follows⟩ := exists_follows_unhandled devices s other
    cases (((follows_handle_of_unhandled follows).unique execution).2 nofun).2.1
  · rintro ⟨device, lowest⟩
    obtain ⟨moments, execution, -⟩ :=
      (follows_handle_of_handled (follows_of_lowest device lowest)).exists_execution
    exact ⟨moments, s.serviced, execution⟩

/-- **A dispatch decides by the bits of four words, and touches nothing else.** -/
theorem dispatch_exact (cause : Cause) :
    let asking := s.pending &&& s.controls.lines &&& 0x3F
    ((∃ moments source t, (still devices).Execution (dispatch cause) s moments
        (.returned (.handled source)) t) ↔ cause.FromDevice ∧ Flags.Lowest asking 3) ∧
    (cause.FromDevice → Flags.Lowest asking 3 →
      (still devices).Follows (dispatch cause) s (s.looks ++ serving) (.returned (.handled .vi))
        s.serviced) ∧
    (cause.FromDevice → ¬ Flags.Lowest asking 3 →
      (still devices).Follows (dispatch cause) s s.looks (.returned (.unhandled cause asking)) s) ∧
    (¬ cause.FromDevice →
      (still devices).Follows (dispatch cause) s [] (.returned (.unhandled cause 0)) s) ∧
    ((∃ moments t, (still devices).Execution handle s moments (.returned ()) t) ↔
      ∃ moments source t, (still devices).Execution (dispatch s.cause) s moments
        (.returned (.handled source)) t) ∧
    (¬ (s.cause.FromDevice ∧ Flags.Lowest asking 3) → ∃ events pending,
      (still devices).Follows (dispatch s.cause) s events (.returned (.unhandled s.cause pending)) s ∧
      (still devices).Follows handle s (s.askingCause :: (events ++ s.masking)) (.stopped .halted)
        s.masked) := by
  refine ⟨handles_iff devices s cause, follows_of_lowest, follows_of_not_lowest,
    follows_of_not_fromDevice, returns_iff devices s, fun other => ?_⟩
  obtain ⟨events, pending, follows⟩ := exists_follows_unhandled devices s other
  exact ⟨events, pending, follows, follows_handle_of_unhandled follows⟩

/-- With every line pending and enabled the signal processor's comes first, and nothing is served;
with the lower ones quiet the video line is. -/
theorem dispatch_exact_crowded :
    let s := Console.crowded
    let quiet := s.raise deviceInterrupt 0xFFFFFFF8
    (still PromptBoard.respond).Follows (dispatch deviceInterrupt) s s.looks
        (.returned (.unhandled deviceInterrupt 0x3F)) s ∧
      (still PromptBoard.respond).Follows (dispatch deviceInterrupt) quiet (quiet.looks ++ serving)
        (.returned (.handled .vi)) quiet.serviced := by
  have device : deviceInterrupt.FromDevice := deviceInterrupt.fromDevice_iff.2 (by decide)
  obtain ⟨-, -, unhandled, -⟩ := dispatch_exact PromptBoard.respond Console.crowded deviceInterrupt
  obtain ⟨-, handled, -⟩ := dispatch_exact PromptBoard.respond
    (Console.crowded.raise deviceInterrupt 0xFFFFFFF8) deviceInterrupt
  refine ⟨unhandled device fun lowest => ?_, handled device ⟨by decide, by decide⟩⟩
  cases lowest.clear 0 (by decide)

end Interrupt

end ColdBoot
