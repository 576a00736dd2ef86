import ColdBoot.Proofs.LogWindow
import ColdBoot.Proofs.PromptBoard
import ColdBoot.Proofs.VblankService

/-! # Switching lines, call after call

The mask of enabled lines is read as it is and written as pairs of bits, so what a call leaves
depends on how the controller takes a written word. By its rule line `k` is first cleared if bit
`2k` of the word is set, and then set if bit `2k + 1` is. Calls may come in any order and with any
words for their lines, unknown bits included.

* **`LineMask.Switches`** – the controller's rule, bit by bit, and **`LineMask.switches_apply`** –
  the controller goes by it;
* **`LineMask.bit_pairs_iff`** – a written word has one bit for each line that is named;
* **`LineCall.settles_concat`** – what one more call does, and **`Hardware.SwitchesLines`** – the
  hardware it is made on;
* **`LineCall.history_settles`** – after a history the last call that names a line has decided it. -/

namespace ColdBoot

open Program Flags

namespace InterruptSource

theorem index_lt (source : InterruptSource) : source.index.toNat < 6 := by
  cases source <;> decide

theorem mem_all (source : InterruptSource) : source ∈ all := by
  cases source <;> decide

/-- Every line is a source's. -/
theorem exists_index {k : Nat} (lt : k < 6) :
    ∃ source : InterruptSource, source.index.toNat = k := by
  match k, lt with
  | 0, _ => exact ⟨.sp, rfl⟩
  | 1, _ => exact ⟨.si, rfl⟩
  | 2, _ => exact ⟨.ai, rfl⟩
  | 3, _ => exact ⟨.vi, rfl⟩
  | 4, _ => exact ⟨.pi, rfl⟩
  | 5, _ => exact ⟨.dp, rfl⟩

/-- The place of a bit in a source's pair. -/
theorem toNat_place (source : InterruptSource) {which : UInt32} (bit : which.toNat ≤ 1) :
    (2 * source.index + which).toNat = 2 * source.index.toNat + which.toNat := by
  have index := source.index_lt
  rw [UInt32.toNat_add, UInt32.toNat_mul]
  show (2 * _ % 2 ^ 32 + _) % 2 ^ 32 = _
  omega

/-- A bit of a source's pair. -/
theorem testBit_place (source : InterruptSource) (word : Flags) (which : UInt32)
    (bit : which.toNat ≤ 1) : testBit word (2 * source.index + which) =
      word.bit (2 * source.index.toNat + which.toNat) := by
  have index := source.index_lt
  have place := source.toNat_place bit
  rw [testBit_eq word (by omega), place]
  rfl

end InterruptSource

/-! ### The controller's rule -/

namespace LineMask

/-- The mask before and after a word is written: each line is cleared if its clear bit is set, and
then set if its set bit is. -/
structure Switches (before word after : Flags) : Prop where
  line : ∀ k < 6, after.bit k = (word.bit (2 * k + 1) || (before.bit k && !word.bit (2 * k)))
  other : ∀ i, 6 ≤ i → after.bit i = before.bit i

/-- One source's turn in taking a written word. -/
def turn (word mask : Flags) (source : InterruptSource) : Flags :=
  let mask := if testBit word (2 * source.index) then mask.without source.line else mask
  if testBit word (2 * source.index + 1) then mask.union source.line else mask

/-- A source's turn switches its own line only. -/
theorem bit_turn (word mask : Flags) (source : InterruptSource) (i : Nat) :
    (turn word mask source).bit i = if i = source.index.toNat then
      word.bit (2 * i + 1) || (mask.bit i && !word.bit (2 * i)) else mask.bit i := by
  have clear : testBit word (2 * source.index) = word.bit (2 * source.index.toNat) := by
    have place := source.testBit_place word 0 (by decide)
    rwa [UInt32.add_zero] at place
  have set : testBit word (2 * source.index + 1) = word.bit (2 * source.index.toNat + 1) :=
    source.testBit_place word 1 (by decide)
  rw [turn, clear, set]
  by_cases here : i = source.index.toNat
  · rw [if_pos here, here]
    cases word.bit (2 * source.index.toNat) <;> cases word.bit (2 * source.index.toNat + 1) <;>
      simp [source.bit_line]
  · rw [if_neg here]
    cases word.bit (2 * source.index.toNat) <;> cases word.bit (2 * source.index.toNat + 1) <;>
      simp [source.bit_line, here]

/-- Turns one after the other switch the lines of their sources. -/
theorem bit_foldl_turn (word mask : Flags) (sources : List InterruptSource) (i : Nat) :
    (sources.foldl (turn word) mask).bit i = if i ∈ sources.map (·.index.toNat) then
      word.bit (2 * i + 1) || (mask.bit i && !word.bit (2 * i)) else mask.bit i := by
  induction sources generalizing mask with
  | nil => rfl
  | cons source rest ih =>
    rw [List.foldl_cons, ih, bit_turn, List.map_cons]
    -- a line that has a second turn is switched by the same bits once more
    by_cases here : i = source.index.toNat <;> by_cases later : i ∈ rest.map (·.index.toNat) <;>
      cases word.bit (2 * i) <;> simp [here, later]

/-- **The controller goes by the rule.** -/
theorem switches_apply (mask word : Flags) : Switches mask word (apply mask word) := by
  have turns : apply mask word = InterruptSource.all.foldl (turn word) mask := rfl
  rw [turns]
  constructor
  · intro k lt
    obtain ⟨source, rfl⟩ := InterruptSource.exists_index lt
    rw [bit_foldl_turn, if_pos (List.mem_map_of_mem source.mem_all)]
  · intro i le
    have unlisted : i ∉ InterruptSource.all.map (·.index.toNat) := by
      rintro member
      obtain ⟨source, -, rfl⟩ := List.mem_map.1 member
      exact absurd source.index_lt (by omega)
    rw [bit_foldl_turn, if_neg unlisted]

/-! ### Written words -/

/-- A written word with a source's bit, if its line is named. -/
def withBit (lines : Flags) (which : UInt32) (word : Flags) (source : InterruptSource) : Flags :=
  if testBit lines source.index then word.union (1 <<< (2 * source.index + which)) else word

section

variable (lines : Flags) {which : UInt32} (bit : which.toNat ≤ 1)

include bit

theorem bit_withBit_iff (word : Flags) (source : InterruptSource) (i : Nat) :
    Flags.bit (withBit lines which word source) i = true ↔ word.bit i = true ∨
      (lines.bit source.index.toNat = true ∧ i = 2 * source.index.toNat + which.toNat) := by
  have index := source.index_lt
  have place := source.toNat_place bit
  have inside : (2 * source.index + which).toNat < 32 := by omega
  have named : testBit lines source.index = lines.bit source.index.toNat :=
    testBit_eq lines (Nat.lt_trans index (by decide))
  rw [withBit, named]
  cases on : lines.bit source.index.toNat with
  | false => simp
  | true => simp [bit_one_shiftLeft inside, place]

theorem bit_foldl_withBit_iff (word : Flags) (sources : List InterruptSource) (i : Nat) :
    Flags.bit (sources.foldl (withBit lines which) word) i = true ↔ word.bit i = true ∨
      ∃ source ∈ sources,
        lines.bit source.index.toNat = true ∧ i = 2 * source.index.toNat + which.toNat := by
  induction sources generalizing word with
  | nil => simp
  | cons source rest ih =>
    rw [List.foldl_cons, ih, bit_withBit_iff lines bit, or_assoc]
    simp

/-- **The bits of a written word** are those of the named lines, each in its pair. -/
theorem bit_pairs_iff (i : Nat) : Flags.bit (pairs lines which) i = true ↔
    ∃ k < 6, lines.bit k = true ∧ i = 2 * k + which.toNat := by
  have all : pairs lines which = InterruptSource.all.foldl (withBit lines which) 0 := rfl
  rw [all, bit_foldl_withBit_iff lines bit]
  constructor
  · rintro (unset | ⟨source, -, named, rfl⟩)
    · rw [bit_zero] at unset
      cases unset
    · exact ⟨_, source.index_lt, named, rfl⟩
  · rintro ⟨k, lt, named, rfl⟩
    obtain ⟨source, rfl⟩ := InterruptSource.exists_index lt
    exact .inr ⟨source, source.mem_all, named, rfl⟩

end

/-- A word that may be written: no bit behind the last pair, and never both bits of a pair. -/
structure WellFormed (word : Flags) : Prop where
  inside : ∀ i, 12 ≤ i → word.bit i = false
  once : ∀ k, ¬ (word.bit (2 * k) = true ∧ word.bit (2 * k + 1) = true)

end LineMask

/-! ### One call -/

/-- A call that switches lines: which way, and the word of the lines it names. -/
structure LineCall where
  enables : Bool
  lines : Flags
  deriving DecidableEq, Repr

namespace LineCall

variable (call : LineCall)

/-- Make the call. -/
def make : Program Unit :=
  if call.enables then Lines.enable call.lines else Lines.disable call.lines

/-- The call names line `k`. -/
def names (k : Nat) : Bool := call.lines.bit k

/-- The bit of each pair that the call writes: the set bit, or the clear bit. -/
def which : UInt32 := if call.enables then 1 else 0

/-- The word that the call writes. -/
def word : Flags := LineMask.pairs call.lines call.which

/-- The write that a call makes. -/
def event : Event := written MiRegister.mask call.word

theorem make_eq : call.make = Program.write MiRegister.mask call.word := by
  obtain ⟨enables, lines⟩ := call
  cases enables <;> rfl

theorem toNat_which : call.which.toNat = call.enables.toNat := by
  obtain ⟨enables, lines⟩ := call
  cases enables <;> rfl

theorem bit_word_iff (i : Nat) : call.word.bit i = true ↔
    ∃ k < 6, call.names k = true ∧ i = 2 * k + call.enables.toNat := by
  rw [word, LineMask.bit_pairs_iff call.lines, toNat_which]
  · exact Iff.rfl
  · rw [toNat_which]
    exact Bool.toNat_le call.enables

theorem wellFormed_word : LineMask.WellFormed call.word where
  inside := by
    intro i le
    rw [← Bool.not_eq_true, bit_word_iff]
    rintro ⟨k, lt, -, rfl⟩
    have side := Bool.toNat_le call.enables
    omega
  once := by
    intro k
    rw [bit_word_iff, bit_word_iff]
    rintro ⟨⟨j, -, -, clear⟩, ⟨j', -, -, set⟩⟩
    have side := Bool.toNat_le call.enables
    omega

/-- The two bits of a line: the one on the call's side is set if the call names the line. -/
theorem bit_pair {k : Nat} (lt : k < 6) (set : Bool) :
    call.word.bit (2 * k + set.toNat) = (call.names k && set == call.enables) := by
  have side := Bool.toNat_le set
  have side' := Bool.toNat_le call.enables
  rw [Bool.eq_iff_iff, bit_word_iff, Bool.and_eq_true, beq_iff_eq]
  constructor
  · rintro ⟨j, -, named, same⟩
    obtain rfl : k = j := by omega
    have same : set.toNat = call.enables.toNat := by omega
    refine ⟨named, ?_⟩
    revert same
    cases set <;> cases call.enables <;> decide
  · rintro ⟨named, rfl⟩
    exact ⟨k, lt, named, rfl⟩

/-- A call goes its way with the lines it names, and leaves the others alone. -/
theorem bit_of_switches {before after : Flags} (switches : LineMask.Switches before call.word after)
    {k : Nat} (lt : k < 6) :
    after.bit k = if call.names k then call.enables else before.bit k := by
  have clear : call.word.bit (2 * k) = _ := call.bit_pair lt false
  have set : call.word.bit (2 * k + 1) = _ := call.bit_pair lt true
  rw [switches.line k lt, set, clear]
  cases call.names k <;> cases call.enables <;> simp

/-! ### Histories -/

/-- The last call of a history that names line `k`. -/
def last? (history : List LineCall) (k : Nat) : Option LineCall :=
  history.reverse.find? (·.names k)

/-- The mask before and after a history: the last call that names a line has decided it, and
everything else is as it was. -/
structure Settles (history : List LineCall) (before after : Flags) : Prop where
  line : ∀ k < 6, after.bit k =
    match last? history k with
    | some call => call.enables
    | none => before.bit k
  other : ∀ i, 6 ≤ i → after.bit i = before.bit i

theorem settles_nil (mask : Flags) : Settles [] mask mask where
  line _ _ := rfl
  other _ _ := rfl

/-- **One more call** decides the lines that it names. -/
theorem settles_concat {history : List LineCall} {before between after : Flags}
    (settles : Settles history before between)
    (switches : LineMask.Switches between call.word after) :
    Settles (history ++ [call]) before after where
  line := by
    intro k lt
    rw [call.bit_of_switches switches lt, settles.line k lt, last?, last?, List.reverse_append,
      List.reverse_singleton, List.singleton_append, List.find?_cons]
    cases call.names k <;> rfl
  other i le := (switches.other i le).trans (settles.other i le)

end LineCall

/-! ### On hardware -/

/-- Hardware with the mask of enabled lines in its state: a write goes by the controller's rule, a
read shows the mask, and the mask does not change by itself. -/
structure Hardware.SwitchesLines {σ : Type} (hw : Hardware σ) (mask : σ → Flags) : Prop where
  moves : ∀ ⦃s t⦄, hw.moves s t → mask t = mask s
  writes : ∀ ⦃s word answer t⦄, hw.responds s (.write MiRegister.mask word) answer t →
    LineMask.Switches (mask s) word (mask t)
  reads : ∀ ⦃s answer t⦄, hw.responds s (.read MiRegister.mask) answer t →
    answer = mask s ∧ mask t = mask s

/-- A machine with exceptions is such hardware: its handler leaves the lines alone. -/
theorem Chassis.switchesLines {δ : Type} (devices : Devices δ) (gate : Controls → Prop) :
    (Chassis.hardware devices gate).SwitchesLines (·.controls.lines) where
  moves := by
    rintro s t ⟨-, excepts⟩
    obtain ⟨cause, pending, rfl⟩ := excepts.eq_serviced
    rfl
  writes := by
    intro s word answer t responded
    obtain rfl := (Prod.mk.inj responded).2
    exact LineMask.switches_apply s.controls.lines word
  reads := by
    intro s answer t responded
    obtain ⟨rfl, rfl⟩ := Prod.mk.inj responded
    exact ⟨rfl, rfl⟩

/-- What is said of the mask alone stays true when the hardware moves. -/
theorem Hardware.SwitchesLines.sound {σ : Type} {hw : Hardware σ} {mask : σ → Flags}
    (switches : hw.SwitchesLines mask) (claim : Flags → Prop) :
    hw.Sound .none fun s => claim (mask s) where
  stable := by
    intro s t moved holds
    rwa [switches.moves moved]
  state _ _ := trivial

namespace LineCall

section

variable {σ : Type} {hw : Hardware σ} {mask : σ → Flags} (switches : hw.SwitchesLines mask)

include switches

/-- **On hardware** a history decides the lines, whatever happens between its calls. -/
theorem ensures_history (history : List LineCall) (before : Flags) :
    hw.Ensures .none (fun s => mask s = before) (history.forM make)
      fun _ s => Settles history before (mask s) := by
  have sound := switches.sound
  induction history using List.reverseRecOn with
  | nil =>
    refine .done (sound (· = before)) ?_
    rintro s rfl
    exact settles_nil (mask s)
  | append_singleton past call ih =>
    have split : (past ++ [call]).forM make = (do past.forM make; [call].forM make) :=
      List.forM_append
    rw [split]
    refine ih.bind fun _ => ?_
    have last : hw.Ensures .none (fun s => Settles past before (mask s)) call.make
        fun _ s => Settles (past ++ [call]) before (mask s) := by
      rw [make_eq]
      refine .perform (sound (Settles past before))
        (fun _ => sound (Settles (past ++ [call]) before)) (fun _ _ => trivial) ?_
      intro s answer t settles responded
      exact call.settles_concat settles (switches.writes responded)
    exact last.bind fun _ => .done (sound (Settles (past ++ [call]) before)) fun _ h => h

/-- What is read afterwards are the six lines of the mask. -/
theorem ensures_enabled (now : Flags → Prop) :
    hw.Ensures .none (fun s => now (mask s)) Lines.enabled fun flags s =>
      now (mask s) ∧ flags = (mask s).inter Lines.all := by
  have read : hw.Ensures .none (fun s => now (mask s)) (Program.read MiRegister.mask)
      fun word s => now (mask s) ∧ word = mask s := by
    refine .perform (switches.sound now) (fun word => switches.sound fun m => now m ∧ word = m)
      (fun _ _ => trivial) ?_
    intro s answer t holds responded
    obtain ⟨rfl, same⟩ := switches.reads responded
    rw [same]
    exact ⟨holds, rfl⟩
  refine read.bind fun word => .done (switches.sound fun m => now m ∧ word = m) ?_
  rintro s ⟨holds, rfl⟩
  exact ⟨holds, rfl⟩

end

theorem plays_make (call : LineCall) : call.make.Plays [call.event] () := by
  rw [make_eq]
  exact .write MiRegister.mask call.word

/-- **The last call that names a line decides it.** A history of calls always returns, and makes one
write for each call and no other access; no word it writes has a bit behind the six pairs, or both
bits of a pair. On hardware that goes by the controller's rule each line is afterwards, in the mask
and as it is read, what the last call that names it said, or what it was before if none did; bits
outside the six lines never change. -/
theorem history_settles (history : List LineCall) :
    (history.forM make).Plays (history.map event) () ∧
    (∀ events ending, (history.forM make).Runs events ending → ∀ event ∈ events,
      ∃ word, event = written MiRegister.mask word ∧ LineMask.WellFormed word) ∧
    ∀ {σ : Type} {hw : Hardware σ} {mask : σ → Flags}, hw.SwitchesLines mask →
      ∀ {s moments flags t},
        hw.Execution (do history.forM make; Lines.enabled) s moments (.returned flags) t →
          Settles history (mask s) (mask t) ∧ ∀ k < 6, flags.bit k = (mask t).bit k := by
  have plays : (history.forM make).Plays (history.map event) () := by
    rw [List.map_eq_flatMap]
    exact .forM history plays_make
  refine ⟨plays, fun events ending run event member => ?_, ?_⟩
  · have part : events <+: history.map LineCall.event := by
      rcases plays.only events ending run with ⟨part, -⟩ | ⟨rfl, -⟩
      · exact part
      · exact List.prefix_rfl
    obtain ⟨call, -, rfl⟩ := List.mem_map.1 (part.subset member)
    exact ⟨call.word, rfl, call.wellFormed_word⟩
  · intro σ hw mask switches s moments flags t execution
    have ensures := (ensures_history switches history (mask s)).bind fun _ =>
      ensures_enabled switches (Settles history (mask s))
    obtain ⟨settles, rfl⟩ := (ensures rfl execution).2.2 flags rfl
    have six : ∀ k < 6, Lines.all.bit k = true := by decide
    refine ⟨settles, fun k lt => ?_⟩
    rw [bit_inter, six k lt, Bool.and_true]

/-- All lines are disabled with a word of ones, the signal processor's and the video line are enabled
with two unknown bits beside them, and the signal processor's is disabled again: the video line is
left. -/
theorem history_settles_to_video : ∃ moments flags t,
    (Chassis.hardware PromptBoard.respond Interruptible).Execution
      (do [⟨false, 0xFFFFFFFF⟩, ⟨true, 0xC9⟩, ⟨false, 0x01⟩].forM make; Lines.enabled)
      Console.crowded moments (.returned flags) t ∧ ∀ k < 6, flags.bit k = decide (k = 3) := by
  let history : List LineCall := [⟨false, 0xFFFFFFFF⟩, ⟨true, 0xC9⟩, ⟨false, 0x01⟩]
  have finishes : (do history.forM make; Lines.enabled : Program Flags).Finishes := by
    refine (Finishable.forM history fun call _ => ?_).bind fun _ => .step fun _ => .done trivial
    rw [make_eq]
    exact .write MiRegister.mask call.word
  have noFlag : (do history.forM make; Lines.enabled : Program Flags).Accesses (· ≠ .getFence) := by
    refine (accesses_forM history fun call _ => ?_).bind fun _ => .step nofun fun _ => .done _
    rw [make_eq]
    exact .write nofun
  obtain ⟨moments, flags, t, -, execution⟩ :=
    (Chassis.liveWithin PromptBoard.respond_idle Interruptible).exists_execution finishes noFlag
      Console.crowded
  obtain ⟨settles, read⟩ := (history_settles history).2.2 (Chassis.switchesLines _ _) execution
  have decided : ∀ k < 6, (match last? history k with
      | some call => call.enables
      | none => Console.crowded.controls.lines.bit k) = decide (k = 3) := by
    decide
  refine ⟨moments, flags, t, execution, fun k lt => ?_⟩
  rw [read k lt, settles.line k lt, decided k lt]

end LineCall

end ColdBoot
