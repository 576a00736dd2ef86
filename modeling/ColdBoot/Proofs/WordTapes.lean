import ColdBoot.Idle
import ColdBoot.Proofs.Determined
import ColdBoot.Proofs.FlagBits
import Mathlib.Data.Seq.Basic

/-! # Waits on tapes

A wait reads one register until it finds a word that it accepts. **`Tapes`** are the hardware that
it meets: for each register the words that reads are still going to find there, finitely or
infinitely many of them, and the status word of the processor. A read past the end of a tape is
never answered.

* **`Tapes.First`** – the first word of a tape that is accepted;
* **`Tapes.EndsAtFirst`** – a wait that ends there: what it has done then, and what it does if there
is no such word;
* **`Tapes.endsAtFirst_spin`** – every wait in reduced power is like that. -/

namespace ColdBoot

open Program

/-- What a wait meets. -/
structure Tapes where
  /-- The processor's status word. -/
  status : Flags
  /-- The words that reads of each register are going to find. -/
  words : Register → Stream'.Seq UInt32

namespace Tapes

variable {s t : Tapes} {register : Register}

/-- The tapes with a register read up to a rest. -/
def readUpTo (s : Tapes) (register : Register) (rest : Stream'.Seq UInt32) : Tapes :=
  { s with words := Function.update s.words register rest }

@[simp] theorem readUpTo_words (s : Tapes) (register : Register) (rest : Stream'.Seq UInt32) :
    (s.readUpTo register rest).words register = rest := Function.update_self _ _ _

@[simp] theorem readUpTo_readUpTo (s : Tapes) (register : Register)
    (first second : Stream'.Seq UInt32) :
    (s.readUpTo register first).readUpTo register second = s.readUpTo register second := by
  rw [readUpTo, readUpTo, readUpTo, Function.update_idem]

/-- An access to tapes. A read takes the next word off; a write of a register changes nothing. -/
inductive Responds : Tapes → (command : Command) → command.Answer → Tapes → Prop where
  | getStatus (s : Tapes) : Responds s .getStatus s.status s
  | setStatus (s : Tapes) (status : Flags) : Responds s (.setStatus status) () { s with status }
  | read {s : Tapes} {register : Register} {word : UInt32} {rest : Stream'.Seq UInt32}
      (next : s.words register = .cons word rest) :
      Responds s (.read register) word (s.readUpTo register rest)
  | write (s : Tapes) (register : Register) (value : UInt32) :
      Responds s (.write register value) () s

/-- Tapes as hardware. -/
def hardware : Hardware Tapes where
  moves _ _ := False
  responds := Responds

theorem determined : hardware.Determined where
  still _ _ := id
  responds := by
    intro s command answer answer' t t' responded responded'
    cases responded with
    | getStatus => cases responded'; exact ⟨rfl, rfl⟩
    | setStatus => cases responded'; exact ⟨rfl, rfl⟩
    | read next =>
      cases responded' with
      | read next' =>
        obtain ⟨rfl, rfl⟩ := Stream'.Seq.cons_eq_cons.1 (next.symm.trans next')
        exact ⟨rfl, rfl⟩
    | write => cases responded'; exact ⟨rfl, rfl⟩

/-! ### The first word that is accepted -/

/-- A tape goes on with words that are refused and then has one that is accepted. -/
structure First (accepted : UInt32 → Bool) (tape : Stream'.Seq UInt32) (refused : List UInt32)
    (word : UInt32) (rest : Stream'.Seq UInt32) : Prop where
  split : tape = (Stream'.Seq.ofList refused).append (.cons word rest)
  refuses : ∀ earlier ∈ refused, accepted earlier = false
  accepts : accepted word = true

variable {accepted : UInt32 → Bool}

/-- Where a word is accepted, there is a first one. -/
theorem exists_first {tape : Stream'.Seq UInt32} {word : UInt32} (member : word ∈ tape)
    (accepts : accepted word = true) :
    ∃ refused first rest, First accepted tape refused first rest := by
  obtain ⟨n, found⟩ := Stream'.Seq.mem_iff_exists_get?.1 member
  -- over the words in front of it, of which an earlier one may be accepted too
  induction n generalizing tape with
  | zero =>
    obtain ⟨rest, rfl⟩ : ∃ rest, tape = .cons word rest := ⟨_, Stream'.Seq.head_eq_some found.symm⟩
    exact ⟨[], word, rest, (Stream'.Seq.nil_append _).symm, nofun, accepts⟩
  | succ n ih =>
    cases tape using Stream'.Seq.recOn with
    | nil => cases found
    | cons head tail =>
      cases taken : accepted head with
      | true => exact ⟨[], head, tail, (Stream'.Seq.nil_append _).symm, nofun, taken⟩
      | false =>
        rw [Stream'.Seq.get?_cons_succ] at found
        obtain ⟨refused, first, rest, split, refuses, accepts⟩ :=
          ih (Stream'.Seq.get?_mem found.symm) found
        refine ⟨head :: refused, first, rest, ?_, List.forall_mem_cons.2 ⟨taken, refuses⟩, accepts⟩
        rw [Stream'.Seq.ofList_cons, Stream'.Seq.cons_append, split]

/-! ### The accesses of a wait -/

/-- Going to reduced power. -/
def entering (status : Flags) : List Event :=
  [⟨.getStatus, status⟩, ⟨.setStatus (status.union CpuStatus.rp), ()⟩]

/-- Going back to full power. -/
def leaving (status : Flags) : List Event :=
  [⟨.getStatus, status.union CpuStatus.rp⟩, ⟨.setStatus (status.without CpuStatus.rp), ()⟩]

/-- Reading words off a tape. -/
def reading (register : Register) (words : List UInt32) : List Event :=
  words.map fun word => ⟨.read register, word⟩

/-- The tapes with the processor in reduced power. -/
def slowed (s : Tapes) : Tapes := { s with status := s.status.union CpuStatus.rp }

@[simp] theorem slowed_words (s : Tapes) : s.slowed.words = s.words := rfl

theorem follows_enter (s : Tapes) :
    hardware.Follows Idle.enter s (entering s.status) (.returned ()) s.slowed :=
  determined.follows_step (.getStatus s) <| determined.follows_step (.setStatus s _) <|
    determined.follows_done ()

theorem follows_leave {status : Flags} (powered : s.status = status.union CpuStatus.rp) :
    hardware.Follows Idle.leave s (leaving status) (.returned ())
      { s with status := status.without CpuStatus.rp } := by
  rw [leaving, ← powered, ← Flags.union_without_self, ← powered]
  exact determined.follows_step (.getStatus s) <| determined.follows_step (.setStatus s _) <|
    determined.follows_done ()

/-- Looking until a word is accepted. -/
theorem follows_repeatUntil {refused : List UInt32} {word : UInt32} {rest : Stream'.Seq UInt32}
    (first : First accepted (s.words register) refused word rest) :
    hardware.Follows (repeatUntil (.read register) accepted) s
      (reading register (refused ++ [word])) (.returned word) (s.readUpTo register rest) := by
  obtain ⟨split, refuses, accepts⟩ := first
  induction refused generalizing s with
  | nil =>
    rw [Stream'.Seq.ofList_nil, Stream'.Seq.nil_append] at split
    rw [repeatUntil]
    exact determined.follows_accepted (.read split) accepts (determined.follows_done word)
  | cons earlier refused ih =>
    rw [Stream'.Seq.ofList_cons, Stream'.Seq.cons_append] at split
    rw [List.forall_mem_cons] at refuses
    rw [← readUpTo_readUpTo, repeatUntil]
    exact determined.follows_refused (.read split) refuses.1
      (ih (readUpTo_words _ _ _) refuses.2)

/-- What is behind a word is refused where all is. -/
theorem refuses_rest {word : UInt32} {rest : Stream'.Seq UInt32}
    (next : s.words register = .cons word rest)
    (refuses : ∀ word ∈ s.words register, accepted word = false) : accepted word = false ∧
      ∀ later ∈ (s.readUpTo register rest).words register, accepted later = false := by
  rw [next] at refuses
  rw [readUpTo_words]
  exact ⟨refuses word (Stream'.Seq.mem_cons word rest),
    fun later member => refuses later (Stream'.Seq.mem_cons_of_mem word member)⟩

/-- Where no word is accepted a wait reads on: its executions are cut off, with words of the tape
read one after the other. -/
theorem eq_cut_of_refused (refuses : ∀ word ∈ s.words register, accepted word = false)
    {moments : List (Moment Tapes)} {ending : Ending UInt32}
    (execution : hardware.Execution (repeatUntil (.read register) accepted) s moments ending t) :
    ending = .cut ∧
      ∃ n, moments.map Moment.event = reading register ((s.words register).take n) := by
  induction moments generalizing s with
  | nil =>
    rcases execution.await_cases with cut | ⟨_, _, _, _, fewer, -⟩
    · exact ⟨cut, 0, rfl⟩
    · cases fewer
  | cons moment moments ih =>
    obtain ⟨met, word, behind, rfl, moved, responded, further⟩ := execution.await_cons
    obtain rfl := determined.eq_of_movesTo moved
    cases responded with
    | @read _ _ rest next =>
      obtain ⟨refused, others⟩ := refuses_rest next refuses
      obtain ⟨-, waits⟩ := further.resolve_right fun taken => by
        rw [refused] at taken
        cases taken.1
      obtain ⟨cut, n, same⟩ := ih others waits
      rw [readUpTo_words] at same
      refine ⟨cut, n + 1, ?_⟩
      rw [List.map_cons, same, next, Stream'.Seq.take_succ_cons]
      rfl

/-- Any number of words may be read so. -/
theorem exists_reading (s : Tapes) (refuses : ∀ word ∈ s.words register, accepted word = false)
    (n : Nat) : ∃ moments t,
      hardware.Execution (repeatUntil (.read register) accepted) s moments .cut t ∧
        moments.map Moment.event = reading register ((s.words register).take n) := by
  induction n generalizing s with
  | zero => exact ⟨[], s, ⟨.cut _, .rest .refl⟩, rfl⟩
  | succ n ih =>
    cases tape : (s.words register).destruct with
    | none =>
      rw [Stream'.Seq.destruct_eq_none tape, Stream'.Seq.take_nil]
      exact ⟨[], s, ⟨.cut _, .rest .refl⟩, rfl⟩
    | some split =>
      obtain ⟨word, rest⟩ := split
      have next := Stream'.Seq.destruct_eq_cons tape
      obtain ⟨refused, others⟩ := refuses_rest next refuses
      obtain ⟨moments, t, ⟨run, course⟩, same⟩ := ih _ others
      rw [readUpTo_words] at same
      have looks : (repeatUntil (.read register) accepted).Runs
          (⟨.read register, word⟩ :: moments.map Moment.event) .cut := by
        exact .refuse word refused run
      refine ⟨⟨s, ⟨.read register, word⟩⟩ :: moments, t,
        ⟨looks, .access .refl (.read next) course⟩, ?_⟩
      rw [List.map_cons, same, next, Stream'.Seq.take_succ_cons]
      rfl

/-! ### Waits in reduced power -/

variable {α : Type}

/-- **A wait that ends at the first word** of a register's tape that it accepts, with a value that
the word tells. -/
structure EndsAtFirst (program : Program α) (register : Register) (accepted : UInt32 → Bool)
    (value : UInt32 → α) : Prop where
  /-- It returns exactly if there is such a word. -/
  returns_iff : ∀ s,
    (∃ moments result t, hardware.Execution program s moments (.returned result) t) ↔
      ∃ word ∈ s.words register, accepted word = true
  /-- Then it has read the words up to that one, and no more, between two writes of the status
  word. -/
  follows : ∀ ⦃s refused word rest⦄, First accepted (s.words register) refused word rest →
    hardware.Follows program s
      (entering s.status ++ (reading register (refused ++ [word]) ++ leaving s.status))
      (.returned (value word))
      { s.readUpTo register rest with status := s.status.without CpuStatus.rp }
  /-- Without such a word nothing is done but the first one of the writes and then reads. -/
  waits : ∀ ⦃s⦄, (∀ word ∈ s.words register, accepted word = false) → ∀ ⦃moments ending t⦄,
    hardware.Execution program s moments ending t → ending = .cut ∧
      ∃ n, moments.map Moment.event <+:
        entering s.status ++ reading register ((s.words register).take n)
  /-- It has done that, and as many reads as there are words for. -/
  reads : ∀ ⦃s⦄, (∀ word ∈ s.words register, accepted word = false) → ∀ n, ∃ moments t,
    hardware.Execution program s moments .cut t ∧
      moments.map Moment.event = entering s.status ++ reading register ((s.words register).take n)

/-- What is made of a word that is refused does not matter. -/
theorem EndsAtFirst.congr {program : Program α} {accepted accepted' : UInt32 → Bool}
    {value value' : UInt32 → α} (h : EndsAtFirst program register accepted value)
    (accepts : ∀ word, accepted word = accepted' word)
    (values : ∀ word, accepted word = true → value word = value' word) :
    EndsAtFirst program register accepted' value' := by
  obtain rfl : accepted = accepted' := funext accepts
  refine ⟨h.returns_iff, fun s refused word rest first => ?_, h.waits, h.reads⟩
  rw [← values word first.accepts]
  exact h.follows first

/-- What such a wait has returned is told by the first word that it accepts. -/
theorem EndsAtFirst.exists_of_returned {program : Program α} {accepted : UInt32 → Bool}
    {value : UInt32 → α} (h : EndsAtFirst program register accepted value)
    {moments : List (Moment Tapes)} {result : α}
    (execution : hardware.Execution program s moments (.returned result) t) :
    ∃ refused word rest, First accepted (s.words register) refused word rest ∧
      result = value word := by
  obtain ⟨word, member, accepts⟩ := (h.returns_iff s).1 ⟨_, _, _, execution⟩
  obtain ⟨refused, word, rest, first⟩ := exists_first member accepts
  obtain ⟨-, eq, -⟩ := ((h.follows first).unique execution).2 nofun
  exact ⟨refused, word, rest, first, Ending.returned.inj eq⟩

/-- A wait in reduced power, with what is made of its word: the two ends of the bracket are around
the looks. -/
theorem spin_bind (accepted : UInt32 → Bool) (value : UInt32 → α) :
    (Idle.spin (.read register) accepted >>= fun word => pure (value word)) =
      (Idle.enter >>= fun _ => repeatUntil (.read register) accepted >>= fun word =>
        Idle.leave >>= fun _ => pure (value word)) := by
  rw [Idle.spin, Idle.bracket, Program.bind_assoc]
  simp only [Program.bind_assoc]
  rfl

section Spin

variable {value : UInt32 → α}

theorem follows_spin {refused : List UInt32} {word : UInt32} {rest : Stream'.Seq UInt32}
    (first : First accepted (s.words register) refused word rest) :
    hardware.Follows (Idle.spin (.read register) accepted >>= fun word => pure (value word)) s
      (entering s.status ++ (reading register (refused ++ [word]) ++ leaving s.status))
      (.returned (value word))
      { s.readUpTo register rest with status := s.status.without CpuStatus.rp } := by
  rw [spin_bind, ← List.append_nil (leaving s.status)]
  refine (follows_enter s).bind ((follows_repeatUntil (s := s.slowed) first).bind ?_)
  refine (follows_leave rfl).bind ?_
  exact determined.follows_done (value word)

variable (refuses : ∀ word ∈ s.words register, accepted word = false)

include refuses

theorem eq_cut_of_spin {moments : List (Moment Tapes)} {ending : Ending α}
    (execution : hardware.Execution
      (Idle.spin (.read register) accepted >>= fun word => pure (value word)) s moments ending t) :
    ending = .cut ∧ ∃ n, moments.map Moment.event <+:
      entering s.status ++ reading register ((s.words register).take n) := by
  rw [spin_bind] at execution
  have enters := follows_enter s
  rcases execution.bind_cases with ⟨early, stopped, lifted⟩ | ⟨_, _, _, _, rfl, entered, further⟩
  · -- cut off on the way to reduced power
    obtain ⟨part, ends⟩ := enters.unique stopped
    cases early with
    | returned => cases lifted
    | stopped => cases (ends nofun).2.1
    | cut =>
      cases lifted
      exact ⟨rfl, 0, part.trans (List.prefix_append _ _)⟩
  · obtain ⟨same, -, rfl⟩ := (enters.unique entered).2 nofun
    rcases further.bind_cases with ⟨early, looking, lifted⟩ | ⟨_, _, _, _, rfl, looked, -⟩
    · obtain ⟨rfl, n, read⟩ := eq_cut_of_refused (s := s.slowed) refuses looking
      cases lifted
      refine ⟨rfl, n, ?_⟩
      simp only [List.map_append, same, read, slowed_words, List.prefix_rfl]
    · cases (eq_cut_of_refused (s := s.slowed) refuses looked).1

theorem exists_spinning (n : Nat) : ∃ moments t, hardware.Execution
      (Idle.spin (.read register) accepted >>= fun word => pure (value word)) s moments .cut t ∧
    moments.map Moment.event =
      entering s.status ++ reading register ((s.words register).take n) := by
  rw [spin_bind]
  obtain ⟨enters, entered, same⟩ := (follows_enter s).exists_execution
  obtain ⟨looks, t, ⟨run, course⟩, read⟩ :=
    exists_reading s.slowed refuses n
  exact ⟨enters ++ looks, t, entered.bind ⟨run.bind_of_lift rfl, course⟩,
    by rw [List.map_append, same, read, slowed_words]⟩

end Spin

/-- **Every wait in reduced power** ends at the first word that it accepts. -/
theorem endsAtFirst_spin (register : Register) (accepted : UInt32 → Bool) (value : UInt32 → α) :
    EndsAtFirst (Idle.spin (.read register) accepted >>= fun word => pure (value word)) register
      accepted value where
  returns_iff s := by
    constructor
    · rintro ⟨moments, result, t, execution⟩
      by_contra refused
      have refuses : ∀ word ∈ s.words register, accepted word = false := fun word member =>
        Bool.eq_false_iff.2 fun accepts => refused ⟨word, member, accepts⟩
      cases (eq_cut_of_spin refuses execution).1
    · rintro ⟨word, member, accepts⟩
      obtain ⟨refused, first, rest, isFirst⟩ := exists_first member accepts
      obtain ⟨moments, execution, -⟩ := (follows_spin isFirst).exists_execution
      exact ⟨moments, value first, _, execution⟩
  follows _ _ _ _ first := follows_spin first
  waits _ refuses _ _ _ execution := eq_cut_of_spin refuses execution
  reads _ refuses := exists_spinning refuses

end Tapes

end ColdBoot
