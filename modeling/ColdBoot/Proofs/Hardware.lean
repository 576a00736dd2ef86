import ColdBoot.Program.Run
import Mathlib.Logic.Relation

/-! # Programs on hardware

A program's run says which accesses it made and what it was answered. **`Hardware`** says which
answers there are: how its state moves by itself between two accesses, and what an access does to
it. Nothing is said about when it moves, so whatever holds of every execution holds under every
schedule of the devices.

* **`Hardware.Course`** – what a list of accesses does to the hardware, each with the state it met;
* **`Hardware.Execution`** – a run of a program whose answers the hardware gives;
* **`Hardware.Ensures`** – from a precondition, a guard is kept all the way and a postcondition
  holds at the return, with one rule for each construct of programs. -/

namespace ColdBoot

open Relation

/-- Hardware with states in `σ`. -/
structure Hardware (σ : Type) where
  /-- One move of the hardware's own. -/
  moves : σ → σ → Prop
  /-- An access, its answer, and the state behind it. -/
  responds : σ → (command : Command) → command.Answer → σ → Prop

/-- An access together with the state that it met. -/
structure Moment (σ : Type) where
  state : σ
  event : Event

namespace Hardware

variable {σ α β : Type} (hw : Hardware σ)

/-- Any number of the hardware's own moves. -/
abbrev MovesTo : σ → σ → Prop := ReflTransGen hw.moves

/-- From a state through a list of accesses to another state, with moves of the hardware's own in
front of every access and behind the last one. -/
inductive Course : σ → List (Moment σ) → σ → Prop where
  | rest {s t : σ} (moved : hw.MovesTo s t) : Course s [] t
  | access {s met behind t : σ} {event : Event} {moments : List (Moment σ)}
      (moved : hw.MovesTo s met)
      (responded : hw.responds met event.command event.answer behind)
      (rest : Course behind moments t) : Course s (⟨met, event⟩ :: moments) t

/-- An execution of a program: one of its runs, along a course of the hardware. -/
structure Execution (program : Program α) (s : σ) (moments : List (Moment σ)) (ending : Ending α)
    (t : σ) : Prop where
  run : program.Runs (moments.map Moment.event) ending
  course : hw.Course s moments t

/-! ### Courses in parts -/

variable {hw}

/-- Moves in front of a course belong to it. -/
theorem Course.of_movesTo {s s' t : σ} {moments : List (Moment σ)} (moved : hw.MovesTo s s')
    (course : hw.Course s' moments t) : hw.Course s moments t := by
  cases course with
  | rest further => exact .rest (moved.trans further)
  | access further responded rest => exact .access (moved.trans further) responded rest

/-- Two courses, one behind the other. -/
theorem Course.append {s t u : σ} {first second : List (Moment σ)} (before : hw.Course s first t)
    (behind : hw.Course t second u) : hw.Course s (first ++ second) u := by
  induction before with
  | rest moved => exact behind.of_movesTo moved
  | access moved responded _ ih => exact .access moved responded (ih behind)

/-- A course can be cut between any two accesses. -/
theorem Course.split {s u : σ} {first second : List (Moment σ)}
    (course : hw.Course s (first ++ second) u) :
    ∃ t, hw.Course s first t ∧ hw.Course t second u := by
  -- over the accesses in front of the cut; moves at the cut itself go with the second part
  induction first generalizing s with
  | nil => exact ⟨s, .rest .refl, course⟩
  | cons moment first ih =>
    cases course with
    | access moved responded rest =>
      obtain ⟨t, before, behind⟩ := ih rest
      exact ⟨t, .access moved responded before, behind⟩

/-- Moves in front of an execution belong to it. -/
theorem Execution.of_movesTo {program : Program α} {s s' t : σ} {ending : Ending α}
    {moments : List (Moment σ)} (moved : hw.MovesTo s s')
    (execution : hw.Execution program s' moments ending t) :
    hw.Execution program s moments ending t :=
  ⟨execution.run, execution.course.of_movesTo moved⟩

/-- An access that is made at once, and an execution of what follows its answer. -/
theorem Execution.step {command : Command} {next : command.Answer → Program α}
    {answer : command.Answer} {s behind t : σ} {ending : Ending α} {moments : List (Moment σ)}
    (responded : hw.responds s command answer behind)
    (rest : hw.Execution (next answer) behind moments ending t) :
    hw.Execution (.step command next) s (⟨s, ⟨command, answer⟩⟩ :: moments) ending t :=
  ⟨.step answer rest.run, .access .refl responded rest.course⟩

/-- The execution of a sequence of programs, from executions of its parts. -/
theorem Execution.bind {program : Program α} {f : α → Program β} {s t u : σ} {value : α}
    {first second : List (Moment σ)} {ending : Ending β}
    (before : hw.Execution program s first (.returned value) t)
    (behind : hw.Execution (f value) t second ending u) :
    hw.Execution (program >>= f) s (first ++ second) ending u where
  run := by
    rw [List.map_append]
    exact before.run.bind behind.run
  course := before.course.append behind.course

/-- However an execution of a sequence ends: it ends with its first part, or its first part returns. -/
theorem Execution.bind_cases {program : Program α} {f : α → Program β} {s u : σ} {ending : Ending β}
    {moments : List (Moment σ)} (execution : hw.Execution (program >>= f) s moments ending u) :
    (∃ early, hw.Execution program s moments early u ∧ Program.Runs.lift early = some ending) ∨
      ∃ first second between t, moments = first ++ second ∧
        hw.Execution program s first (.returned between) t ∧
        hw.Execution (f between) t second ending u := by
  obtain ⟨run, course⟩ := execution
  rcases run.of_bind with ⟨early, run, lifted⟩ | ⟨events₁, events₂, between, run₁, run₂, split⟩
  · exact .inl ⟨early, ⟨run, course⟩, lifted⟩
  · obtain ⟨first, second, rfl, rfl, rfl⟩ := List.map_eq_append_iff.1 split
    obtain ⟨t, course₁, course₂⟩ := course.split
    exact .inr ⟨first, second, between, t, rfl, ⟨run₁, course₁⟩, ⟨run₂, course₂⟩⟩

/-- The other way round: an execution of a sequence that returns is made of executions of its parts
that return. -/
theorem Execution.of_bind {program : Program α} {f : α → Program β} {s u : σ} {value : β}
    {moments : List (Moment σ)}
    (execution : hw.Execution (program >>= f) s moments (.returned value) u) :
    ∃ first second between t, moments = first ++ second ∧
      hw.Execution program s first (.returned between) t ∧
      hw.Execution (f between) t second (.returned value) u := by
  rcases execution.bind_cases with ⟨early, -, lifted⟩ | parts
  · cases early <;> cases lifted
  · exact parts

/-- The first access of an execution that is not cut off in front of it. -/
theorem Execution.step_cases {command : Command} {next : command.Answer → Program α} {s t : σ}
    {ending : Ending α} {moments : List (Moment σ)}
    (execution : hw.Execution (.step command next) s moments ending t) :
    ending = .cut ∨ ∃ met answer behind rest, moments = ⟨met, ⟨command, answer⟩⟩ :: rest ∧
      hw.MovesTo s met ∧ hw.responds met command answer behind ∧
      hw.Execution (next answer) behind rest ending t := by
  obtain ⟨run, course⟩ := execution
  cases course with
  | rest => cases run; exact .inl rfl
  | access moved responded course =>
    cases run with
    | step answer run => exact .inr ⟨_, answer, _, _, rfl, moved, responded, run, course⟩

/-- The first look of a wait that is not cut off in front of it: it goes on waiting, or is over. -/
theorem Execution.await_cases {command : Command} {accepted : command.Answer → Bool}
    {next : command.Answer → Program α} {s t : σ} {ending : Ending α} {moments : List (Moment σ)}
    (execution : hw.Execution (.await command accepted next) s moments ending t) :
    ending = .cut ∨ ∃ met answer behind rest, moments = ⟨met, ⟨command, answer⟩⟩ :: rest ∧
      hw.MovesTo s met ∧ hw.responds met command answer behind ∧
      ((accepted answer = false ∧
          hw.Execution (.await command accepted next) behind rest ending t) ∨
        (accepted answer = true ∧ hw.Execution (next answer) behind rest ending t)) := by
  obtain ⟨run, course⟩ := execution
  cases course with
  | rest => cases run; exact .inl rfl
  | access moved responded course =>
    refine .inr ?_
    cases run with
    | refuse answer refused run =>
      exact ⟨_, answer, _, _, rfl, moved, responded, .inl ⟨refused, run, course⟩⟩
    | accept answer taken run =>
      exact ⟨_, answer, _, _, rfl, moved, responded, .inr ⟨taken, run, course⟩⟩

/-- Nothing is left to do but to return. -/
theorem Execution.done_cases {value : α} {s t : σ} {ending : Ending α} {moments : List (Moment σ)}
    (execution : hw.Execution (.done value) s moments ending t) :
    moments = [] ∧ hw.MovesTo s t ∧ (ending = .returned value ∨ ending = .cut) := by
  obtain ⟨run, course⟩ := execution
  cases course with
  | rest moved =>
    cases run with
    | done => exact ⟨rfl, moved, .inl rfl⟩
    | cut => exact ⟨rfl, moved, .inr rfl⟩
  | access => nomatch run

/-- What has stopped does nothing any more. -/
theorem Execution.stop_cases {reason : Stop} {s t : σ} {ending : Ending α}
    {moments : List (Moment σ)} (execution : hw.Execution (.stop reason) s moments ending t) :
    moments = [] ∧ hw.MovesTo s t ∧ (ending = .stopped reason ∨ ending = .cut) := by
  obtain ⟨run, course⟩ := execution
  cases course with
  | rest moved =>
    cases run with
    | stop => exact ⟨rfl, moved, .inl rfl⟩
    | cut => exact ⟨rfl, moved, .inr rfl⟩
  | access => nomatch run

/-- The first access of an execution that returns. -/
theorem Execution.of_step {command : Command} {next : command.Answer → Program α} {s t : σ}
    {value : α} {moments : List (Moment σ)}
    (execution : hw.Execution (.step command next) s moments (.returned value) t) :
    ∃ met answer behind rest, moments = ⟨met, ⟨command, answer⟩⟩ :: rest ∧
      hw.MovesTo s met ∧ hw.responds met command answer behind ∧
      hw.Execution (next answer) behind rest (.returned value) t := by
  rcases execution.step_cases with cut | first
  · cases cut
  · exact first

/-- The end of an execution that returns. -/
theorem Execution.of_done {value result : α} {s t : σ} {moments : List (Moment σ)}
    (execution : hw.Execution (.done value) s moments (.returned result) t) :
    moments = [] ∧ result = value ∧ hw.MovesTo s t := by
  obtain ⟨rfl, moved, eq | eq⟩ := execution.done_cases
  · cases eq
    exact ⟨rfl, rfl, moved⟩
  · cases eq

/-- What is made of a program's value changes nothing that is done. -/
theorem Execution.of_map {program : Program α} {f : α → β} {s t : σ} {result : β}
    {moments : List (Moment σ)}
    (execution : hw.Execution (f <$> program) s moments (.returned result) t) :
    ∃ value, f value = result ∧ hw.Execution program s moments (.returned value) t := by
  rw [← bind_pure_comp] at execution
  obtain ⟨first, _, value, _, rfl, before, ending⟩ := execution.of_bind
  obtain ⟨rfl, eq, moved⟩ := ending.of_done
  have whole : hw.Execution (program >>= pure) s (first ++ []) (.returned value) t :=
    before.bind ⟨.done value, .rest moved⟩
  rw [bind_pure] at whole
  exact ⟨value, eq.symm, whole⟩

/-- What has stopped has stopped for its reason, unless it is cut off before. -/
theorem Execution.of_stop {reason : Stop} {s t : σ} {moments : List (Moment σ)} {ending : Ending α}
    (execution : hw.Execution (.stop reason) s moments ending t) :
    ending = .stopped reason ∨ ending = .cut :=
  execution.stop_cases.2.2

/-- What is executed on hardware is executed on any part of it that moves and answers likewise. -/
theorem Execution.project {τ : Type} {part : Hardware τ} (view : σ → τ)
    (moves : ∀ ⦃s t⦄, hw.moves s t → part.moves (view s) (view t))
    (responds : ∀ ⦃s command answer t⦄, hw.responds s command answer t →
      part.responds (view s) command answer (view t))
    {program : Program α} {s t : σ} {ending : Ending α} {moments : List (Moment σ)}
    (execution : hw.Execution program s moments ending t) :
    part.Execution program (view s) (moments.map fun moment => ⟨view moment.state, moment.event⟩)
      ending (view t) := by
  obtain ⟨run, course⟩ := execution
  constructor
  · rw [List.map_map]
    exact run
  · clear run
    induction course with
    | rest moved => exact .rest (moved.lift view moves)
    | access moved responded _ ih => exact .access (moved.lift view moves) (responds responded) ih

/-! ### Guards -/

/-- What is to hold during an execution. -/
structure Guard (σ : Type) where
  /-- Of every access, in the state that it meets. -/
  access : σ → Command → Prop
  /-- Of every state that is passed. -/
  state : σ → Prop

/-- A guard that asks the same of every state. -/
def Guard.always (claim : σ → Prop) : Guard σ := ⟨fun s _ => claim s, claim⟩

/-- A guard that asks for nothing. -/
def Guard.none : Guard σ := .always fun _ => True

variable (hw)

/-- The hardware's own moves keep an assertion. -/
def Stable (assertion : σ → Prop) : Prop := ∀ ⦃s t⦄, hw.moves s t → assertion s → assertion t

/-- An assertion that may be made at any point of a guarded execution: the hardware's own moves keep
it, and it implies what the guard asks of every state. -/
structure Sound (guard : Guard σ) (assertion : σ → Prop) : Prop where
  stable : hw.Stable assertion
  state : ∀ ⦃s⦄, assertion s → guard.state s

/-- Whatever the hardware does, a program that starts in a state with `before` meets the guard at
every access and in every state, and if it returns, `after` holds of its value. -/
def Ensures (guard : Guard σ) (before : σ → Prop) (program : Program α) (after : α → σ → Prop) :
    Prop :=
  ∀ ⦃s moments ending t⦄, before s → hw.Execution program s moments ending t →
    (∀ moment ∈ moments, guard.access moment.state moment.event.command) ∧ guard.state t ∧
      ∀ value, ending = .returned value → after value t

variable {hw} {guard : Guard σ} {before : σ → Prop} {after : α → σ → Prop}

theorem Stable.movesTo {assertion : σ → Prop} (stable : hw.Stable assertion) {s t : σ}
    (moved : hw.MovesTo s t) (h : assertion s) : assertion t := by
  induction moved with
  | refl => exact h
  | tail _ step ih => exact stable step ih

theorem Stable.and {first second : σ → Prop} (h₁ : hw.Stable first) (h₂ : hw.Stable second) :
    hw.Stable fun s => first s ∧ second s :=
  fun _ _ moved h => ⟨h₁ moved h.1, h₂ moved h.2⟩

namespace Ensures

/-! ### One rule for each construct -/

theorem done {value : α} (sound : hw.Sound guard before)
    (h : ∀ ⦃s⦄, before s → after value s) : hw.Ensures guard before (.done value) after := by
  intro s moments ending t start execution
  obtain ⟨run, course⟩ := execution
  cases course with
  | rest moved =>
    have there := sound.stable.movesTo moved start
    refine ⟨by simp, sound.state there, ?_⟩
    intro result returned
    cases run with
    | done => cases returned; exact h there
    | cut => cases returned
  | access => nomatch run

theorem stop {reason : Stop} (sound : hw.Sound guard before) :
    hw.Ensures guard before (.stop reason) after := by
  intro s moments ending t start execution
  obtain ⟨run, course⟩ := execution
  cases course with
  | rest moved =>
    refine ⟨by simp, sound.state (sound.stable.movesTo moved start), ?_⟩
    intro result returned
    cases run <;> cases returned
  | access => nomatch run

/-- An access: the guard admits it in every state of the precondition, and each answer leads on. -/
theorem step {command : Command} {next : command.Answer → Program α}
    {between : command.Answer → σ → Prop} (sound : hw.Sound guard before)
    (access : ∀ ⦃s⦄, before s → guard.access s command)
    (responds : ∀ ⦃s answer t⦄, before s → hw.responds s command answer t → between answer t)
    (rest : ∀ answer, hw.Ensures guard (between answer) (next answer) after) :
    hw.Ensures guard before (.step command next) after := by
  intro s moments ending t start execution
  obtain ⟨run, course⟩ := execution
  cases course with
  | rest moved =>
    refine ⟨by simp, sound.state (sound.stable.movesTo moved start), ?_⟩
    intro result returned
    cases run; cases returned
  | @access _ met behind _ event moments moved responded course =>
    have there := sound.stable.movesTo moved start
    cases run with
    | step answer run =>
      obtain ⟨guarded, final, returns⟩ :=
        rest answer (responds there responded) ⟨run, course⟩
      refine ⟨?_, final, returns⟩
      rw [List.forall_mem_cons]
      exact ⟨access there, guarded⟩

/-- A wait: each refused answer keeps the precondition, which is the wait's invariant. -/
theorem await {command : Command} {accepted : command.Answer → Bool}
    {next : command.Answer → Program α} {between : command.Answer → σ → Prop}
    (sound : hw.Sound guard before) (access : ∀ ⦃s⦄, before s → guard.access s command)
    (refuses : ∀ ⦃s answer t⦄, before s → hw.responds s command answer t →
      accepted answer = false → before t)
    (accepts : ∀ ⦃s answer t⦄, before s → hw.responds s command answer t →
      accepted answer = true → between answer t)
    (rest : ∀ answer, hw.Ensures guard (between answer) (next answer) after) :
    hw.Ensures guard before (.await command accepted next) after := by
  intro s moments ending t start execution
  obtain ⟨run, course⟩ := execution
  -- each refused answer is one access of the same wait, so the induction is on the accesses
  induction moments generalizing s with
  | nil =>
    cases course with
    | rest moved =>
      refine ⟨by simp, sound.state (sound.stable.movesTo moved start), ?_⟩
      intro result returned
      cases run; cases returned
  | cons moment moments ih =>
    cases course with
    | access moved responded course =>
      have there := sound.stable.movesTo moved start
      rw [List.forall_mem_cons]
      cases run with
      | refuse answer refused run =>
        obtain ⟨guarded, final, returns⟩ :=
          ih (refuses there responded refused) run course
        exact ⟨⟨access there, guarded⟩, final, returns⟩
      | accept answer taken run =>
        obtain ⟨guarded, final, returns⟩ :=
          rest answer (accepts there responded taken) ⟨run, course⟩
        exact ⟨⟨access there, guarded⟩, final, returns⟩

/-- A sequence: what the first part ensures at its return is where the second one starts. -/
theorem bind {program : Program α} {f : α → Program β} {between : α → σ → Prop}
    {after : β → σ → Prop} (first : hw.Ensures guard before program between)
    (second : ∀ value, hw.Ensures guard (between value) (f value) after) :
    hw.Ensures guard before (program >>= f) after := by
  intro s moments ending t start execution
  obtain ⟨run, course⟩ := execution
  rcases run.of_bind with ⟨early, run, lifted⟩ | ⟨events₁, events₂, value, run₁, run₂, split⟩
  · -- the first part does not return, so neither does the sequence
    obtain ⟨guarded, final, -⟩ := first start ⟨run, course⟩
    refine ⟨guarded, final, ?_⟩
    intro result returned
    subst returned
    cases early <;> cases lifted
  · obtain ⟨moments₁, moments₂, rfl, rfl, rfl⟩ := List.map_eq_append_iff.1 split
    obtain ⟨middle, course₁, course₂⟩ := course.split
    obtain ⟨guarded₁, -, returns₁⟩ := first start ⟨run₁, course₁⟩
    obtain ⟨guarded₂, final, returns₂⟩ :=
      second value (returns₁ value rfl) ⟨run₂, course₂⟩
    refine ⟨?_, final, returns₂⟩
    intro moment member
    rcases List.mem_append.1 member with member | member
    · exact guarded₁ moment member
    · exact guarded₂ moment member

/-! ### Derived rules -/

/-- A sequence, with the name of what holds between its parts. -/
theorem via {program : Program α} {f : α → Program β} {after : β → σ → Prop}
    (between : α → σ → Prop) (first : hw.Ensures guard before program between)
    (second : ∀ value, hw.Ensures guard (between value) (f value) after) :
    hw.Ensures guard before (program >>= f) after :=
  bind first second

/-- A stronger precondition and a weaker postcondition. -/
theorem mono {program : Program α} {before' : σ → Prop} {after' : α → σ → Prop}
    (h : hw.Ensures guard before program after) (pre : ∀ ⦃s⦄, before' s → before s)
    (post : ∀ ⦃value s⦄, after value s → after' value s) :
    hw.Ensures guard before' program after' := by
  intro s moments ending t start execution
  obtain ⟨guarded, final, returns⟩ := h (pre start) execution
  exact ⟨guarded, final, fun value returned => post (returns value returned)⟩

/-- A stronger precondition. -/
theorem of_imp {program : Program α} {before' : σ → Prop}
    (h : hw.Ensures guard before program after) (pre : ∀ ⦃s⦄, before' s → before s) :
    hw.Ensures guard before' program after :=
  h.mono pre fun _ _ h => h

/-- A weaker guard. -/
theorem guard_mono {program : Program α} (h : hw.Ensures guard before program after)
    (weaker : Guard σ)
    (access : ∀ ⦃s command⦄, guard.access s command → weaker.access s command)
    (state : ∀ ⦃s⦄, guard.state s → weaker.state s) : hw.Ensures weaker before program after := by
  intro s moments ending t start execution
  obtain ⟨guarded, final, returns⟩ := h start execution
  exact ⟨fun moment member => access (guarded moment member), state final, returns⟩

/-- The postcondition alone. -/
theorem unguarded {program : Program α} (h : hw.Ensures guard before program after) :
    hw.Ensures .none before program after :=
  h.guard_mono .none (fun _ _ _ => trivial) fun _ _ => trivial

/-- Two things that a program ensures, at once. The second guard is not asked for. -/
theorem and {program : Program α} {guard' : Guard σ} {before' : σ → Prop} {after' : α → σ → Prop}
    (h : hw.Ensures guard before program after) (h' : hw.Ensures guard' before' program after') :
    hw.Ensures guard (fun s => before s ∧ before' s) program fun value s =>
      after value s ∧ after' value s := by
  intro s moments ending t start execution
  obtain ⟨guarded, final, returns⟩ := h start.1 execution
  obtain ⟨-, -, returns'⟩ := h' start.2 execution
  exact ⟨guarded, final, fun value returned => ⟨returns value returned, returns' value returned⟩⟩

/-- The guard holds of the state at the return too. -/
theorem and_state {program : Program α} (h : hw.Ensures guard before program after) :
    hw.Ensures guard before program fun value s => after value s ∧ guard.state s := by
  intro s moments ending t start execution
  obtain ⟨guarded, final, returns⟩ := h start execution
  exact ⟨guarded, final, fun value returned => ⟨returns value returned, final⟩⟩

/-- A guard that asks for nothing is met by every program. -/
theorem anything {program : Program α} :
    hw.Ensures .none (fun _ => True) program fun _ _ => True :=
  fun _ _ _ _ _ _ => ⟨fun _ _ => trivial, trivial, fun _ _ => trivial⟩

/-- What a precondition says of values alone is known from the start. -/
theorem of_fact {program : Program α} {fact : Prop}
    (h : fact → hw.Ensures guard before program after) :
    hw.Ensures guard (fun s => fact ∧ before s) program after :=
  fun _ _ _ _ start execution => h start.1 start.2 execution

/-- The rest may refer to the state that it starts in. -/
theorem of_each {program : Program α}
    (h : ∀ s, before s → hw.Ensures guard (fun t => t = s) program after) :
    hw.Ensures guard before program after :=
  fun s _ _ _ start execution => h s start rfl execution

/-- One access and its return. -/
theorem perform {command : Command} {after : command.Answer → σ → Prop}
    (sound : hw.Sound guard before) (sound' : ∀ answer, hw.Sound guard (after answer))
    (access : ∀ ⦃s⦄, before s → guard.access s command)
    (responds : ∀ ⦃s answer t⦄, before s → hw.responds s command answer t → after answer t) :
    hw.Ensures guard before (Program.perform command) after :=
  step sound access responds fun answer => done (sound' answer) fun _ h => h

/-- A checked computation in front: where it breaks off the program stops. -/
theorem ofExcept_bind {x : Except Fault α} {f : α → Program β} {after : β → σ → Prop}
    (sound : hw.Sound guard before)
    (h : ∀ value, x = .ok value → hw.Ensures guard before (f value) after) :
    hw.Ensures guard before (Program.ofExcept x >>= f) after := by
  cases x with
  | error fault => exact stop sound
  | ok value => exact h value rfl

/-- A list of programs, one behind the other; the invariant speaks of those still to come. -/
theorem forM {ι : Type} {f : ι → Program PUnit} (invariant : List ι → σ → Prop) (items : List ι)
    (sound : hw.Sound guard (invariant []))
    (h : ∀ item rest, item :: rest <:+ items →
      hw.Ensures guard (invariant (item :: rest)) (f item) fun _ => invariant rest) :
    hw.Ensures guard (invariant items) (items.forM f) fun _ => invariant [] := by
  induction items with
  | nil => exact done sound fun _ h => h
  | cons item rest ih =>
    refine bind (h item rest (List.suffix_refl _)) fun _ => ?_
    exact ih fun next later suffix => h next later (suffix.trans (List.suffix_cons item rest))

end Ensures

end Hardware

/-! ### Accesses of a program -/

namespace Program

variable {α β : Type} {K L : Command → Prop}

/-- Every access that a program may make is in `K`. -/
inductive Accesses (K : Command → Prop) : Program α → Prop where
  | done (value : α) : Accesses K (.done value)
  | stop (reason : Stop) : Accesses K (.stop reason)
  | step {command : Command} {next : command.Answer → Program α} (member : K command)
      (rest : ∀ answer, Accesses K (next answer)) : Accesses K (.step command next)
  | await {command : Command} {accepted : command.Answer → Bool}
      {next : command.Answer → Program α} (member : K command)
      (rest : ∀ answer, Accesses K (next answer)) : Accesses K (.await command accepted next)

theorem Accesses.perform (command : Command) (member : K command) :
    (Program.perform command).Accesses K :=
  .step member fun answer => .done answer

theorem Accesses.write {register : Register} {value : UInt32} (member : K (.write register value)) :
    (Program.write register value).Accesses K :=
  .perform _ member

theorem Accesses.mono {program : Program α} (h : program.Accesses K) (sub : ∀ c, K c → L c) :
    program.Accesses L := by
  induction h with
  | done value => exact .done value
  | stop reason => exact .stop reason
  | step member _ ih => exact .step (sub _ member) ih
  | await member _ ih => exact .await (sub _ member) ih

theorem accesses_true (program : Program α) : program.Accesses fun _ => True := by
  induction program with
  | done value => exact .done value
  | stop reason => exact .stop reason
  | step command next ih => exact .step trivial ih
  | await command accepted next ih => exact .await trivial ih

theorem Accesses.bind {program : Program α} {f : α → Program β} (h : program.Accesses K)
    (rest : ∀ value, (f value).Accesses K) : (program >>= f).Accesses K := by
  induction h with
  | done value => exact rest value
  | stop reason => exact .stop reason
  | step member _ ih => exact .step member ih
  | await member _ ih => exact .await member ih

theorem accesses_ofExcept (x : Except Fault α) : (ofExcept x).Accesses K := by
  cases x with
  | ok value => exact .done value
  | error fault => exact .stop (.fault fault)

theorem accesses_forM {ι : Type} {f : ι → Program PUnit} (items : List ι)
    (h : ∀ item ∈ items, (f item).Accesses K) : (items.forM f).Accesses K := by
  induction items with
  | nil => exact .done ()
  | cons item rest ih =>
    rw [List.forall_mem_cons] at h
    exact h.1.bind fun _ => ih h.2

end Program

namespace Hardware

variable {σ α : Type} {hw : Hardware σ} {guard : Guard σ} {K : Command → Prop}

variable (hw) in
/-- The commands of `K` do not disturb an assertion: where it holds the guard admits them, and it
holds behind them. -/
structure Keeps (guard : Guard σ) (K : Command → Prop) (assertion : σ → Prop) : Prop extends
    hw.Sound guard assertion where
  access : ∀ ⦃s command⦄, K command → assertion s → guard.access s command
  responds : ∀ ⦃s command answer t⦄, K command → assertion s →
    hw.responds s command answer t → assertion t

/-- Fewer commands keep an assertion too. -/
theorem Keeps.mono {L : Command → Prop} {assertion : σ → Prop} (keeps : hw.Keeps guard K assertion)
    (sub : ∀ ⦃command⦄, L command → K command) : hw.Keeps guard L assertion where
  toSound := keeps.toSound
  access := fun _ _ member => keeps.access (sub member)
  responds := fun _ _ _ _ member => keeps.responds (sub member)

/-- A program all of whose accesses keep an assertion keeps it. -/
theorem Keeps.ensures {assertion : σ → Prop} (keeps : hw.Keeps guard K assertion)
    {program : Program α} (h : program.Accesses K) :
    hw.Ensures guard assertion program fun _ => assertion := by
  -- over the program: the assertion is the invariant of every access and of every wait
  induction h with
  | done value => exact .done keeps.toSound fun _ h => h
  | stop reason => exact .stop keeps.toSound
  | step member _ ih =>
    exact .step keeps.toSound (fun _ => keeps.access member) (fun _ _ _ => keeps.responds member) ih
  | await member _ ih =>
    refine .await keeps.toSound (fun _ => keeps.access member) ?_ ?_ ih
    · exact fun _ _ _ start responded _ => keeps.responds member start responded
    · exact fun _ _ _ start responded _ => keeps.responds member start responded

end Hardware

end ColdBoot
