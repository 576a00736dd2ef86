import ColdBoot.Proofs.Hardware

/-! # Hardware that leaves no choice

Hardware that only changes when it is asked, and always answers alike, leaves a program one way to
go.

* **`Hardware.Comes`** – the only end that a program can come to, and **`Hardware.Follows`** – the
only way it can take;
* **`Hardware.Determined`** – hardware that leaves no choice;
* **`Hardware.Determined.along`** – there every execution goes along with one that is complete;
* **`Hardware.Determined.follows_step`** and the like – so the way of a program, one rule for each
construct. -/

namespace ColdBoot.Hardware

open Program

variable {σ α β : Type} (hw : Hardware σ)

/-! ### Programs with one end -/

/-- A program comes to an end, always to the same one, unless it is cut off before. -/
structure Comes (program : Program α) (s : σ) (ending : Ending α) (t : σ) : Prop where
  exists_execution : ∃ moments, hw.Execution program s moments ending t
  unique : ∀ {moments : List (Moment σ)} {ending' : Ending α} {t' : σ},
    hw.Execution program s moments ending' t' → ending' ≠ .cut → ending' = ending ∧ t' = t

/-- A program makes certain accesses with certain answers and then comes to an end, unless it is cut
off before; there is no other way. -/
structure Follows (program : Program α) (s : σ) (events : List Event) (ending : Ending α) (t : σ) :
    Prop where
  exists_execution : ∃ moments, hw.Execution program s moments ending t ∧
    moments.map Moment.event = events
  unique : ∀ {moments : List (Moment σ)} {ending' : Ending α} {t' : σ},
    hw.Execution program s moments ending' t' → moments.map Moment.event <+: events ∧
      (ending' ≠ .cut → moments.map Moment.event = events ∧ ending' = ending ∧ t' = t)

variable {hw}

namespace Follows

theorem comes {program : Program α} {s t : σ} {events : List Event} {ending : Ending α}
    (follows : hw.Follows program s events ending t) : hw.Comes program s ending t where
  exists_execution := by
    obtain ⟨moments, execution, -⟩ := follows.exists_execution
    exact ⟨moments, execution⟩
  unique execution complete := ((follows.unique execution).2 complete).2

theorem bind {program : Program α} {f : α → Program β} {s t u : σ} {value : α}
    {first second : List Event} {ending : Ending β}
    (before : hw.Follows program s first (.returned value) t)
    (behind : hw.Follows (f value) t second ending u) :
    hw.Follows (program >>= f) s (first ++ second) ending u where
  exists_execution := by
    obtain ⟨moments₁, execution₁, rfl⟩ := before.exists_execution
    obtain ⟨moments₂, execution₂, rfl⟩ := behind.exists_execution
    exact ⟨moments₁ ++ moments₂, execution₁.bind execution₂, List.map_append⟩
  unique := by
    intro moments ending' u' execution
    rcases execution.bind_cases with ⟨early, stopped, lifted⟩ | ⟨_, _, between, t', rfl, one, two⟩
    · -- the first part returns, so it can only have been cut off
      obtain ⟨part, ends⟩ := before.unique stopped
      refine ⟨part.trans (List.prefix_append first second), fun complete => ?_⟩
      cases early with
      | returned => cases lifted
      | stopped => cases (ends nofun).2.1
      | cut => cases lifted; exact absurd rfl complete
    · obtain ⟨same, eq, rfl⟩ := (before.unique one).2 nofun
      cases eq
      obtain ⟨part, ends⟩ := behind.unique two
      rw [List.map_append, same]
      refine ⟨(List.prefix_append_right_inj first).2 part, fun complete => ?_⟩
      obtain ⟨same, eq, rfl⟩ := ends complete
      exact ⟨by rw [same], eq, rfl⟩

end Follows

/-! ### Executions with a first access -/

section

variable {s t : σ} {command : Command} {moment : Moment σ} {moments : List (Moment σ)}
  {ending : Ending α} {next : command.Answer → Program α}

/-- An execution of an access and what follows it. -/
theorem Execution.step_cons (execution : hw.Execution (.step command next) s (moment :: moments)
    ending t) : ∃ met answer behind, moment = ⟨met, ⟨command, answer⟩⟩ ∧ hw.MovesTo s met ∧
      hw.responds met command answer behind ∧
      hw.Execution (next answer) behind moments ending t := by
  obtain ⟨run, course⟩ := execution
  cases course with
  | access moved responded course =>
    cases run with
    | step answer run => exact ⟨_, answer, _, rfl, moved, responded, run, course⟩

/-- An execution of a wait with a look: it goes on waiting, or is over. -/
theorem Execution.await_cons {accepted : command.Answer → Bool}
    (execution : hw.Execution (.await command accepted next) s (moment :: moments) ending t) :
    ∃ met answer behind, moment = ⟨met, ⟨command, answer⟩⟩ ∧ hw.MovesTo s met ∧
      hw.responds met command answer behind ∧
      ((accepted answer = false ∧
          hw.Execution (.await command accepted next) behind moments ending t) ∨
        (accepted answer = true ∧ hw.Execution (next answer) behind moments ending t)) := by
  obtain ⟨run, course⟩ := execution
  cases course with
  | access moved responded course =>
    cases run with
    | refuse answer refused run =>
      exact ⟨_, answer, _, rfl, moved, responded, .inl ⟨refused, run, course⟩⟩
    | accept answer taken run =>
      exact ⟨_, answer, _, rfl, moved, responded, .inr ⟨taken, run, course⟩⟩

end

/-! ### One way to go -/

/-- Hardware that only changes when it is asked, and always answers alike. -/
structure Determined (hw : Hardware σ) : Prop where
  still : ∀ s t, ¬ hw.moves s t
  responds : ∀ ⦃s command answer answer' t t'⦄, hw.responds s command answer t →
    hw.responds s command answer' t' → answer = answer' ∧ t = t'

namespace Determined

variable (determined : hw.Determined) {s t t' : σ}

include determined

theorem eq_of_movesTo (moved : hw.MovesTo s t) : t = s := by
  induction moved with
  | refl => rfl
  | tail _ move => exact absurd move (determined.still _ _)

/-- The first access of two executions that make one. -/
theorem same_access {command : Command} {answer answer' : command.Answer}
    {met met' behind behind' : σ}
    (moved : hw.MovesTo s met) (responded : hw.responds met command answer behind)
    (moved' : hw.MovesTo s met') (responded' : hw.responds met' command answer' behind') :
    met' = met ∧ answer' = answer ∧ behind' = behind := by
  obtain rfl := determined.eq_of_movesTo moved
  obtain rfl := determined.eq_of_movesTo moved'
  obtain ⟨rfl, rfl⟩ := determined.responds responded responded'
  exact ⟨rfl, rfl, rfl⟩

/-- **Every execution goes along** with one that is complete: it is the same, or it is cut off on
the way. -/
theorem along {program : Program α} {moments moments' : List (Moment σ)} {ending ending' : Ending α}
    (complete : ending ≠ .cut) (first : hw.Execution program s moments ending t)
    (second : hw.Execution program s moments' ending' t') :
    moments' <+: moments ∧
      (ending' ≠ .cut → moments' = moments ∧ ending' = ending ∧ t' = t) := by
  -- over the program, and in a wait over its looks
  induction program generalizing s moments moments' with
  | done value =>
    obtain ⟨rfl, moved, ends⟩ := first.done_cases
    obtain ⟨rfl, moved', ends'⟩ := second.done_cases
    refine ⟨List.prefix_rfl, fun complete' => ⟨rfl, ?_, ?_⟩⟩
    · exact (ends'.resolve_right complete').trans (ends.resolve_right complete).symm
    · rw [determined.eq_of_movesTo moved, determined.eq_of_movesTo moved']
  | stop reason =>
    obtain ⟨rfl, moved, ends⟩ := first.stop_cases
    obtain ⟨rfl, moved', ends'⟩ := second.stop_cases
    refine ⟨List.prefix_rfl, fun complete' => ⟨rfl, ?_, ?_⟩⟩
    · exact (ends'.resolve_right complete').trans (ends.resolve_right complete).symm
    · rw [determined.eq_of_movesTo moved, determined.eq_of_movesTo moved']
  | step command next ih =>
    obtain ⟨met, answer, _, _, rfl, moved, responded, further⟩ :=
      first.step_cases.resolve_left complete
    cases moments' with
    | nil =>
      refine ⟨List.nil_prefix, fun complete' => ?_⟩
      obtain ⟨_, _, _, _, fewer, -⟩ := second.step_cases.resolve_left complete'
      cases fewer
    | cons moment' moments' =>
      obtain ⟨met', answer', _, rfl, moved', responded', further'⟩ := second.step_cons
      obtain ⟨rfl, rfl, rfl⟩ := determined.same_access moved responded moved' responded'
      obtain ⟨part, ends⟩ := ih answer' further further'
      refine ⟨List.cons_prefix_cons.2 ⟨rfl, part⟩, fun complete' => ?_⟩
      obtain ⟨rfl, rfl, rfl⟩ := ends complete'
      exact ⟨rfl, rfl, rfl⟩
  | await command accepted next ih =>
    induction moments generalizing s moments' with
    | nil =>
      obtain ⟨_, _, _, _, fewer, -⟩ := first.await_cases.resolve_left complete
      cases fewer
    | cons moment moments looks =>
      obtain ⟨met, answer, _, rfl, moved, responded, further⟩ := first.await_cons
      cases moments' with
      | nil =>
        refine ⟨List.nil_prefix, fun complete' => ?_⟩
        obtain ⟨_, _, _, _, fewer, -⟩ := second.await_cases.resolve_left complete'
        cases fewer
      | cons moment' moments' =>
        obtain ⟨met', answer', _, rfl, moved', responded', further'⟩ := second.await_cons
        obtain ⟨rfl, rfl, rfl⟩ := determined.same_access moved responded moved' responded'
        have rest : moments' <+: moments ∧
            (ending' ≠ .cut → moments' = moments ∧ ending' = ending ∧ t' = t) := by
          rcases further with ⟨refused, waits⟩ | ⟨taken, goes⟩
          · obtain ⟨-, waits'⟩ := further'.resolve_right fun other =>
              absurd (refused.symm.trans other.1) nofun
            exact looks waits waits'
          · obtain ⟨-, goes'⟩ := further'.resolve_left fun other =>
              absurd (other.1.symm.trans taken) nofun
            exact ih answer' goes goes'
        refine ⟨List.cons_prefix_cons.2 ⟨rfl, rest.1⟩, fun complete' => ?_⟩
        obtain ⟨rfl, rfl, rfl⟩ := rest.2 complete'
        exact ⟨rfl, rfl, rfl⟩

/-- A program has one execution from each state, unless it is cut off. -/
theorem unique {program : Program α} {moments moments' : List (Moment σ)}
    {ending ending' : Ending α}
    (complete : ending ≠ .cut) (complete' : ending' ≠ .cut)
    (first : hw.Execution program s moments ending t)
    (second : hw.Execution program s moments' ending' t') :
    moments = moments' ∧ ending = ending' ∧ t = t' := by
  obtain ⟨rfl, rfl, rfl⟩ := (determined.along complete first second).2 complete'
  exact ⟨rfl, rfl, rfl⟩

/-- The way of a complete execution is the only one. -/
theorem follows {program : Program α} {moments : List (Moment σ)} {ending : Ending α}
    (execution : hw.Execution program s moments ending t) (complete : ending ≠ .cut) :
    hw.Follows program s (moments.map Moment.event) ending t where
  exists_execution := ⟨moments, execution, rfl⟩
  unique := by
    intro moments' ending' t' other
    obtain ⟨part, ends⟩ := determined.along complete execution other
    refine ⟨part.map Moment.event, fun complete' => ?_⟩
    obtain ⟨rfl, rfl, rfl⟩ := ends complete'
    exact ⟨rfl, rfl, rfl⟩

/-! ### One rule for each construct -/

theorem follows_done (value : α) : hw.Follows (.done value) s [] (.returned value) s :=
  determined.follows ⟨.done value, .rest .refl⟩ nofun

theorem follows_stop (reason : Stop) :
    hw.Follows (.stop reason : Program α) s [] (.stopped reason) s :=
  determined.follows ⟨.stop reason, .rest .refl⟩ nofun

section

variable {command : Command} {answer : command.Answer} {behind : σ} {events : List Event}
  {ending : Ending α} (responded : hw.responds s command answer behind)

include responded

/-- A program that makes an access first and then goes the way of another one. -/
theorem follows_access {program rest : Program α}
    (goes : ∀ {events}, rest.Runs events ending → program.Runs (⟨command, answer⟩ :: events) ending)
    (follows : hw.Follows rest behind events ending t) (complete : ending ≠ .cut) :
    hw.Follows program s (⟨command, answer⟩ :: events) ending t := by
  obtain ⟨moments, ⟨run, course⟩, rfl⟩ := follows.exists_execution
  have execution : hw.Execution program s (⟨s, ⟨command, answer⟩⟩ :: moments) ending t :=
    ⟨goes run, .access .refl responded course⟩
  exact determined.follows execution complete

variable {next : command.Answer → Program α}

theorem follows_step (rest : hw.Follows (next answer) behind events ending t)
    (complete : ending ≠ .cut := by nofun) :
    hw.Follows (.step command next) s (⟨command, answer⟩ :: events) ending t :=
  determined.follows_access responded (.step answer) rest complete

variable {accepted : command.Answer → Bool}

/-- A look that is refused. -/
theorem follows_refused (refused : accepted answer = false)
    (rest : hw.Follows (.await command accepted next) behind events ending t)
    (complete : ending ≠ .cut := by nofun) :
    hw.Follows (.await command accepted next) s (⟨command, answer⟩ :: events) ending t :=
  determined.follows_access responded (.refuse answer refused) rest complete

/-- The look that is accepted. -/
theorem follows_accepted (taken : accepted answer = true)
    (rest : hw.Follows (next answer) behind events ending t)
    (complete : ending ≠ .cut := by nofun) :
    hw.Follows (.await command accepted next) s (⟨command, answer⟩ :: events) ending t :=
  determined.follows_access responded (.accept answer taken) rest complete

end

end Determined

end ColdBoot.Hardware
