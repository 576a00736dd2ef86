import ColdBoot.Proofs.Hardware

/-! # Two executions side by side

What two machines have to have in common so that a program cannot tell them apart: they are answered
alike, and go on having it in common, whenever either of them moves. Then the two executions of a
program can be followed side by side.

* **`Hardware.Mirrors`** – what has to be shown of the two machines;
* **`Hardware.Mirrors.exists_of_await`** – a wait for the same takes equally long on either side;
* **`Hardware.Execution.exists_of_wait`** – a wait by looks that change nothing takes as long as it
  takes, and leaves everything to the hardware. -/

namespace ColdBoot.Hardware

variable {σ α β : Type} {hw hw' : Hardware σ} {s s' t t' : σ} {moments moments' : List (Moment σ)}

/-! ### Safe accesses -/

section Safe

variable {safe : σ → Command → Prop}

/-- No access of an execution is unsafe. -/
def AllSafe (safe : σ → Command → Prop) (moments : List (Moment σ)) : Prop :=
  ∀ moment ∈ moments, safe moment.state moment.event.command

theorem allSafe_cons {moment : Moment σ} :
    AllSafe safe (moment :: moments) ↔
      safe moment.state moment.event.command ∧ AllSafe safe moments :=
  List.forall_mem_cons

/-- What is safe is safe from any moment on. -/
theorem AllSafe.of_suffix {rest : List (Moment σ)} (safely : AllSafe safe moments)
    (suffix : rest <:+ moments) : AllSafe safe rest :=
  fun moment member => safely moment (suffix.mem member)

end Safe

/-! ### Mirrors -/

variable (hw hw') in
/-- States that are the same answer alike to plain accesses that are safe, and stay the same,
whenever either hardware moves. -/
structure Mirrors (plain : Command → Prop) (safe : σ → Command → Prop) (same : σ → σ → Prop) :
    Prop where
  moves : ∀ ⦃s s' met met'⦄, same s s' → hw.MovesTo s met → hw'.MovesTo s' met' → same met met'
  responds : ∀ ⦃s s' command answer answer' t t'⦄, plain command → same s s' → safe s command →
    safe s' command → hw.responds s command answer t → hw'.responds s' command answer' t' →
    answer = answer' ∧ same t t'

section Waits

variable {ending : Ending α} {ending' : Ending β} {command : Command}
  {accepted : command.Answer → Bool} {next : command.Answer → Program α}
  {next' : command.Answer → Program β}

/-- **Waits for the same on either side** take equally long: the same answers are refused. -/
theorem Mirrors.exists_of_await {plain : Command → Prop} {safe : σ → Command → Prop}
    {same : σ → σ → Prop} (mirrors : hw.Mirrors hw' plain safe same) (plainly : plain command)
    (start : same s s') (safely : AllSafe safe moments) (safely' : AllSafe safe moments')
    (complete : ending ≠ .cut) (complete' : ending' ≠ .cut)
    (first : hw.Execution (.await command accepted next) s moments ending t)
    (second : hw'.Execution (.await command accepted next') s' moments' ending' t') :
    ∃ (asked : List Event) (answer : command.Answer) (behind behind' : σ)
      (rest rest' : List (Moment σ)), (∀ event ∈ asked, plain event.command) ∧
        moments.map Moment.event = asked ++ rest.map Moment.event ∧ rest <:+ moments ∧
        moments'.map Moment.event = asked ++ rest'.map Moment.event ∧ rest' <:+ moments' ∧
        same behind behind' ∧ hw.Execution (next answer) behind rest ending t ∧
        hw'.Execution (next' answer) behind' rest' ending' t' := by
  -- the induction is on the looks of one side, each of which has its counterpart on the other one
  induction moments generalizing s s' moments' with
  | nil =>
    rcases first.await_cases with cut | ⟨_, _, _, _, fewer, -⟩
    · exact absurd cut complete
    · cases fewer
  | cons moment moments ih =>
    rcases first.await_cases with cut | ⟨met, answer, behind, _, eq, moved, responded, further⟩
    · exact absurd cut complete
    rcases second.await_cases with
      cut | ⟨met', answer', behind', rest', rfl, moved', responded', further'⟩
    · exact absurd cut complete'
    cases eq
    rw [allSafe_cons] at safely safely'
    have there := mirrors.moves start moved moved'
    obtain ⟨rfl, still⟩ := mirrors.responds plainly there safely.1 safely'.1 responded responded'
    rcases further with ⟨refused, waits⟩ | ⟨taken, goes⟩
    · rcases further' with ⟨-, waits'⟩ | ⟨taken, -⟩
      · obtain ⟨asked, last, final, final', rest, rest', all, eq, suffix, eq', suffix', ends⟩ :=
          ih still safely.2 safely'.2 waits waits'
        refine ⟨⟨command, answer⟩ :: asked, last, final, final', rest, rest',
          List.forall_mem_cons.2 ⟨plainly, all⟩, ?_, suffix.trans (List.suffix_cons _ _), ?_,
          suffix'.trans (List.suffix_cons _ _), ends⟩
        · rw [List.map_cons, eq, List.cons_append]
        · rw [List.map_cons, eq', List.cons_append]
      · rw [refused] at taken
        cases taken
    · rcases further' with ⟨refused, -⟩ | ⟨-, goes'⟩
      · rw [taken] at refused
        cases refused
      · exact ⟨[⟨command, answer⟩], answer, behind, behind', moments, rest',
          List.forall_mem_singleton.2 plainly, rfl, List.suffix_cons _ _, rfl,
          List.suffix_cons _ _, still, goes, goes'⟩

/-- Waiting by looks that change nothing leaves time to the hardware, and does nothing else. -/
theorem Execution.exists_of_wait
    (still : ∀ ⦃s answer t⦄, hw.responds s command answer t → t = s) (complete : ending ≠ .cut)
    (execution : hw.Execution (.await command accepted next) s moments ending t) :
    ∃ (answers : List command.Answer) (answer : command.Answer) (met : σ)
      (rest : List (Moment σ)), answers ≠ [] ∧ accepted answer = true ∧ rest <:+ moments ∧
        moments.map Moment.event = answers.map (Event.mk command) ++ rest.map Moment.event ∧
        hw.MovesTo s met ∧ hw.Execution (next answer) met rest ending t := by
  -- over the looks, of which the last one ends the wait
  induction moments generalizing s with
  | nil =>
    rcases execution.await_cases with cut | ⟨_, _, _, _, fewer, -⟩
    · exact absurd cut complete
    · cases fewer
  | cons moment moments ih =>
    rcases execution.await_cases with cut | ⟨met, answer, behind, _, eq, moved, responded, further⟩
    · exact absurd cut complete
    cases eq
    obtain rfl : behind = met := still responded
    rcases further with ⟨-, waits⟩ | ⟨taken, goes⟩
    · obtain ⟨answers, last, met, rest, -, taken, suffix, same, moved', execution⟩ := ih waits
      refine ⟨answer :: answers, last, met, rest, List.cons_ne_nil _ _, taken,
        suffix.trans (List.suffix_cons _ _), ?_, moved.trans moved', execution⟩
      rw [List.map_cons, same]
      rfl
    · exact ⟨[answer], answer, behind, moments, List.cons_ne_nil _ _, taken, List.suffix_cons _ _,
        rfl, moved, goes⟩

end Waits

end ColdBoot.Hardware
