import ColdBoot.Program

/-! # Runs

What a program may do on any machine at all. An **`Event`** is one access with the answer it got, and
`Program.Runs` relates a program to the events of a run and to the run's **`Ending`**. Answers are
not restricted here: a run of the program on a given machine is a run whose answers that machine
gives. A run may be cut off anywhere, so that whatever holds of the events of every run holds at
every moment of it.

* **`Program.Runs.bind`**, **`Program.Runs.of_bind`** – runs of a sequence are runs of its parts, one
  behind the other;
* **`Program.Runs.take`** – a run cut off earlier is a run. -/

namespace ColdBoot

/-- One access, with the answer it got. -/
structure Event where
  command : Command
  answer : command.Answer

/-- How a run ends. -/
inductive Ending (α : Type) where
  /-- The program is done. -/
  | returned (value : α)
  /-- The program has stopped. -/
  | stopped (reason : Stop)
  /-- The program is still at work. -/
  | cut

namespace Program

variable {α β : Type}

/-- The runs of a program: its events, in order, and how it ends. -/
inductive Runs : Program α → List Event → Ending α → Prop where
  | done (value : α) : Runs (.done value) [] (.returned value)
  | stop (reason : Stop) : Runs (.stop reason) [] (.stopped reason)
  | cut (program : Program α) : Runs program [] .cut
  | step {command : Command} {next : command.Answer → Program α} {events : List Event}
      {ending : Ending α} (answer : command.Answer) (rest : Runs (next answer) events ending) :
      Runs (.step command next) (⟨command, answer⟩ :: events) ending
  /-- A wait refuses an answer and looks once more. -/
  | refuse {command : Command} {accepted : command.Answer → Bool}
      {next : command.Answer → Program α} {events : List Event} {ending : Ending α}
      (answer : command.Answer) (refused : accepted answer = false)
      (rest : Runs (.await command accepted next) events ending) :
      Runs (.await command accepted next) (⟨command, answer⟩ :: events) ending
  /-- A wait accepts an answer and is over. -/
  | accept {command : Command} {accepted : command.Answer → Bool}
      {next : command.Answer → Program α} {events : List Event} {ending : Ending α}
      (answer : command.Answer) (taken : accepted answer = true)
      (rest : Runs (next answer) events ending) :
      Runs (.await command accepted next) (⟨command, answer⟩ :: events) ending

namespace Runs

/-- How a sequence ends whose first part ended without a value. -/
def lift : Ending α → Option (Ending β)
  | .returned _ => none
  | .stopped reason => some (.stopped reason)
  | .cut => some .cut

/-- A run of the first part and a run of what its value selects make a run of the sequence. -/
theorem bind {program : Program α} {f : α → Program β} {first second : List Event} {value : α}
    {ending : Ending β} (run : Runs program first (.returned value))
    (rest : Runs (f value) second ending) : Runs (program >>= f) (first ++ second) ending := by
  generalize h : Ending.returned value = final at run
  induction run with
  | done => cases h; exact rest
  | stop => cases h
  | cut => cases h
  | step answer _ ih => exact .step answer (ih h)
  | refuse answer refused _ ih => exact .refuse answer refused (ih h)
  | accept answer taken _ ih => exact .accept answer taken (ih h)

/-- A sequence ends with its first part if that ends without a value. -/
theorem bind_of_lift {program : Program α} {f : α → Program β} {events : List Event}
    {ending : Ending α} {final : Ending β} (run : Runs program events ending)
    (h : lift ending = some final) : Runs (program >>= f) events final := by
  induction run with
  | done => cases h
  | stop reason => cases h; exact .stop reason
  | cut program => cases h; exact .cut _
  | step answer _ ih => exact .step answer (ih h)
  | refuse answer refused _ ih => exact .refuse answer refused (ih h)
  | accept answer taken _ ih => exact .accept answer taken (ih h)

/-- Every run of a sequence comes about in one of these two ways. -/
theorem of_bind {program : Program α} {f : α → Program β} {events : List Event}
    {final : Ending β} (run : Runs (program >>= f) events final) :
    (∃ ending, Runs program events ending ∧ lift ending = some final) ∨
      ∃ first second value, Runs program first (.returned value) ∧
        Runs (f value) second final ∧ events = first ++ second := by
  induction program generalizing events final with
  | done value => exact .inr ⟨[], events, value, .done value, run, rfl⟩
  | stop reason =>
    rw [stop_bind] at run
    cases run with
    | stop => exact .inl ⟨_, .stop reason, rfl⟩
    | cut => exact .inl ⟨_, .cut _, rfl⟩
  | step command next ih =>
    rw [step_bind] at run
    cases run with
    | cut => exact .inl ⟨_, .cut _, rfl⟩
    | step answer rest =>
      rcases ih answer rest with ⟨ending, before, h⟩ | ⟨first, second, value, before, after, h⟩
      · exact .inl ⟨ending, .step answer before, h⟩
      · exact .inr ⟨_ :: first, second, value, .step answer before, after, by rw [h]; rfl⟩
  | await command accepted next ih =>
    rw [await_bind] at run
    generalize h : Program.await command accepted (fun answer => next answer >>= f) = whole at run
    induction run with
    | done => cases h
    | stop => cases h
    | cut => exact .inl ⟨_, .cut _, rfl⟩
    | step => cases h
    | refuse answer refused _ ihRest =>
      cases h
      rcases ihRest rfl with ⟨ending, before, h⟩ | ⟨first, second, value, before, after, h⟩
      · exact .inl ⟨ending, .refuse answer refused before, h⟩
      · exact .inr ⟨_ :: first, second, value, .refuse answer refused before, after, by rw [h]; rfl⟩
    | accept answer taken rest =>
      cases h
      rcases ih answer rest with ⟨ending, before, h⟩ | ⟨first, second, value, before, after, h⟩
      · exact .inl ⟨ending, .accept answer taken before, h⟩
      · exact .inr ⟨_ :: first, second, value, .accept answer taken before, after, by rw [h]; rfl⟩

/-- If it returns, both parts do. -/
theorem of_bind_returned {program : Program α} {f : α → Program β} {events : List Event} {value : β}
    (run : Runs (program >>= f) events (.returned value)) :
    ∃ first second between, Runs program first (.returned between) ∧
      Runs (f between) second (.returned value) ∧ events = first ++ second := by
  rcases run.of_bind with ⟨early, -, lifted⟩ | parts
  · cases early <;> cases lifted
  · exact parts

/-- A repeated access returns with the first answer that is accepted. -/
theorem of_repeatUntil {command : Command} {accepted : command.Answer → Bool} {events : List Event}
    {value : command.Answer} (run : Runs (repeatUntil command accepted) events (.returned value)) :
    ∃ refused, events = refused ++ [⟨command, value⟩] ∧ accepted value = true := by
  generalize whole : repeatUntil command accepted = program at run
  generalize final : Ending.returned value = ending at run
  induction run with
  | done => cases whole
  | stop => cases whole
  | cut => cases final
  | step => cases whole
  | refuse answer refused _ ih =>
    obtain ⟨refused, rfl, taken⟩ := ih whole final
    exact ⟨_ :: refused, rfl, taken⟩
  | accept answer taken rest =>
    cases whole
    cases rest with
    | done => cases final; exact ⟨[], rfl, taken⟩
    | cut => cases final

/-- A run cut off after `n` events is a run. -/
theorem take {program : Program α} {events : List Event} {ending : Ending α}
    (run : Runs program events ending) (n : Nat) : Runs program (events.take n) .cut := by
  induction run generalizing n with
  | done => rw [List.take_nil]; exact .cut _
  | stop => rw [List.take_nil]; exact .cut _
  | cut => rw [List.take_nil]; exact .cut _
  | step answer _ ih =>
    cases n with
    | zero => exact .cut _
    | succ n => exact .step answer (ih n)
  | refuse answer refused _ ih =>
    cases n with
    | zero => exact .cut _
    | succ n => exact .refuse answer refused (ih n)
  | accept answer taken _ ih =>
    cases n with
    | zero => exact .cut _
    | succ n => exact .accept answer taken (ih n)

end Runs

end Program

end ColdBoot
