import ColdBoot.Proofs.Determined
import ColdBoot.Proofs.Silence

/-! # Programs that differ in their remarks

A remark is answered with nothing, so a program learns nothing from it. Two programs that differ in
their remarks only differ in nothing else on hardware that takes no notice of remarks either.

* **`Program.Kin`** – programs that differ in their remarks only, with one rule for each construct;
* **`Hardware.Overlooks`** – hardware that takes no notice of remarks: what is in view besides them
decides every other answer, and what is in view afterwards;
* **`Hardware.Overlooks.exists_counterpart`** – there every execution of a program has a counterpart
among those of its kin, the same but for remarks;
* **`Hardware.Overlooks.agree`** – so the two agree where the hardware leaves no choice. -/

namespace ColdBoot

/-! ### Kin -/

namespace Program

variable {α β : Type}

/-- Programs that differ in their remarks only, and look at none of them. They return the same. -/
inductive Kin : Program α → Program α → Prop where
  | done (value : α) : Kin (.done value) (.done value)
  | stop (reason : Stop) : Kin (.stop reason) (.stop reason)
  | step {command : Command} {next next' : command.Answer → Program α} (silent : command.IsSilent)
      (rest : ∀ answer, Kin (next answer) (next' answer)) :
      Kin (.step command next) (.step command next')
  | await {command : Command} {accepted : command.Answer → Bool}
      {next next' : command.Answer → Program α} (silent : command.IsSilent)
      (rest : ∀ answer, Kin (next answer) (next' answer)) :
      Kin (.await command accepted next) (.await command accepted next')
  /-- A remark that the other one does not make. -/
  | left {command : Command} {next : command.Answer → Program α} {program' : Program α}
      (remark : command.IsRemark) (rest : ∀ answer, Kin (next answer) program') :
      Kin (.step command next) program'
  /-- A remark that only the other one makes. -/
  | right {command : Command} {next' : command.Answer → Program α} {program : Program α}
      (remark : command.IsRemark) (rest : ∀ answer, Kin program (next' answer)) :
      Kin program (.step command next')

/-- A program that makes remarks and returns. -/
abbrev OnlyRemarks (program : Program Unit) : Prop := Kin program (.done ())

namespace Kin

variable {program program' : Program α}

theorem symm (h : Kin program program') : Kin program' program := by
  induction h with
  | done value => exact .done value
  | stop reason => exact .stop reason
  | step silent _ ih => exact .step silent ih
  | await silent _ ih => exact .await silent ih
  | left remark _ ih => exact .right remark ih
  | right remark _ ih => exact .left remark ih

/-- A silent program is its own kin. -/
theorem refl (h : program.Accesses Command.IsSilent) : Kin program program := by
  induction h with
  | done value => exact .done value
  | stop reason => exact .stop reason
  | step silent _ ih => exact .step silent ih
  | await silent _ ih => exact .await silent ih

theorem bind {f f' : α → Program β} (h : Kin program program')
    (rest : ∀ value, Kin (f value) (f' value)) : Kin (program >>= f) (program' >>= f') := by
  induction h with
  | done value => exact rest value
  | stop reason => exact .stop reason
  | step silent _ ih => exact .step silent ih
  | await silent _ ih => exact .await silent ih
  | left remark _ ih => exact .left remark ih
  | right remark _ ih => exact .right remark ih

/-- The same silent part in front of kin. -/
theorem behind {f f' : α → Program β} (h : program.Accesses Command.IsSilent)
    (rest : ∀ value, Kin (f value) (f' value)) : Kin (program >>= f) (program >>= f') :=
  (refl h).bind rest

end Kin

namespace OnlyRemarks

theorem write {register : Register} (notepad : register.IsNotepad) (value : UInt32) :
    OnlyRemarks (Program.write register value) :=
  .left notepad fun _ => .done ()

theorem bind {first second : Program Unit} (h : OnlyRemarks first) (h' : OnlyRemarks second) :
    OnlyRemarks (first >>= fun _ => second) :=
  Kin.bind h fun _ => h'

theorem forM {ι : Type} {f : ι → Program PUnit} (items : List ι) (h : ∀ item, OnlyRemarks (f item)) :
    OnlyRemarks (items.forM f) := by
  induction items with
  | nil => exact .done ()
  | cons item rest ih => exact (h item).bind ih

/-- **Whatever remarks two programs make**, they are kin if they make nothing else. -/
theorem kin {program program' : Program Unit} (h : OnlyRemarks program) (h' : OnlyRemarks program') :
    Kin program program' := by
  -- over the first program's remarks, behind the last of which only the other's are left
  have all {quiet : Program Unit} (remarks : Kin program quiet) (last : quiet = .done ()) :
      Kin program program' := by
    clear h
    induction remarks with
    | done value => exact h'.symm
    | stop | step | await | right => cases last
    | left remark _ ih => exact .left remark fun answer => ih answer last
  exact all h rfl

end OnlyRemarks

end Program

open Program

/-! ### Hardware that takes no notice -/

/-- What is left of an execution without its remarks, each access with what it met in view. -/
def besidesRemarks {σ ρ : Type} (view : σ → ρ) (moments : List (Moment σ)) : List (Moment ρ) :=
  (moments.filter fun moment => ¬ moment.event.command.IsRemark).map fun moment =>
    ⟨view moment.state, moment.event⟩

section

variable {σ ρ : Type} {view : σ → ρ} {met met' : σ} {event : Event} {moments moments' : List (Moment σ)}

theorem besidesRemarks_cons_of_remark (remark : event.command.IsRemark) :
    besidesRemarks view (⟨met, event⟩ :: moments) = besidesRemarks view moments := by
  simp [besidesRemarks, remark]

/-- The same silent access in front, with the same in view. -/
theorem besidesRemarks_cons_congr (silent : event.command.IsSilent) (same : view met = view met')
    (alike : besidesRemarks view moments = besidesRemarks view moments') :
    besidesRemarks view (⟨met, event⟩ :: moments) =
      besidesRemarks view (⟨met', event⟩ :: moments') := by
  simp only [besidesRemarks, List.filter_cons, silent.not_isRemark, not_false_eq_true, decide_true,
    if_true, List.map_cons, same] at alike ⊢
  rw [alike]

end

namespace Hardware

variable {σ ρ α : Type}

/-- Hardware that takes no notice of remarks: they can be made at any time and change nothing in
view, and what is in view decides how the hardware moves and how it answers whatever is silent. -/
structure Overlooks (hw : Hardware σ) (view : σ → ρ) : Prop where
  accepts : ∀ ⦃command⦄, command.IsRemark → ∀ s, ∃ answer t, hw.responds s command answer t
  remarks : ∀ ⦃s command answer t⦄, command.IsRemark → hw.responds s command answer t →
    view t = view s
  moves : ∀ ⦃s s' t⦄, view s = view s' → hw.moves s t → ∃ t', hw.MovesTo s' t' ∧ view t = view t'
  responds : ∀ ⦃s s' command answer t⦄, command.IsSilent → view s = view s' →
    hw.responds s command answer t → ∃ t', hw.responds s' command answer t' ∧ view t = view t'

namespace Overlooks

variable {hw : Hardware σ} {view : σ → ρ} (overlooks : hw.Overlooks view) {s s' t : σ}

include overlooks

theorem movesTo (start : view s = view s') (moved : hw.MovesTo s t) :
    ∃ t', hw.MovesTo s' t' ∧ view t = view t' := by
  induction moved with
  | refl => exact ⟨s', .refl, start⟩
  | tail _ move ih =>
    obtain ⟨between, moved', same⟩ := ih
    obtain ⟨t', further, same⟩ := overlooks.moves same move
    exact ⟨t', moved'.trans further, same⟩

/-- What comes to rest without another access has its counterpart in anything that ends alike. -/
theorem exists_rest {program' : Program α} {ending : Ending α} (start : view s = view s')
    (moved : hw.MovesTo s t) (run : program'.Runs [] ending) :
    ∃ moments' t', hw.Execution program' s' moments' ending t' ∧
      besidesRemarks view [] = besidesRemarks view moments' ∧ view t = view t' := by
  obtain ⟨t', moved', same⟩ := overlooks.movesTo start moved
  exact ⟨[], t', ⟨run, .rest moved'⟩, rfl, same⟩

/-- An access has its counterpart in front of whatever has one. -/
theorem exists_access {program' rest' : Program α} {ending : Ending α} {command : Command}
    {answer : command.Answer} {met behind : σ} {moments : List (Moment σ)}
    (silent : command.IsSilent) (start : view s = view s') (moved : hw.MovesTo s met)
    (responded : hw.responds met command answer behind)
    (runs : ∀ {events}, rest'.Runs events ending → program'.Runs (⟨command, answer⟩ :: events) ending)
    (rest : ∀ behind', view behind = view behind' → ∃ moments' t',
      hw.Execution rest' behind' moments' ending t' ∧
        besidesRemarks view moments = besidesRemarks view moments' ∧ view t = view t') :
    ∃ moments' t', hw.Execution program' s' moments' ending t' ∧
      besidesRemarks view (⟨met, ⟨command, answer⟩⟩ :: moments) = besidesRemarks view moments' ∧
        view t = view t' := by
  obtain ⟨met', moved', same⟩ := overlooks.movesTo start moved
  obtain ⟨behind', responded', still⟩ := overlooks.responds silent same responded
  obtain ⟨moments', t', further, alike, final⟩ := rest behind' still
  exact ⟨⟨met', ⟨command, answer⟩⟩ :: moments', t',
    ⟨runs further.run, .access moved' responded' further.course⟩,
    besidesRemarks_cons_congr silent same alike, final⟩

/-- **Every execution of a program has a counterpart** among those of its kin: it is the same but for
remarks, it ends alike, and leaves the same in view. -/
theorem exists_counterpart {program program' : Program α} (kin : Kin program program')
    {moments : List (Moment σ)} {ending : Ending α} (start : view s = view s')
    (execution : hw.Execution program s moments ending t) :
    ∃ moments' t', hw.Execution program' s' moments' ending t' ∧
      besidesRemarks view moments = besidesRemarks view moments' ∧ view t = view t' := by
  induction kin generalizing s s' moments with
  | done value =>
    obtain ⟨rfl, moved, rfl | rfl⟩ := execution.done_cases
    · exact overlooks.exists_rest start moved (.done value)
    · exact overlooks.exists_rest start moved (.cut _)
  | stop reason =>
    obtain ⟨rfl, moved, rfl | rfl⟩ := execution.stop_cases
    · exact overlooks.exists_rest start moved (.stop reason)
    · exact overlooks.exists_rest start moved (.cut _)
  | step silent _ ih =>
    obtain ⟨run, course⟩ := execution
    cases course with
    | rest moved =>
      cases run
      exact overlooks.exists_rest start moved (.cut _)
    | access moved responded course =>
      cases run with
      | step answer run =>
        exact overlooks.exists_access silent start moved responded (.step answer)
          fun _ still => ih answer still ⟨run, course⟩
  | await silent _ ih =>
    -- the looks of the one wait are those of the other one
    induction moments generalizing s s' with
    | nil =>
      obtain ⟨run, course⟩ := execution
      cases course with
      | rest moved =>
        cases run
        exact overlooks.exists_rest start moved (.cut _)
    | cons moment moments looks =>
      obtain ⟨run, course⟩ := execution
      cases course with
      | access moved responded course =>
        cases run with
        | refuse answer refused run =>
          exact overlooks.exists_access silent start moved responded (.refuse answer refused)
            fun _ still => looks still ⟨run, course⟩
        | accept answer taken run =>
          exact overlooks.exists_access silent start moved responded (.accept answer taken)
            fun _ still => ih answer still ⟨run, course⟩
  | left remark _ ih =>
    obtain ⟨run, course⟩ := execution
    cases course with
    | rest moved =>
      cases run
      exact overlooks.exists_rest start moved (.cut _)
    | access moved responded course =>
      -- the other one only waits for as long as the remark takes
      obtain ⟨met', moved', same⟩ := overlooks.movesTo start moved
      cases run with
      | step answer run =>
        have still := (overlooks.remarks remark responded).trans same
        obtain ⟨moments', t', further, alike, final⟩ := ih answer still ⟨run, course⟩
        refine ⟨moments', t', further.of_movesTo moved', ?_, final⟩
        rw [besidesRemarks_cons_of_remark remark, alike]
  | right remark _ ih =>
    -- it can be made at once, and nothing has to happen for it on the other side
    obtain ⟨answer, behind', responded'⟩ := overlooks.accepts remark s'
    have still := start.trans (overlooks.remarks remark responded').symm
    obtain ⟨moments', t', further, alike, final⟩ := ih answer still execution
    refine ⟨⟨s', ⟨_, answer⟩⟩ :: moments', t', .step responded' further, ?_, final⟩
    rw [besidesRemarks_cons_of_remark remark, alike]

end Overlooks

/-! ### Hardware that leaves no choice -/

/-- **Kin agree where the hardware leaves no choice**: both come to the same end if they come to one,
and there is nothing but remarks that they do differently. -/
theorem Overlooks.agree {hw : Hardware σ} {view : σ → ρ} (overlooks : hw.Overlooks view)
    (determined : hw.Determined) {program program' : Program α} (kin : Kin program program')
    {s s' t t' : σ} {moments moments' : List (Moment σ)} {ending ending' : Ending α}
    (start : view s = view s') (complete : ending ≠ .cut) (complete' : ending' ≠ .cut)
    (first : hw.Execution program s moments ending t)
    (second : hw.Execution program' s' moments' ending' t') :
    besidesRemarks view moments = besidesRemarks view moments' ∧ ending = ending' ∧
      view t = view t' := by
  -- the second execution can be nothing but the counterpart of the first one
  obtain ⟨counterpart, u, execution, alike, final⟩ :=
    overlooks.exists_counterpart kin start first
  obtain ⟨rfl, rfl, rfl⟩ := determined.unique complete complete' execution second
  exact ⟨alike, rfl, final⟩

end Hardware

end ColdBoot
