import ColdBoot.Proofs.FrameLoop

/-! # The drawings of a run

A draw function may look at the framebuffer it draws into. If its drawing does not depend on what it
finds, the drawings of a program are known beforehand, whatever the machine answers: **`Program.Draws`**
says that of a program, also of runs that are cut off, with one rule for each construct.

* **`Console.draws_boot`** – the boot draws nothing;
* **`Console.draws_frame`**, **`Console.draws_frames`** – one frame and any number of frames. -/

namespace ColdBoot

open Program

/-! ### Drawings of a run -/

/-- The drawing that a command stores. -/
def Command.drawing? : Command → Option Drawing
  | .storePixels _ drawing => some drawing
  | _ => none

/-- The drawings that a run has stored, in order. -/
def drawingsIn (events : List Event) : List Drawing :=
  events.filterMap fun event => event.command.drawing?

/-- A program that stores these drawings, one after the other, and no others: all of them if it
returns, with such a result, and the first ones wherever it is cut off. -/
def Program.Draws {α : Type} (program : Program α) (drawings : List Drawing) (result : α → Prop) :
    Prop :=
  ∀ ⦃events ending⦄, program.Runs events ending → drawingsIn events <+: drawings ∧
    ∀ value, ending = .returned value → drawingsIn events = drawings ∧ result value

namespace Program

variable {α β : Type}

theorem Accesses.draws_nil {K : Command → Prop} {program : Program α} (h : program.Accesses K)
    (away : ∀ command, K command → ¬ command.IsPicture) : program.Draws [] fun _ => True := by
  intro events ending run
  have undrawn : drawingsIn events = [] := by
    refine List.filterMap_eq_nil_iff.2 fun event member => ?_
    have apart := away _ (h.of_runs run event member)
    cases eq : event.command with
    | storePixels =>
      rw [eq] at apart
      exact absurd trivial apart
    | _ => rfl
  rw [undrawn]
  exact ⟨List.prefix_refl _, fun _ _ => ⟨rfl, trivial⟩⟩

namespace Draws

theorem done {value : α} {result : α → Prop} (h : result value) :
    (Program.done value).Draws [] result := by
  intro events ending run
  cases run with
  | done => exact ⟨List.prefix_refl _, fun _ returned => by cases returned; exact ⟨rfl, h⟩⟩
  | cut => exact ⟨List.prefix_refl _, nofun⟩

theorem bind {program : Program α} {f : α → Program β} {first second : List Drawing}
    {between : α → Prop} {result : β → Prop} (h : program.Draws first between)
    (rest : ∀ value, between value → (f value).Draws second result) :
    (program >>= f).Draws (first ++ second) result := by
  intro events ending run
  rcases run.of_bind with ⟨early, one, lifted⟩ | ⟨before, behind, value, one, two, rfl⟩
  · -- only the first part has run, and it has not returned
    refine ⟨(h one).1.trans (List.prefix_append _ _), ?_⟩
    rintro value rfl
    cases early <;> cases lifted
  · obtain ⟨same, member⟩ := (h one).2 value rfl
    obtain ⟨part, whole⟩ := rest value member two
    have split : drawingsIn (before ++ behind) = first ++ drawingsIn behind := by
      rw [← same]
      exact List.filterMap_append
    rw [split]
    refine ⟨(List.prefix_append_right_inj first).2 part, fun result returned => ?_⟩
    obtain ⟨all, member⟩ := whole result returned
    exact ⟨by rw [all], member⟩

/-- What comes in front and stores nothing. -/
theorem behind {program : Program α} {f : α → Program β} {drawings : List Drawing}
    {between : α → Prop} {result : β → Prop} (h : program.Draws [] between)
    (rest : ∀ value, between value → (f value).Draws drawings result) :
    (program >>= f).Draws drawings result :=
  h.bind rest

/-- What comes behind and stores nothing. -/
theorem ahead {program : Program α} {f : α → Program β} {drawings : List Drawing}
    {between : α → Prop} {result : β → Prop} (h : program.Draws drawings between)
    (rest : ∀ value, between value → (f value).Draws [] result) :
    (program >>= f).Draws drawings result := by
  rw [← List.append_nil drawings]
  exact h.bind rest

theorem perform (command : Command) :
    (Program.perform command).Draws command.drawing?.toList fun _ => True := by
  intro events ending run
  cases run with
  | cut => exact ⟨List.nil_prefix, nofun⟩
  | step answer rest =>
    have one : drawingsIn [⟨command, answer⟩] = command.drawing?.toList := by
      rw [drawingsIn, List.filterMap_cons]
      cases command.drawing? <;> rfl
    cases rest with
    | done => exact ⟨one ▸ List.prefix_refl _, fun _ _ => ⟨one, trivial⟩⟩
    | cut => exact ⟨one ▸ List.prefix_refl _, nofun⟩

end Draws

end Program

namespace Console

variable {σ : Type} {config : Config}

/-- The boot stores no drawing, and its console has shown no frame. -/
theorem draws_boot (memory : FrameMemory) (slot : VectorSlot) (entry : Trampoline) (color : Color) :
    (boot config memory slot entry color).Draws [] fun console => console.frameCount = 0 := by
  intro events ending run
  have apart (command : Command) (h : command.IsBooting) : ¬ command.IsPicture := by
    cases command with
    | loadFrame | storePixels => exact h.elim
    | _ => exact id
  obtain ⟨part, whole⟩ := (booting_boot config memory slot entry color).draws_nil apart run
  refine ⟨part, fun console returned => ⟨(whole console returned).1, ?_⟩⟩
  subst returned
  rw [boot_eq] at run
  obtain ⟨_, _, _, -, run, -⟩ := run.of_bind_returned
  obtain ⟨_, _, _, -, run, -⟩ := run.of_bind_returned
  obtain ⟨_, _, _, -, run, -⟩ := run.of_bind_returned
  cases run
  rfl

theorem draws_draw {function : DrawFunction σ} {drawing : Drawing} {state : σ} {number : UInt32}
    (drawn : ∀ before, function before number = .ok (drawing, state)) (vaddr : UInt32) :
    (draw function vaddr number).Draws [drawing] (· = state) := by
  refine (Draws.perform (.loadFrame vaddr)).behind fun before _ => ?_
  rw [drawn before]
  exact (Draws.perform (.storePixels vaddr drawing)).ahead fun _ _ => .done rfl

/-- A draw function whose drawing does not depend on what it finds is followed in a frame. -/
theorem draws_frame {console : Console} {function : DrawFunction σ} {drawing : Drawing} {state : σ}
    (drawn : ∀ before, function before console.frameCount = .ok (drawing, state)) :
    (console.frame config function).Draws [drawing] fun result =>
      result.1.frameCount = console.frameCount + 1 ∧ result.2 = state := by
  have clear := (Video.apart_clearTarget config console.video).draws_nil fun _ => id
  have wait := Fence.accesses_wait.draws_nil Command.IsAside.not_isPicture
  have swap := (Video.apart_swapBuffers console.video).draws_nil fun _ => id
  have lower : Video.vblankEnd.Accesses Command.IsAside := .perform _ trivial
  refine clear.behind fun _ _ => (draws_draw drawn _).ahead fun result eq => ?_
  refine wait.behind fun _ _ => swap.behind fun video _ => ?_
  refine (lower.draws_nil Command.IsAside.not_isPicture).behind fun _ _ => ?_
  exact .done ⟨rfl, eq⟩

/-- So it is in any number of frames, from frame `n` on. -/
theorem draws_frames {function : σ → DrawFunction σ} {state : Nat → σ} {drawing : Nat → Drawing}
    (drawn : ∀ n before, function (state n) before (.ofNat n) = .ok (drawing n, state (n + 1)))
    (count n : Nat) {console : Console} (number : console.frameCount = .ofNat n) :
    (frames config function count console (state n)).Draws ((List.range' n count).map drawing)
      fun result => result.2 = state (n + count) := by
  induction count generalizing n console with
  | zero => exact .done rfl
  | succ count ih =>
    rw [List.range'_succ, List.map_cons]
    have one : (console.frame config (function (state n))).Draws [drawing n] _ :=
      draws_frame fun before => number ▸ drawn n before
    refine one.bind ?_
    rintro ⟨console', _⟩ ⟨next, rfl⟩
    have number' : console'.frameCount = .ofNat (n + 1) := by
      rw [next, number, UInt32.ofNat_add]
      rfl
    have rest := ih (n + 1) number'
    rw [Nat.succ_add] at rest
    exact rest

end Console

end ColdBoot
