import ColdBoot.Console
import ColdBoot.Proofs.Finishing
import Mathlib.Data.List.DropRight

/-! # Interrupts between accesses

The video interrupt may come between any two accesses of a program. What it has in common with the
program are three **`Controls`**: the processor's status word, the mask of enabled lines, and the
vblank flag. A history is a list of **`Tick`**s, each a vertical blank or an access of the program,
and `Controls.behind` says what the controls are behind it.

* **`Timeline.hardware`** – hardware whose state is the history so far; it answers for the controls as
  they are, and anything at all for everything else, so that its executions are those on every
  machine, under every schedule of the interrupt that a gate lets through;
* **`Timeline.flag_iff`** – the flag is up when a vertical blank has come since it was lowered. -/

namespace ColdBoot

open Relation

/-- One thing that happens. -/
inductive Tick where
  /-- The video interrupt is taken, and served. -/
  | vblank
  /-- The program makes an access. -/
  | access (event : Event)

/-- What the program and the interrupt share. -/
structure Controls where
  /-- The processor's status word. -/
  status : Flags
  /-- The lines that the interrupt controller lets through. -/
  lines : Flags
  /-- The vblank flag. -/
  flag : Bool

namespace Controls

/-- The controls behind a command. -/
def after (controls : Controls) : Command → Controls
  | .setStatus status => { controls with status }
  | .setFence signaled => { controls with flag := signaled }
  | .write register value =>
      if register = MiRegister.mask then
        { controls with lines := LineMask.apply controls.lines value }
      else controls
  | _ => controls

/-- The controls behind a tick. -/
def tick (controls : Controls) : Tick → Controls
  | .vblank => { controls with flag := true }
  | .access event => controls.after event.command

/-- The controls behind a history. -/
def behind (controls : Controls) (past : List Tick) : Controls := past.foldl tick controls

/-- The true answers to questions for the controls; other answers may be anything. -/
def Answers (controls : Controls) : (command : Command) → command.Answer → Prop
  | .getStatus, status => status = controls.status
  | .getFence, signaled => signaled = controls.flag
  | .read register, word => register = MiRegister.mask → word = controls.lines
  | _, _ => True

@[simp] theorem behind_nil (controls : Controls) : controls.behind [] = controls := rfl

@[simp] theorem behind_concat (controls : Controls) (past : List Tick) (last : Tick) :
    controls.behind (past ++ [last]) = (controls.behind past).tick last := by
  rw [behind, List.foldl_append]
  rfl

/-- A vertical blank is what the interrupt's service does: it raises the flag, and its other access
leaves the controls as they are. -/
theorem behind_interrupt (controls : Controls) {events : List Event}
    (run : Interrupt.vblank.Runs events (.returned ())) :
    controls.behind (events.map .access) = controls.tick .vblank := by
  -- two accesses, and the return
  cases run with
  | step _ rest => cases rest with
    | step _ rest => cases rest; rfl

theorem exists_answer (controls : Controls) (command : Command) :
    ∃ answer, controls.Answers command answer := by
  cases command with
  | getStatus => exact ⟨controls.status, rfl⟩
  | getFence => exact ⟨controls.flag, rfl⟩
  | read register => exact ⟨controls.lines, fun _ => rfl⟩
  | getCause => exact ⟨(0 : UInt32), trivial⟩
  | loadFrame vaddr => exact ⟨Framebuffer.blank, trivial⟩
  | _ => exact ⟨(), trivial⟩

end Controls

/-! ### Histories -/

namespace Timeline

/-- The accesses in a history. -/
def accesses (past : List Tick) : List Event :=
  past.filterMap fun
    | .vblank => none
    | .access event => some event

@[simp] theorem accesses_nil : accesses [] = [] := rfl

@[simp] theorem accesses_append (past later : List Tick) :
    accesses (past ++ later) = accesses past ++ accesses later :=
  List.filterMap_append

@[simp] theorem accesses_vblank : accesses [.vblank] = [] := rfl

@[simp] theorem accesses_access (event : Event) : accesses [.access event] = [event] := rfl

/-- The flag is lowered. -/
def lowers : Tick → Bool
  | .access ⟨.setFence false, _⟩ => true
  | _ => false

/-- The program itself raises the flag. -/
def raises : Tick → Bool
  | .access ⟨.setFence true, _⟩ => true
  | _ => false

/-- What has happened since the flag was lowered for the last time. -/
def sinceLowered (past : List Tick) : List Tick := past.rtakeWhile fun tick => !lowers tick

@[simp] theorem sinceLowered_concat (past : List Tick) (last : Tick) :
    sinceLowered (past ++ [last]) = if lowers last then [] else sinceLowered past ++ [last] := by
  rw [sinceLowered, List.rtakeWhile_concat]
  cases lowers last <;> rfl

/-- What came before the flag was lowered does not count. -/
theorem sinceLowered_append_cons (past : List Tick) {low : Tick} (h : lowers low = true)
    (later : List Tick) : sinceLowered (past ++ low :: later) = sinceLowered later := by
  induction later using List.reverseRecOn with
  | nil =>
    rw [sinceLowered_concat, if_pos h]
    rfl
  | append_singleton later last ih =>
    rw [← List.cons_append, ← List.append_assoc, sinceLowered_concat, sinceLowered_concat, ih]

theorem mem_of_mem_sinceLowered {past : List Tick} {tick : Tick} (h : tick ∈ sinceLowered past) :
    tick ∈ past :=
  (List.rtakeWhile_suffix _ past).subset h

theorem flag_of_lowers (controls : Controls) {tick : Tick} (h : lowers tick = true) :
    (controls.tick tick).flag = false := by
  match tick with
  | .access ⟨.setFence false, _⟩ => rfl

/-- A tick that is neither a vertical blank nor sets the flag leaves it as it is. -/
theorem flag_of_neither (controls : Controls) {tick : Tick} (blank : tick ≠ .vblank)
    (low : lowers tick = false) (high : raises tick = false) :
    (controls.tick tick).flag = controls.flag := by
  match tick with
  | .vblank => exact absurd rfl blank
  | .access ⟨.setFence true, _⟩ => cases high
  | .access ⟨.setFence false, _⟩ => cases low
  | .access ⟨.write register value, _⟩ =>
    simp only [Controls.tick, Controls.after]
    split <;> rfl
  | .access ⟨.setStatus _, _⟩ | .access ⟨.getStatus, _⟩ | .access ⟨.getCause, _⟩
  | .access ⟨.cache _ _, _⟩ | .access ⟨.read _, _⟩ | .access ⟨.storeDoubleword _ _, _⟩
  | .access ⟨.getFence, _⟩ | .access ⟨.loadFrame _, _⟩ | .access ⟨.storePixels _ _, _⟩
  | .access ⟨.fillStaging _ _, _⟩ => rfl

/-- **The flag is the memory of a vertical blank.** Once it has been lowered, and if only the
interrupt ever raises it, the flag is up if and only if a vertical blank has come since it was
lowered for the last time. -/
theorem flag_iff (start : Controls) {past : List Tick} (lowered : ∃ tick ∈ past, lowers tick)
    (never : ∀ tick ∈ past, raises tick = false) :
    (start.behind past).flag = true ↔ .vblank ∈ sinceLowered past := by
  -- from the last tick backwards: it raises the flag, lowers it, or leaves it alone
  induction past using List.reverseRecOn with
  | nil => simp at lowered
  | append_singleton past last ih =>
    rw [Controls.behind_concat, sinceLowered_concat]
    by_cases low : lowers last = true
    · rw [flag_of_lowers _ low, if_pos low]
      simp
    · rw [if_neg low, List.mem_append, List.mem_singleton]
      by_cases blank : last = .vblank
      · subst blank
        simp [Controls.tick]
      · have earlier : ∃ tick ∈ past, lowers tick := by
          obtain ⟨tick, member, h⟩ := lowered
          rcases List.mem_append.1 member with member | member
          · exact ⟨tick, member, h⟩
          · rw [List.mem_singleton.1 member] at h
            exact absurd h low
        have high : raises last = false :=
          never last (List.mem_append_right _ (List.mem_singleton_self _))
        rw [flag_of_neither _ blank (by simpa using low) high,
          ih earlier fun tick member => never tick (List.mem_append_left _ member)]
        have ne : Tick.vblank ≠ last := fun eq => blank eq.symm
        simp [ne]

/-! ### Hardware that remembers -/

/-- Hardware whose state is the history so far. A vertical blank may come whenever the gate lets it
through; and where an answer is not one about the controls, every answer is possible. -/
def hardware (gate : Controls → Prop) (start : Controls) : Hardware (List Tick) where
  moves past now := gate (start.behind past) ∧ now = past ++ [.vblank]
  responds past command answer now :=
    (start.behind past).Answers command answer ∧ now = past ++ [.access ⟨command, answer⟩]

variable {α : Type} {gate : Controls → Prop} {start : Controls} {guard : Hardware.Guard (List Tick)}
  {K : Command → Prop} {assertion : List Tick → Prop}

/-- What a vertical blank and the accesses in `K` carry on, they keep. -/
theorem keeps (state : ∀ past, assertion past → guard.state past)
    (access : ∀ past command, K command → assertion past → guard.access past command)
    (blank : ∀ past, gate (start.behind past) → assertion past → assertion (past ++ [.vblank]))
    (behind : ∀ past command answer, K command → assertion past →
      (start.behind past).Answers command answer →
        assertion (past ++ [.access ⟨command, answer⟩])) :
    (hardware gate start).Keeps guard K assertion where
  stable := by
    rintro past _ ⟨open_, rfl⟩ h
    exact blank past open_ h
  state := state
  access := access
  responds := by
    rintro past command answer _ member h ⟨answered, rfl⟩
    exact behind past command answer member h answered

/-- Between two accesses there are only vertical blanks. -/
theorem exists_blanks {past now : List Tick} (moved : (hardware gate start).MovesTo past now) :
    ∃ blanks, now = past ++ blanks ∧ accesses blanks = [] := by
  induction moved with
  | refl => exact ⟨[], by simp, rfl⟩
  | tail _ step ih =>
    obtain ⟨blanks, rfl, idle⟩ := ih
    obtain ⟨-, rfl⟩ := step
    exact ⟨blanks ++ [.vblank], by simp, by simp [idle]⟩

/-- A history grows by the accesses that are made, with vertical blanks between them. -/
theorem exists_ticks {past now : List Tick} {moments : List (Moment (List Tick))}
    (course : (hardware gate start).Course past moments now) :
    ∃ ticks, now = past ++ ticks ∧ accesses ticks = moments.map Moment.event := by
  induction course with
  | rest moved =>
    obtain ⟨blanks, rfl, idle⟩ := exists_blanks moved
    exact ⟨blanks, rfl, idle⟩
  | @access _ _ _ _ event _ moved responded _ ih =>
    obtain ⟨blanks, rfl, idle⟩ := exists_blanks moved
    obtain ⟨-, rfl⟩ := responded
    obtain ⟨ticks, rfl, eq⟩ := ih
    refine ⟨blanks ++ [.access event] ++ ticks, ?_, ?_⟩
    · simp only [List.append_assoc]
    · rw [accesses_append, accesses_append, idle, eq]
      rfl

/-- Whatever the gate, waits for the engine can come to their end. -/
theorem liveWithin (gate : Controls → Prop) (start : Controls) :
    (hardware gate start).LiveWithin fun command => command ≠ .getFence where
  answers past command := by
    obtain ⟨answer, answered⟩ := (start.behind past).exists_answer command
    exact ⟨answer, _, answered, rfl⟩
  waits past command accepted member wait := by
    cases wait with
    | idle => exact ⟨past, (0 : UInt32), _, .refl, ⟨nofun, rfl⟩, by decide⟩
    | slot => exact ⟨past, (0 : UInt32), _, .refl, ⟨nofun, rfl⟩, by decide⟩
    | fence => exact absurd rfl member

/-- So can the wait for the flag where the gate is open, or the flag up. -/
theorem exists_end_of_wait {past : List Tick} {command : Command}
    {accepted : command.Answer → Bool}
    (down : (start.behind past).flag = false → gate (start.behind past))
    (wait : Program.IsWait command accepted) :
    ∃ met answer now, (hardware gate start).MovesTo past met ∧
      (hardware gate start).responds met command answer now ∧ accepted answer = true := by
  cases wait with
  | idle => exact (liveWithin gate start).waits past _ _ nofun .idle
  | slot => exact (liveWithin gate start).waits past _ _ nofun .slot
  | fence =>
    cases up : (start.behind past).flag with
    | true => exact ⟨past, true, _, .refl, ⟨up.symm, rfl⟩, rfl⟩
    | false =>
      refine ⟨past ++ [.vblank], true, _, .single ⟨down up, rfl⟩, ⟨?_, rfl⟩, rfl⟩
      rw [Controls.behind_concat]
      rfl

/-- Every wait can come to its end if the gate is open whenever the flag is down. -/
theorem live (down : ∀ controls, controls.flag = false → gate controls) :
    (hardware gate start).Live where
  answers := (liveWithin gate start).answers
  waits _ _ _ wait := exists_end_of_wait (down _) wait

end Timeline

end ColdBoot
