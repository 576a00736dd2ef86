import ColdBoot.Proofs.ConsoleLife
import ColdBoot.Proofs.Determined

/-! # Exceptions on a whole machine

A timeline takes the service of a vertical blank for one tick. On a **`Chassis`** the service is run:
an exception comes between two accesses with a cause word and a word of pending lines, the handler
makes its own accesses, and the program goes on once the handler has returned. Behind the controls,
the cause and the pending lines stands the rest of the machine, **`Devices`**, which may answer in
any way that only depends on what was done to it.

* **`Chassis.follows_handle_of_handled`**, **`Chassis.follows_handle_of_unhandled`** – what becomes of
  an exception;
* **`Chassis.eq_serviced`** – an exception that the handler returns from is a tick;
* **`Chassis.exists_timeline`** – what happens on a chassis happens on a timeline;
* **`Chassis.armed_of_boot`**, **`Chassis.listens_of_steady`** – so what is known of a boot on a
  timeline, and of what a booted console does, is known on a chassis. -/

namespace ColdBoot

open Program Flags

/-! ### The machine -/

/-- A machine as an exception finds it. -/
structure Chassis (δ : Type) where
  controls : Controls
  /-- The word of pending lines, with its reserved bits. -/
  pending : Flags
  cause : Cause
  /-- Everything else: the engines, memory with its caches, and all other registers. -/
  devices : δ

/-- How devices answer a command, and what becomes of them. -/
abbrev Devices (δ : Type) := (command : Command) → δ → command.Answer × δ

namespace Chassis

variable {δ α : Type} (devices : Devices δ)

/-- The devices answer. -/
def ask (s : Chassis δ) (command : Command) : command.Answer × Chassis δ :=
  ((devices command s.devices).1, { s with devices := (devices command s.devices).2 })

/-- The answer to a command, and what becomes of the machine: a write to the current half-line drops
the video line, and the devices see nothing of what is done to controls, pending lines and cause. -/
def respond (s : Chassis δ) : (command : Command) → command.Answer × Chassis δ
  | .getStatus => (s.controls.status, s)
  | .setStatus status => ((), { s with controls := s.controls.after (.setStatus status) })
  | .getCause => (s.cause.word, s)
  | .setFence signaled => ((), { s with controls := s.controls.after (.setFence signaled) })
  | .getFence => (s.controls.flag, s)
  | .read register =>
      if register = MiRegister.intr then (s.pending, s)
      else if register = MiRegister.mask then (s.controls.lines, s)
      else s.ask devices (.read register)
  | .write register value =>
      if register = MiRegister.mask then
        ((), { s with controls := s.controls.after (.write register value) })
      else if register = ViRegister.vCurrent then
        ((), { s with pending := s.pending.without InterruptSource.vi.line })
      else s.ask devices (.write register value)
  | .cache operation vaddr => s.ask devices (.cache operation vaddr)
  | .storeDoubleword vaddr word => s.ask devices (.storeDoubleword vaddr word)
  | .loadFrame vaddr => s.ask devices (.loadFrame vaddr)
  | .storePixels vaddr drawing => s.ask devices (.storePixels vaddr drawing)
  | .fillStaging vaddr color => s.ask devices (.fillStaging vaddr color)

/-- A machine without exceptions. -/
def still : Hardware (Chassis δ) where
  moves _ _ := False
  responds s command answer t := s.respond devices command = (answer, t)

/-- The machine in front of a handler: the cause and the pending lines are an exception's. -/
def raise (s : Chassis δ) (cause : Cause) (pending : Flags) : Chassis δ := { s with cause, pending }

/-- The machine behind the service of a vertical blank: the flag is up, and the video line is
dropped. -/
def serviced (s : Chassis δ) : Chassis δ where
  controls := s.controls.tick .vblank
  pending := s.pending.without InterruptSource.vi.line
  cause := s.cause
  devices := s.devices

/-- An exception comes, with the video line among the pending ones, and the handler returns. -/
def Excepts (s t : Chassis δ) : Prop :=
  ∃ cause pending moments, cause.isInterrupt = true ∧ cause.deviceLineRaised = true ∧
    pending.contains InterruptSource.vi.line = true ∧
    (still devices).Execution Interrupt.handle (s.raise cause pending) moments (.returned ()) t

/-- A machine with exceptions. One may come between any two accesses, where a gate lets it through. -/
def hardware (gate : Controls → Prop) : Hardware (Chassis δ) where
  moves s t := gate s.controls ∧ s.Excepts devices t
  responds s command answer t := s.respond devices command = (answer, t)

variable {devices} {s t : Chassis δ}

/-! ### What an exception does -/

theorem still_determined : (still devices).Determined where
  still _ _ := id
  responds _ _ _ _ _ _ responded responded' := Prod.mk.inj (responded.symm.trans responded')

theorem follows_done (value : α) :
    (still devices).Follows (.done value) s [] (.returned value) s :=
  still_determined.follows_done value

theorem follows_stop (reason : Stop) :
    (still devices).Follows (.stop reason : Program α) s [] (.stopped reason) s :=
  still_determined.follows_stop reason

theorem follows_step {command : Command} {next : command.Answer → Program α}
    {answer : command.Answer} {behind : Chassis δ} {events : List Event} {ending : Ending α}
    (responded : s.respond devices command = (answer, behind))
    (rest : (still devices).Follows (next answer) behind events ending t)
    (complete : ending ≠ .cut := by nofun) :
    (still devices).Follows (.step command next) s (⟨command, answer⟩ :: events) ending t :=
  still_determined.follows_step responded rest complete

/-- The enabled lines that are pending. -/
def asking (s : Chassis δ) : Flags :=
  (Lines.register.truncate s.pending).inter (Lines.register.truncate s.controls.lines)

/-- The accesses that find it out. -/
def looks (s : Chassis δ) : List Event :=
  [⟨.read MiRegister.intr, s.pending⟩, ⟨.read MiRegister.mask, s.controls.lines⟩]

/-- The accesses of the service of a vertical blank. -/
def serving : List Event := [⟨.setFence true, ()⟩, ⟨.write ViRegister.vCurrent 0, ()⟩]

/-- The machine with interrupts masked. -/
def masked (s : Chassis δ) : Chassis δ :=
  { s with controls := { s.controls with status := s.controls.status.without CpuStatus.ie } }

/-- The accesses that mask them. -/
def masking (s : Chassis δ) : List Event :=
  [⟨.getStatus, s.controls.status⟩, ⟨.setStatus (s.controls.status.without CpuStatus.ie), ()⟩]

/-- The access that finds the cause. -/
def askingCause (s : Chassis δ) : Event := ⟨.getCause, s.cause.word⟩

section

variable {cause : Cause}

/-- An exception that does not come from a device is turned away without a look. -/
theorem follows_ignored (other : ¬ (cause.isInterrupt = true ∧ cause.deviceLineRaised = true)) :
    (still devices).Follows (Interrupt.dispatch cause) s [] (.returned (.unhandled cause 0)) s := by
  have turned : (!cause.isInterrupt || !cause.deviceLineRaised) = true := by
    cases h : cause.isInterrupt <;> cases h' : cause.deviceLineRaised <;> simp_all
  rw [Interrupt.dispatch, if_pos turned]
  exact follows_done _

variable (interrupt : cause.isInterrupt = true) (device : cause.deviceLineRaised = true)

include interrupt device

/-- What dispatching comes to, once it has looked at the lines. -/
theorem follows_dispatch {events : List Event} {ending : Ending Dispatch}
    (rest : (still devices).Follows (match InterruptSource.first? s.asking with
      | some .vi => do
          Interrupt.vblank
          return .handled .vi
      | _ => return .unhandled cause s.asking : Program Dispatch) s events ending t) :
    (still devices).Follows (Interrupt.dispatch cause) s (s.looks ++ events) ending t := by
  have raised : (still devices).Follows Lines.pending s [⟨.read MiRegister.intr, s.pending⟩]
      (.returned (Lines.register.truncate s.pending)) s := follows_step rfl (follows_done _)
  have enabled : (still devices).Follows Lines.enabled s
      [⟨.read MiRegister.mask, s.controls.lines⟩]
      (.returned (Lines.register.truncate s.controls.lines)) s := follows_step rfl (follows_done _)
  rw [Interrupt.dispatch, interrupt, device]
  exact raised.bind (enabled.bind rest)

/-- The video line is served if it comes first. -/
theorem follows_handled (first : InterruptSource.first? s.asking = some .vi) :
    (still devices).Follows (Interrupt.dispatch cause) s (s.looks ++ serving)
      (.returned (.handled .vi)) s.serviced := by
  refine follows_dispatch interrupt device ?_
  rw [first]
  exact follows_step rfl (follows_step rfl (follows_done _))

/-- Nothing else is. -/
theorem follows_unhandled (other : InterruptSource.first? s.asking ≠ some .vi) :
    (still devices).Follows (Interrupt.dispatch cause) s s.looks
      (.returned (.unhandled cause s.asking)) s := by
  rw [← List.append_nil s.looks]
  refine follows_dispatch interrupt device ?_
  split
  · next first => exact absurd first other
  · exact follows_done _

end

/-- The handler returns behind a service. -/
theorem follows_handle_of_handled {events : List Event} {source : InterruptSource}
    (handled : (still devices).Follows (Interrupt.dispatch s.cause) s events
      (.returned (.handled source)) t) :
    (still devices).Follows Interrupt.handle s (s.askingCause :: events) (.returned ()) t := by
  have returns : (still devices).Follows (pure () : Program Unit) t [] (.returned ()) t :=
    follows_done ()
  rw [← List.append_nil events]
  exact follows_step rfl (handled.bind returns)

/-- Otherwise it masks interrupts and halts. -/
theorem follows_handle_of_unhandled {events : List Event} {cause : Cause} {pending : Flags}
    (unhandled : (still devices).Follows (Interrupt.dispatch s.cause) s events
      (.returned (.unhandled cause pending)) t) :
    (still devices).Follows Interrupt.handle s (s.askingCause :: (events ++ t.masking))
      (.stopped .halted) t.masked := by
  have halts : (still devices).Follows (Cpu.halt : Program Unit) t t.masking (.stopped .halted)
      t.masked := follows_step rfl (follows_step rfl (follows_stop .halted))
  exact follows_step rfl (unhandled.bind halts)

/-- A handler that returns has served. -/
theorem eq_serviced_of_returned {moments : List (Moment (Chassis δ))}
    (interrupt : s.cause.isInterrupt = true) (device : s.cause.deviceLineRaised = true)
    (returned : (still devices).Execution Interrupt.handle s moments (.returned ()) t) :
    t = s.serviced := by
  by_cases first : InterruptSource.first? s.asking = some .vi
  · have handled : (still devices).Follows (Interrupt.dispatch s.cause) s _ _ _ :=
      follows_handled interrupt device first
    exact ((follows_handle_of_handled handled).comes.unique returned nofun).2
  · have unhandled : (still devices).Follows (Interrupt.dispatch s.cause) s _ _ _ :=
      follows_unhandled interrupt device first
    cases ((follows_handle_of_unhandled unhandled).comes.unique returned nofun).1

/-- **An exception that the handler returns from** is the service of a vertical blank. -/
theorem Excepts.eq_serviced (h : s.Excepts devices t) :
    ∃ cause pending, t = (s.raise cause pending).serviced := by
  obtain ⟨cause, pending, moments, interrupt, device, -, execution⟩ := h
  exact ⟨cause, pending, eq_serviced_of_returned interrupt device execution⟩

/-! ### The video line alone -/

section

variable (only : s.controls.lines.inter Lines.all = InterruptSource.vi.line)

include only

/-- Where the video line is the only enabled one, no other line is heard. -/
theorem asking_of_only : s.asking =
    if s.pending.contains InterruptSource.vi.line then InterruptSource.vi.line else 0 := by
  have inside : InterruptSource.vi.line.without Lines.all = 0 := by decide
  rw [← inter_of_single InterruptSource.vi.bit_line, asking]
  show (s.pending.inter Lines.all).inter (s.controls.lines.inter Lines.all) = _
  rw [only]
  refine eq_of_bit fun i => ?_
  have part := congrArg (bit · i) inside
  simp only [bit_inter, bit_without, bit_zero] at part ⊢
  revert part
  cases s.pending.bit i <;> cases Lines.all.bit i <;> cases InterruptSource.vi.line.bit i <;> simp

theorem first_of_contains (raised : s.pending.contains InterruptSource.vi.line = true) :
    InterruptSource.first? s.asking = some .vi := by
  rw [asking_of_only only, if_pos raised]
  rfl

theorem asking_of_not_contains (lowered : s.pending.contains InterruptSource.vi.line = false) :
    s.asking = 0 := by
  rw [asking_of_only only, if_neg (by rw [lowered]; exact Bool.false_ne_true)]

end

/-! ### On a timeline -/

variable (devices s)

theorem respond_controls (command : Command) :
    (s.respond devices command).2.controls = s.controls.after command := by
  cases command with
  | read register =>
    rw [respond]
    split
    · rfl
    · split <;> rfl
  | write register value =>
    rw [respond]
    split
    · rfl
    · next other =>
      have same : s.controls.after (.write register value) = s.controls := if_neg other
      rw [same]
      split <;> rfl
  | _ => rfl

theorem respond_answers (command : Command) :
    s.controls.Answers command (s.respond devices command).1 := by
  cases command with
  | read register =>
    rintro rfl
    rfl
  | getStatus | getFence => rfl
  | _ => trivial

variable {devices s} {gate : Controls → Prop} {start : Controls} {past : List Tick}

theorem exists_vblanks (agrees : start.behind past = s.controls)
    (moved : (hardware devices gate).MovesTo s t) :
    ∃ now, (Timeline.hardware gate start).MovesTo past now ∧ start.behind now = t.controls := by
  induction moved with
  | refl => exact ⟨past, .refl, agrees⟩
  | tail _ step ih =>
    obtain ⟨now, moved, agrees⟩ := ih
    obtain ⟨opened, excepts⟩ := step
    obtain ⟨cause, pending, rfl⟩ := excepts.eq_serviced
    refine ⟨now ++ [.vblank], moved.tail ⟨agrees ▸ opened, rfl⟩, ?_⟩
    rw [Controls.behind_concat, agrees]
    rfl

theorem exists_course {moments : List (Moment (Chassis δ))} (agrees : start.behind past = s.controls)
    (course : (hardware devices gate).Course s moments t) :
    ∃ ticking now, (Timeline.hardware gate start).Course past ticking now ∧
      ticking.map Moment.event = moments.map Moment.event ∧ start.behind now = t.controls := by
  induction course generalizing past with
  | rest moved =>
    obtain ⟨now, moved, agrees⟩ := exists_vblanks agrees moved
    exact ⟨[], now, .rest moved, rfl, agrees⟩
  | @access s met behind t event moments moved responded _ ih =>
    obtain ⟨there, moved, met_eq⟩ := exists_vblanks agrees moved
    have responded : met.respond devices event.command = (event.answer, behind) := responded
    have answered : met.controls.Answers event.command event.answer := by
      have h := respond_answers devices met event.command
      rwa [responded] at h
    have behind_eq : start.behind (there ++ [.access event]) = behind.controls := by
      have h := respond_controls devices met event.command
      rw [responded] at h
      rw [Controls.behind_concat, met_eq]
      exact h.symm
    obtain ⟨ticking, now, course, same, agrees⟩ := ih behind_eq
    refine ⟨⟨there, event⟩ :: ticking, now, .access moved ⟨?_, rfl⟩ course, ?_, agrees⟩
    · rwa [met_eq]
    · rw [List.map_cons, List.map_cons, same]

/-- **What happens on a chassis happens on a timeline**, and the controls are the same. -/
theorem exists_timeline {program : Program α} {moments : List (Moment (Chassis δ))}
    {ending : Ending α} (agrees : start.behind past = s.controls)
    (execution : (hardware devices gate).Execution program s moments ending t) :
    ∃ ticking now, (Timeline.hardware gate start).Execution program past ticking ending now ∧
      ticking.map Moment.event = moments.map Moment.event ∧ start.behind now = t.controls := by
  obtain ⟨run, course⟩ := execution
  obtain ⟨ticking, now, course, same, agrees⟩ := exists_course agrees course
  exact ⟨ticking, now, ⟨same ▸ run, course⟩, same, agrees⟩

/-! ### A console on a chassis -/

open Controls

/-- Exceptions are taken, and the video line is the only enabled one. -/
structure Listens (s : Chassis δ) : Prop where
  interruptible : s.controls.Interruptible
  only : s.controls.lines.inter Lines.all = InterruptSource.vi.line

/-- Behind a boot the status word is armed, and only the video line is enabled. -/
theorem armed_of_boot {config : Config} {memory : FrameMemory} {slot : VectorSlot}
    {entry : Trampoline} {color : Color} {console : Console} {booting : List (Moment (Chassis δ))}
    (boots : (hardware devices Interruptible).Execution
      (Console.boot config memory slot entry color) s booting (.returned console) t) :
    CpuStatus.Armed t.controls.status ∧ t.controls.lines.inter Lines.all = InterruptSource.vi.line := by
  have agrees : s.controls.behind [] = s.controls := rfl
  obtain ⟨_, now, boots, -, same⟩ := exists_timeline agrees boots
  rw [← same]
  exact Console.controls_of_boot boots

/-- What is steady leaves exceptions taken, and the enabled lines as they are. -/
theorem listens_of_steady {program : Program α} (armed : CpuStatus.Armed s.controls.status)
    (only : s.controls.lines.inter Lines.all = InterruptSource.vi.line)
    (steady : program.StaysSteady Interruptible s.controls s.controls.status s.controls.lines)
    {moments : List (Moment (Chassis δ))} {ending : Ending α}
    (execution : (hardware devices Interruptible).Execution program s moments ending t) :
    t.Listens := by
  have agrees : s.controls.behind [] = s.controls := rfl
  obtain ⟨_, now, execution, -, same⟩ := exists_timeline agrees execution
  obtain ⟨-, kept, -⟩ := steady ⟨rfl, rfl⟩ execution
  have interruptible := Timeline.interruptible_of_steady armed kept
  obtain ⟨word, -, holds⟩ := kept
  rw [same] at interruptible holds
  exact ⟨interruptible, by rwa [holds.lines_eq]⟩

end Chassis

end ColdBoot
