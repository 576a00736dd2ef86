import ColdBoot.Bench.Machine

/-! # Running programs on the bench

`Program.runWith` runs a program under any **`Bench.Rules`**: how single commands are carried out,
and what a machine does of its own between one command and the next. A wait repeats its command
until the answer is accepted or the machine fails.

`Machine.run` is the bench with interrupts, which come as they are scheduled. They come after a
command and before what follows it. A program that has halted meets no more of them: the command
before that was the one that masks them. -/

namespace ColdBoot

namespace Bench

/-- How programs are run on machines of states `τ`. -/
structure Rules (τ : Type) where
  /-- Carry out a command. -/
  perform : (command : Command) → τ → Except Failure command.Answer × τ
  /-- What happens of its own accord after a command, unless the program has halted by it. -/
  settle : Command → τ → Except Failure Unit × τ
  /-- How often a wait that starts in a state may look. -/
  patience : Command → τ → Nat

end Bench

namespace Program

open Bench

variable {α τ : Type}

/-- Repeat a command until its answer is accepted, `fuel` times at most. -/
def repeatWith (rules : Rules τ) (command : Command) (accepted : command.Answer → Bool) :
    Nat → τ → Except Failure command.Answer × τ
  | 0, state => (.error .stuck, state)
  | fuel + 1, state =>
      match rules.perform command state with
      | (.error failure, state) => (.error failure, state)
      | (.ok answer, state) =>
          if accepted answer then (.ok answer, state)
          else repeatWith rules command accepted fuel state

/-- Run a program. -/
def runWith (rules : Rules τ) : Program α → τ → Except Failure α × τ
  | .done value, state => (.ok value, state)
  | .stop reason, state => (.error (.stopped reason), state)
  | .step command next, state =>
      match rules.perform command state with
      | (.error failure, state) => (.error failure, state)
      | (.ok answer, state) =>
          let rest := next answer
          match if rest.hasHalted then (.ok (), state) else rules.settle command state with
          | (.error failure, state) => (.error failure, state)
          | (.ok (), state) => runWith rules rest state
  | .await command accepted next, state =>
      match repeatWith rules command accepted (rules.patience command state) state with
      | (.error failure, state) => (.error failure, state)
      | (.ok answer, state) => runWith rules (next answer) state

/-- A wait that came to an end is a run: the answers it refused, and the one it took. -/
theorem runs_of_repeatWith {rules : Rules τ} {command : Command}
    {accepted : command.Answer → Bool} {next : command.Answer → Program α}
    {answer : command.Answer} {events : List Event} {ending : Ending α} :
    ∀ {fuel : Nat} {state : τ},
      (repeatWith rules command accepted fuel state).1 = .ok answer →
      Runs (next answer) events ending →
      ∃ waited, Runs (.await command accepted next) (waited ++ events) ending
  | 0, _, h, _ => by cases h
  | fuel + 1, state, h, rest => by
      rw [repeatWith] at h
      split at h
      · cases h
      · next look state' _ =>
        split at h
        · next taken => cases h; exact ⟨[⟨command, answer⟩], .accept answer taken rest⟩
        · next refused =>
          obtain ⟨waited, run⟩ := runs_of_repeatWith h rest
          exact ⟨⟨command, look⟩ :: waited, .refuse look (Bool.eq_false_iff.2 refused) run⟩

/-- What a machine of any kind comes back with is the end of a run. -/
theorem runs_of_runWith {rules : Rules τ} {program : Program α} {state : τ} {value : α}
    (h : (program.runWith rules state).1 = .ok value) :
    ∃ events, Runs program events (.returned value) := by
  induction program generalizing state with
  | done => cases h; exact ⟨[], .done value⟩
  | stop => cases h
  | step command next ih =>
    rw [runWith] at h
    split at h
    · cases h
    · next answer _ _ =>
      dsimp only at h
      split at h
      · cases h
      · obtain ⟨events, run⟩ := ih answer h
        exact ⟨⟨command, answer⟩ :: events, .step answer run⟩
  | await command accepted next ih =>
    rw [runWith] at h
    split at h
    · cases h
    · next answer _ looked =>
      obtain ⟨events, run⟩ := ih answer h
      obtain ⟨waited, whole⟩ := runs_of_repeatWith (congrArg Prod.fst looked) run
      exact ⟨waited ++ events, whole⟩

end Program

namespace Machine

open Bench

variable {α : Type}

/-- How often a wait may look. The vblank flag cannot change while a program looks at it. A register
shows the values it is fed, then three at most of the transfer engine, and one value for ever. -/
def patience (command : Command) (machine : Machine) : Nat :=
  match command with
  | .getFence => 1
  | _ => ((machine.feeds.flatMap (·.2)).length + 4) * deadlockReads

/-- Run a program without interrupts. -/
def runMasked (program : Program α) (machine : Machine) : Except Failure α × Machine :=
  program.runWith
    { perform := fun command machine => machine.execute command
      settle := fun _ machine => (.ok (), machine)
      patience }
    machine

/-- Take an exception: its cause and the pending lines show while it is handled. The old cause comes
back with the return from the exception, so a machine that halts in the handler shows the new one. -/
def takeException (interrupt : ScheduledInterrupt) (machine : Machine) :
    Except Failure Unit × Machine :=
  let before := machine.cause
  let machine := machine.record (.exception interrupt.cause interrupt.pending)
  let machine := { machine with
    registers := machine.registers.set MiRegister.intr interrupt.pending
    cause := interrupt.cause }
  match runMasked Interrupt.handle machine with
  | (.error failure, machine) => (.error failure, machine)
  | (.ok (), machine) => (.ok (), { machine with cause := before })

/-- Take the scheduled interrupts that come at the present entry into reduced power. -/
def takeScheduled : List ScheduledInterrupt → Machine → Except Failure Unit × Machine
  | [], machine => (.ok (), machine)
  | interrupt :: rest, machine =>
      if interrupt.comes machine.entries machine.status then
        match takeException interrupt machine with
        | (.error failure, machine) => (.error failure, machine)
        | (.ok (), machine) => takeScheduled rest machine
      else takeScheduled rest machine

/-- More pictures were shown than anybody wanted to see. -/
def isFinished (machine : Machine) : Bool :=
  match machine.screen.limit with
  | none => false
  | some limit => limit < machine.screen.count

/-- An entry into reduced power: the time for interrupts, and for switching off. -/
def enterIdle (machine : Machine) : Except Failure Unit × Machine :=
  let machine := { machine with entries := machine.entries + 1 }
  if machine.isFinished then (.error .switchedOff, machine)
  else takeScheduled machine.schedule machine

/-- What comes over the bench after a command: a status word that asks for reduced power is an entry
into it. -/
def settle (command : Command) (machine : Machine) : Except Failure Unit × Machine :=
  match command with
  | .setStatus status =>
      if status.contains CpuStatus.rp then machine.enterIdle else (.ok (), machine)
  | _ => (.ok (), machine)

/-- The bench with interrupts. -/
def rules : Rules Machine where
  perform command machine := machine.execute command
  settle
  patience

/-- Run a program. -/
def run (program : Program α) (machine : Machine) : Except Failure α × Machine :=
  program.runWith rules machine

/-- Begin a new step: nothing is written down yet, and these interrupts are to come. -/
def beginStep (schedule : List ScheduledInterrupt) (machine : Machine) : Machine :=
  { machine with trace := .empty, schedule, entries := 0 }

end Machine

end ColdBoot
