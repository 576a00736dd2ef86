import ColdBoot.Command
import ColdBoot.Fault

/-! # Programs

A **`Program`** is a tree of commands: each node is one access to the machine, and what follows may
depend on the answer. A wait is a node of its own, `await`: its command is repeated until an answer
is accepted, with no bound, since hardware that never finishes hangs the caller.

A program says nothing about the machine it runs on. The same tree is run on an emulated bench and
reasoned about on any machine at all.

* **`Stop`** – the ways a program ends without a value;
* **`Program.ofExcept`** – a checked computation as a program that touches nothing. -/

namespace ColdBoot

/-- How a program ends without a value. -/
inductive Stop where
  /-- A checked computation broke off. -/
  | fault (fault : Fault)
  /-- Interrupts are masked and the processor spins for ever. -/
  | halted
  /-- A draw function left for good. -/
  | left
  deriving DecidableEq, Repr

/-- A tree of accesses to the machine that ends in a value of type `α`. -/
inductive Program (α : Type) : Type where
  /-- No access: the value is there. -/
  | done (value : α)
  /-- No access: the program has ended without a value. -/
  | stop (reason : Stop)
  /-- One access, and what follows each answer. -/
  | step (command : Command) (next : command.Answer → Program α)
  /-- One access, repeated until its answer is accepted, and what follows that answer. -/
  | await (command : Command) (accepted : command.Answer → Bool)
      (next : command.Answer → Program α)

namespace Program

variable {α β γ : Type}

/-- Run a program and then the one its value selects. -/
protected def bind : Program α → (α → Program β) → Program β
  | .done value, f => f value
  | .stop reason, _ => .stop reason
  | .step command next, f => .step command fun answer => (next answer).bind f
  | .await command accepted next, f =>
      .await command accepted fun answer => (next answer).bind f

instance : Monad Program where
  pure := .done
  bind := .bind

@[simp] theorem pure_eq_done (value : α) : (pure value : Program α) = .done value := rfl

@[simp] theorem done_bind (value : α) (f : α → Program β) : (done value >>= f) = f value := rfl

@[simp] theorem stop_bind (reason : Stop) (f : α → Program β) :
    (stop reason >>= f) = stop reason := rfl

@[simp] theorem step_bind (command : Command) (next : command.Answer → Program α)
    (f : α → Program β) :
    (step command next >>= f) = step command fun answer => next answer >>= f := rfl

@[simp] theorem await_bind (command : Command) (accepted : command.Answer → Bool)
    (next : command.Answer → Program α) (f : α → Program β) :
    (await command accepted next >>= f) =
      await command accepted fun answer => next answer >>= f := rfl

protected theorem bind_pure (program : Program α) : program >>= pure = program := by
  induction program with
  | done => rfl
  | stop => rfl
  | step command next ih => simp only [step_bind, ih]
  | await command accepted next ih => simp only [await_bind, ih]

protected theorem bind_assoc (program : Program α) (f : α → Program β) (g : β → Program γ) :
    program >>= f >>= g = program >>= fun value => f value >>= g := by
  induction program with
  | done => rfl
  | stop => rfl
  | step command next ih => simp only [step_bind, ih]
  | await command accepted next ih => simp only [await_bind, ih]

instance : LawfulMonad Program :=
  LawfulMonad.mk' Program Program.bind_pure (fun _ _ => rfl) Program.bind_assoc

/-- The program has ended, and the processor spins for ever. -/
def hasHalted : Program α → Bool
  | .stop .halted => true
  | _ => false

/-! ### Single accesses -/

/-- One access. -/
def perform (command : Command) : Program command.Answer := .step command .done

/-- One access, repeated until its answer is accepted. -/
def repeatUntil (command : Command) (accepted : command.Answer → Bool) :
    Program command.Answer :=
  .await command accepted .done

/-- Read a register. -/
def read (register : Register) : Program UInt32 := perform (.read register)

/-- Write a register. -/
def write (register : Register) (value : UInt32) : Program Unit :=
  perform (.write register value)

/-- A checked computation: it touches nothing and stops the program when it breaks off. -/
def ofExcept : Except Fault α → Program α
  | .ok value => .done value
  | .error fault => .stop (.fault fault)

instance : MonadLift (Except Fault) Program := ⟨ofExcept⟩

@[simp] theorem ofExcept_ok (value : α) : ofExcept (.ok value) = .done value := rfl

@[simp] theorem ofExcept_error (fault : Fault) :
    (ofExcept (.error fault) : Program α) = .stop (.fault fault) := rfl

end Program

end ColdBoot
