import ColdBoot.Proofs.Footprint

/-! # The engine's queue, as it can be seen

All that a program sees of the signal processor's engine are two bits: whether a transfer is
outstanding, and whether the queue slot behind it is occupied. **`Hardware.QueueLaws`** says what
these bits mean on any hardware, however long its transfers take. The waits of the engine are proved
from the laws alone, so they serve every model of the engine.

* **`QueueLaws.ensures_waitIdle`** – no transfer is outstanding behind a wait for the engine;
* **`QueueLaws.ensures_waitQueue`** – there is room behind a wait for the queue;
* **`Sp.ensures_start`** – a start is three writes, and its length comes last. -/

namespace ColdBoot

open Program

/-! ### Waiting and starting on any hardware -/

section Protocol

variable {σ : Type} {hw : Hardware σ} {guard : Hardware.Guard σ}

/-- A wait: the precondition is kept by every refused answer, and an accepted one leads on. Both
have to survive the change of power around it. -/
theorem Idle.ensures_spin {command : Command} {accepted : command.Answer → Bool}
    {before : σ → Prop} {between : command.Answer → σ → Prop}
    (start : hw.Keeps guard Command.IsStatus before)
    (finish : ∀ answer, hw.Keeps guard Command.IsStatus (between answer))
    (access : ∀ ⦃s⦄, before s → guard.access s command)
    (refuses : ∀ ⦃s answer t⦄, before s → hw.responds s command answer t →
      accepted answer = false → before t)
    (accepts : ∀ ⦃s answer t⦄, before s → hw.responds s command answer t →
      accepted answer = true → between answer t) :
    hw.Ensures guard before (Idle.spin command accepted) between := by
  refine .bind (start.ensures Idle.accesses_enter) fun _ => ?_
  refine .via between ?_ fun answer => ?_
  · exact .await start.toSound access refuses accepts
      fun answer => .done (finish answer).toSound fun _ h => h
  · refine .bind ((finish answer).ensures Idle.accesses_leave) fun _ => ?_
    exact .done (finish answer).toSound fun _ h => h

namespace Sp

/-- The registers that a start writes. -/
def startRegisters : List Register :=
  [SpRegister.memAddr, SpRegister.dramAddr, SpRegister.readLen, SpRegister.writeLen]

/-- A start writes the two addresses and then the length, unless one of its checks stops it. -/
theorem ensures_start {descriptor : SpDescriptor} {direction : Direction}
    {first third last : σ → Prop} (second : σ → Prop) (sound₁ : hw.Sound guard first)
    (sound₃ : hw.Sound guard third)
    (mem : hw.Ensures guard first (.write SpRegister.memAddr descriptor.mem) fun _ => second)
    (dram : hw.Ensures guard second (.write SpRegister.dramAddr descriptor.dram.word)
      fun _ => third)
    (length : ∀ word, descriptor.row.bits = .ok word →
      hw.Ensures guard third (.write (lengthRegister direction) word) fun _ => last) :
    hw.Ensures guard first (start descriptor direction) fun _ => last := by
  -- the checks of the descriptor come first, and nothing is written before they have passed
  iterate 4 refine .ofExcept_bind sound₁ fun _ _ => ?_
  refine .bind mem fun _ => ?_
  refine .bind dram fun _ => ?_
  exact .ofExcept_bind sound₃ length

/-- The engine's word is terminal when its lowest bit is clear. -/
theorem isTerminal_eq (word : UInt32) : engine.isTerminal word = !testBit word 0 := by
  simp only [Engine.isTerminal, engine, DmaStatus.ofBusyWord]
  by_cases busy : testBit word 0 = true
  · simp [busy]
  · simp [busy]

end Sp

end Protocol

/-! ### What the two bits mean -/

/-- A write that makes the engine accept a transfer. -/
def Command.IsStart : Command → Prop
  | .write register _ => register = SpRegister.readLen ∨ register = SpRegister.writeLen
  | _ => False

/-- The engine holds a number of outstanding transfers, of which the second one occupies its queue
slot. They end in their own time, and only the write of a length adds one. -/
structure Hardware.QueueLaws {σ : Type} (hw : Hardware σ) (outstanding : σ → Nat) : Prop where
  /-- Left alone, the engine only ends transfers. -/
  moves : ∀ ⦃s t⦄, hw.moves s t → outstanding t ≤ outstanding s
  /-- The busy bit tells whether a transfer is outstanding. -/
  busy : ∀ ⦃s⦄ ⦃word : UInt32⦄ ⦃t⦄, hw.responds s (.read SpRegister.dmaBusy) word t →
    testBit word 0 = decide (0 < outstanding s)
  /-- The full bit tells whether a second one is. -/
  full : ∀ ⦃s⦄ ⦃word : UInt32⦄ ⦃t⦄, hw.responds s (.read SpRegister.dmaFull) word t →
    testBit word 0 = decide (2 ≤ outstanding s)
  /-- A start adds one transfer at most. -/
  starts : ∀ ⦃s command answer t⦄, command.IsStart → hw.responds s command answer t →
    outstanding t ≤ outstanding s + 1
  /-- No other access adds one. -/
  others : ∀ ⦃s command answer t⦄, ¬ command.IsStart → hw.responds s command answer t →
    outstanding t ≤ outstanding s

namespace Command

theorem IsAside.not_isStart {command : Command} (h : command.IsAside) : ¬ command.IsStart := by
  cases command with
  | write register value =>
    rintro (rfl | rfl)
    · exact h.1 rfl
    · exact h.1 rfl
  | _ => exact id

end Command

namespace Hardware.QueueLaws

variable {σ : Type} {hw : Hardware σ} {guard : Guard σ} {outstanding : σ → Nat}
  {assertion : σ → Prop}

/-- A bound on the outstanding transfers survives whatever an assertion survives. -/
theorem keeps_and_le (laws : hw.QueueLaws outstanding)
    (keeps : hw.Keeps guard Command.IsAside assertion) (n : Nat) :
    hw.Keeps guard Command.IsAside fun s => assertion s ∧ outstanding s ≤ n where
  stable := keeps.stable.and fun s t moved h => Nat.le_trans (laws.moves moved) h
  state := fun s h => keeps.state h.1
  access := fun s command aside h => keeps.access aside h.1
  responds := by
    intro s command answer t aside h responded
    refine ⟨keeps.responds aside h.1 responded, ?_⟩
    exact Nat.le_trans (laws.others aside.not_isStart responded) h.2

/-- A wait for an answer that shows a bound. The bound survives the answer itself, since a read
starts nothing. -/
theorem ensures_spin (laws : hw.QueueLaws outstanding)
    (keeps : hw.Keeps guard Command.IsAside assertion) {register : Register}
    {accepted : UInt32 → Bool} (n : Nat)
    (shows : ∀ ⦃s⦄ ⦃word : UInt32⦄ ⦃t⦄, hw.responds s (.read register) word t →
      accepted word = true → outstanding s ≤ n) :
    hw.Ensures guard assertion (Idle.spin (.read register) accepted) fun _ s =>
      assertion s ∧ outstanding s ≤ n := by
  have aside : (Command.read register).IsAside := Command.isAside_read _
  have status (c : Command) (h : c.IsStatus) : c.IsAside := h.isAside
  apply Idle.ensures_spin (keeps.mono status) fun _ => (laws.keeps_and_le keeps n).mono status
  · exact fun s h => keeps.access aside h
  · exact fun s word t h responded _ => keeps.responds aside h responded
  · intro s word t h responded taken
    constructor
    · exact keeps.responds aside h responded
    · exact Nat.le_trans (laws.others id responded) (shows responded taken)

/-- Behind a wait for the engine no transfer is outstanding. -/
theorem ensures_waitIdle (laws : hw.QueueLaws outstanding)
    (keeps : hw.Keeps guard Command.IsAside assertion) :
    hw.Ensures guard assertion Sp.engine.waitIdle fun _ s => assertion s ∧ outstanding s ≤ 0 := by
  refine .bind (laws.ensures_spin keeps 0 ?_) fun word =>
    .done (laws.keeps_and_le keeps 0).toSound fun _ h => h
  intro s word t responded taken
  rw [Sp.isTerminal_eq, laws.busy responded] at taken
  simpa using taken

/-- Outstanding transfers that leave room for one more: with a queue in use one, and else none. -/
def room (config : Config) : Nat := if config.dmaQueue then 1 else 0

/-- Behind a wait for the queue there is room for one more transfer. -/
theorem ensures_waitQueue (laws : hw.QueueLaws outstanding)
    (keeps : hw.Keeps guard Command.IsAside assertion) (config : Config) :
    hw.Ensures guard assertion (Sp.engine.waitQueue config) fun _ s =>
      assertion s ∧ outstanding s ≤ room config := by
  unfold Engine.waitQueue room
  cases h : config.dmaQueue with
  | false =>
    -- without a queue this is the other wait
    refine .bind (laws.ensures_waitIdle keeps) fun _ => ?_
    exact .done (laws.keeps_and_le keeps 0).toSound fun _ h => h
  | true =>
    refine .bind (laws.ensures_spin keeps 1 ?_) fun word =>
      .done (laws.keeps_and_le keeps 1).toSound fun _ h => h
    intro s word t responded taken
    rw [laws.full responded, Bool.not_eq_true', decide_eq_false_iff_not] at taken
    exact Nat.le_of_lt_succ (Nat.lt_of_not_le taken)

end Hardware.QueueLaws

end ColdBoot
