import ColdBoot.Proofs.StartCommand
import ColdBoot.Proofs.WordTapes

/-! # Waits for the engines

An engine is waited for by reading one register of it until a word says that nothing is in the way.
What is read after that is never looked at, and what is read before it decides nothing.

* **`Engine.endsAtFirst_waitIdle`** – the wait for any engine;
* **`Engine.endsAtFirst_waitSlot`** – the wait for its queue;
* **`Pi.follows_transfer`** – a transfer, which is started first;
* **`Engine.waits_end_at_first`** – all of that, with the words of the two engines bit by bit. -/

namespace ColdBoot

open Program Tapes

namespace DmaStatus

theorem ofCartridgeWord_eq (word : UInt32) : ofCartridgeWord word =
    if word.toNat.testBit 0 then .inProgress
    else if word.toNat.testBit 2 then .ioError else .completed := by
  rw [ofCartridgeWord, testBit_eq word (by decide), testBit_eq word (by decide)]
  rfl

theorem ofBusyWord_eq (word : UInt32) : ofBusyWord word =
    if word.toNat.testBit 0 then .inProgress else .completed := by
  rw [ofBusyWord, testBit_eq word (by decide)]
  rfl

theorem ofCartridgeWord_ne (word : UInt32) :
    decide (ofCartridgeWord word ≠ .inProgress) = !word.toNat.testBit 0 := by
  rw [ofCartridgeWord_eq]
  cases word.toNat.testBit 0 <;> cases word.toNat.testBit 2 <;> rfl

theorem ofBusyWord_ne (word : UInt32) :
    decide (ofBusyWord word ≠ .inProgress) = !word.toNat.testBit 0 := by
  rw [ofBusyWord_eq]
  cases word.toNat.testBit 0 <;> rfl

end DmaStatus

namespace Engine

variable (engine : Engine)

/-- What a wait makes of the word that ends it: an engine that cannot tell errors has completed. -/
def outcome (word : UInt32) : DmaStatus :=
  if engine.classify word = .ioError ∧ engine.caps.reportsErrors = false then .completed
  else engine.classify word

theorem terminalStatus_eq : engine.terminalStatus = engine.outcome := by
  funext word
  cases classified : engine.classify word <;> cases reports : engine.caps.reportsErrors <;>
    simp [terminalStatus, outcome, classified, reports]

variable {engine} {word : UInt32}

theorem outcome_of_reports (reports : engine.caps.reportsErrors = true) :
    engine.outcome word = engine.classify word := if_neg fun h => by
  rw [reports] at h
  cases h.2

/-- An engine that cannot tell errors has always completed. -/
theorem outcome_of_not_reports (silent : engine.caps.reportsErrors = false)
    (stopped : engine.classify word ≠ .inProgress) : engine.outcome word = .completed := by
  rw [outcome]
  split
  · rfl
  · next other =>
    cases classified : engine.classify word with
    | inProgress => exact absurd classified stopped
    | ioError => exact absurd ⟨classified, silent⟩ other
    | completed => rfl

/-- Nothing is in progress any more when a wait is over. -/
theorem outcome_ne (stopped : engine.classify word ≠ .inProgress) :
    engine.outcome word ≠ .inProgress := by
  cases reports : engine.caps.reportsErrors with
  | true => rwa [outcome_of_reports reports]
  | false =>
    rw [outcome_of_not_reports reports stopped]
    nofun

variable (engine)

/-- **The wait for an engine** ends at the first word that says it has stopped. -/
theorem endsAtFirst_waitIdle : EndsAtFirst engine.waitIdle engine.statusRegister
    (fun word => engine.classify word ≠ .inProgress) engine.outcome := by
  rw [← terminalStatus_eq]
  exact endsAtFirst_spin engine.statusRegister engine.isTerminal engine.terminalStatus

/-- **The wait for a queue** ends at the first word that says there is room. -/
theorem endsAtFirst_waitSlot {register : Register} (queue : engine.queueRegister = some register) :
    EndsAtFirst engine.waitSlot register (fun word => !word.toNat.testBit 0) fun _ => () := by
  have wait : engine.waitSlot =
      (Idle.spin (.read register) (fun word => !testBit word 0) >>= fun _ => pure ()) := by
    rw [waitSlot, queue]
  rw [wait]
  refine (endsAtFirst_spin register _ _).congr (fun word => ?_) fun _ _ => rfl
  rw [testBit_eq word (by decide)]
  rfl

/-- The wait for a queue is for room in it where the queue is in use, … -/
theorem endsAtFirst_waitQueue {register : Register} {config : Config}
    (queued : engine.caps.queued = true) (inUse : config.dmaQueue = true)
    (queue : engine.queueRegister = some register) :
    EndsAtFirst (engine.waitQueue config) register (fun word => !word.toNat.testBit 0)
      fun _ => () := by
  rw [waitQueue, queued, inUse]
  exact engine.endsAtFirst_waitSlot queue

/-- … and otherwise for the end of all transfers. -/
theorem waitQueue_eq {config : Config} (unused : (engine.caps.queued && config.dmaQueue) = false) :
    engine.waitQueue config = (engine.waitIdle >>= fun _ => pure ()) := by
  rw [waitQueue, unused]
  rfl

/-- A wait for an engine never says that the engine is still going. -/
theorem waitIdle_ne {s t : Tapes} {moments : List (Moment Tapes)} {status : DmaStatus}
    (execution : hardware.Execution engine.waitIdle s moments (.returned status) t) :
    status ≠ .inProgress := by
  obtain ⟨refused, word, rest, first, rfl⟩ :=
    engine.endsAtFirst_waitIdle.exists_of_returned execution
  exact outcome_ne (of_decide_eq_true first.accepts)

end Engine

/-- A word of the cartridge engine that ends a wait. -/
theorem Pi.outcome_eq {word : UInt32} (stopped : Pi.engine.isTerminal word = true) :
    Pi.engine.outcome word = if word.toNat.testBit 2 then .ioError else .completed := by
  have clear : (!word.toNat.testBit 0) = true :=
    (DmaStatus.ofCartridgeWord_ne word).symm.trans stopped
  rw [Bool.not_eq_true'] at clear
  rw [Engine.outcome_of_reports rfl]
  show DmaStatus.ofCartridgeWord word = _
  rw [DmaStatus.ofCartridgeWord_eq, clear]
  rfl

/-- The cartridge engine has stopped when its busy bit is clear, with an error if the error bit is
set. -/
theorem Pi.endsAtFirst_waitIdle : EndsAtFirst Pi.engine.waitIdle PiRegister.status
    (fun word => !word.toNat.testBit 0)
    fun word => if word.toNat.testBit 2 then .ioError else .completed :=
  Pi.engine.endsAtFirst_waitIdle.congr DmaStatus.ofCartridgeWord_ne fun _ => Pi.outcome_eq

/-- The signal processor's engine has stopped when its busy bit is clear. -/
theorem Sp.endsAtFirst_waitIdle : EndsAtFirst Sp.engine.waitIdle SpRegister.dmaBusy
    (fun word => !word.toNat.testBit 0) fun _ => .completed :=
  Sp.engine.endsAtFirst_waitIdle.congr DmaStatus.ofBusyWord_ne fun _ stopped =>
    Engine.outcome_of_not_reports rfl (of_decide_eq_true stopped)

/-! ### Transfers -/

namespace Pi

variable {descriptor : PiDescriptor} {direction : Direction} {s : Tapes}

/-- What a transfer makes of the end of its wait. -/
theorem endsAtFirst_result : EndsAtFirst (engine.waitIdle >>= fun status => pure status.result)
    PiRegister.status (fun word => !word.toNat.testBit 0)
    fun word => if word.toNat.testBit 2 then .error .cartridgeIo else .ok () := by
  have wait : (engine.waitIdle >>= fun status => pure status.result) =
      (Idle.spin (.read PiRegister.status) engine.isTerminal >>= fun word =>
        pure (engine.terminalStatus word).result) := by
    rw [Engine.waitIdle, Program.bind_assoc]
    rfl
  rw [wait, Engine.terminalStatus_eq]
  refine (endsAtFirst_spin PiRegister.status engine.isTerminal _).congr
    DmaStatus.ofCartridgeWord_ne fun word stopped => ?_
  rw [outcome_eq stopped]
  cases word.toNat.testBit 2 <;> rfl

/-- Starting is answered on any tapes, and reads nothing off them. -/
theorem follows_start (s : Tapes) (direction : Direction)
    (meets : ∀ requirement ∈ requirements, descriptor.Meets requirement) :
    ∃ length : UInt32, length.toNat + 1 = descriptor.len.toNat ∧
      hardware.Follows (start descriptor direction) s (starting descriptor direction length)
        (.returned ()) s := by
  obtain ⟨length, value, plays⟩ := plays_start direction meets
  have course : hardware.Course s ((starting descriptor direction length).map (⟨s, ·⟩)) s :=
    .access .refl (.write s _ _) <| .access .refl (.write s _ _) <|
      .access .refl (.write s _ _) (.rest .refl)
  exact ⟨length, value, determined.follows ⟨plays.returns, course⟩ nofun⟩

/-- **A transfer** reads the words behind its start up to the first one that is not busy. -/
theorem follows_transfer (direction : Direction)
    (meets : ∀ requirement ∈ requirements, descriptor.Meets requirement)
    {refused : List UInt32} {word : UInt32} {rest : Stream'.Seq UInt32}
    (first : First (fun word => !word.toNat.testBit 0) (s.words PiRegister.status) refused word
      rest) : ∃ length : UInt32, length.toNat + 1 = descriptor.len.toNat ∧
        hardware.Follows (transfer descriptor direction) s
          (starting descriptor direction length ++ (entering s.status ++
            (reading PiRegister.status (refused ++ [word]) ++ leaving s.status)))
          (.returned (if word.toNat.testBit 2 then .error .cartridgeIo else .ok ()))
          { s.readUpTo PiRegister.status rest with status := s.status.without CpuStatus.rp } := by
  obtain ⟨length, value, starts⟩ := follows_start s direction meets
  exact ⟨length, value, starts.bind (endsAtFirst_result.follows first)⟩

/-- **A transfer fails** exactly if it is started and the first word that is not busy has the error
bit set. -/
theorem transfer_fails_iff : (∃ moments t, hardware.Execution (transfer descriptor direction) s
      moments (.returned (.error .cartridgeIo)) t) ↔
    (∀ requirement ∈ requirements, descriptor.Meets requirement) ∧
      ∃ refused word rest, First (fun word => !word.toNat.testBit 0) (s.words PiRegister.status)
        refused word rest ∧ word.toNat.testBit 2 = true := by
  constructor
  · rintro ⟨moments, t, execution⟩
    obtain ⟨_, _, _, _, rfl, started, waited⟩ := execution.of_bind
    by_cases meets : ∀ requirement ∈ requirements, descriptor.Meets requirement
    · obtain ⟨length, -, starts⟩ := follows_start s direction meets
      obtain ⟨-, -, same⟩ := (starts.unique started).2 nofun
      rw [same] at waited
      obtain ⟨refused, word, rest, first, eq⟩ := endsAtFirst_result.exists_of_returned waited
      refine ⟨meets, refused, word, rest, first, ?_⟩
      cases failed : word.toNat.testBit 2 with
      | true => rfl
      | false =>
        rw [failed] at eq
        cases eq
    · obtain ⟨requirement, -, -, stops⟩ := stops_start direction meets
      exact absurd started.run stops.not_returned
  · rintro ⟨meets, refused, word, rest, first, failed⟩
    obtain ⟨length, -, follows⟩ := follows_transfer direction meets first
    rw [failed] at follows
    obtain ⟨moments, execution, -⟩ := follows.exists_execution
    exact ⟨moments, _, execution⟩

/-- A transfer that is over with the first word behind its start that is not busy. -/
structure OverAtFirst (descriptor : PiDescriptor) (direction : Direction) : Prop where
  /-- It fails exactly if it is started and that word has the error bit set. -/
  fails_iff : ∀ s, (∃ moments t, hardware.Execution (transfer descriptor direction) s moments
      (.returned (.error .cartridgeIo)) t) ↔
    (∀ requirement ∈ requirements, descriptor.Meets requirement) ∧
      ∃ refused word rest, First (fun word => !word.toNat.testBit 0) (s.words PiRegister.status)
        refused word rest ∧ word.toNat.testBit 2 = true
  /-- The length is written before the words are read, and they are read up to that one. -/
  follows : (∀ requirement ∈ requirements, descriptor.Meets requirement) →
    ∀ ⦃s refused word rest⦄, First (fun word => !word.toNat.testBit 0)
      (s.words PiRegister.status) refused word rest →
      ∃ length : UInt32, length.toNat + 1 = descriptor.len.toNat ∧
        hardware.Follows (transfer descriptor direction) s
          (starting descriptor direction length ++ (entering s.status ++
            (reading PiRegister.status (refused ++ [word]) ++ leaving s.status)))
          (.returned (if word.toNat.testBit 2 then .error .cartridgeIo else .ok ()))
          { s.readUpTo PiRegister.status rest with status := s.status.without CpuStatus.rp }

end Pi

/-! ### The two engines together -/

/-- **Waits end at the first word that lets them**, with what that word says, and have read no more
than that. The wait for a queue is one for its register where the queue is in use, and the wait for
the engine otherwise; a transfer fails by the first word after its start that is not busy. -/
theorem Engine.waits_end_at_first :
    EndsAtFirst Pi.engine.waitIdle PiRegister.status (fun word => !word.toNat.testBit 0)
      (fun word => if word.toNat.testBit 2 then .ioError else .completed) ∧
    EndsAtFirst Sp.engine.waitIdle SpRegister.dmaBusy (fun word => !word.toNat.testBit 0)
      (fun _ => .completed) ∧
    (∀ engine : Engine, EndsAtFirst engine.waitIdle engine.statusRegister
      (fun word => engine.classify word ≠ .inProgress)
      fun word =>
        if engine.classify word = .ioError ∧ engine.caps.reportsErrors = false then .completed
        else engine.classify word) ∧
    (∀ (engine : Engine) (s t : Tapes) (moments : List (Moment Tapes)) (status : DmaStatus),
      hardware.Execution engine.waitIdle s moments (.returned status) t → status ≠ .inProgress) ∧
    (∀ config : Config, config.dmaQueue = true → EndsAtFirst (Sp.engine.waitQueue config)
      SpRegister.dmaFull (fun word => !word.toNat.testBit 0) fun _ => ()) ∧
    (∀ (engine : Engine) (config : Config), (engine.caps.queued && config.dmaQueue) = false →
      engine.waitQueue config = (engine.waitIdle >>= fun _ => pure ())) ∧
    ∀ (descriptor : PiDescriptor) (direction : Direction), Pi.OverAtFirst descriptor direction := by
  refine ⟨Pi.endsAtFirst_waitIdle, Sp.endsAtFirst_waitIdle, endsAtFirst_waitIdle, ?_, ?_, ?_, ?_⟩
  · exact fun engine _ _ _ _ => engine.waitIdle_ne
  · exact fun _ inUse => Sp.engine.endsAtFirst_waitQueue rfl inUse rfl
  · exact fun engine _ => engine.waitQueue_eq
  · exact fun _ direction => ⟨fun _ => Pi.transfer_fails_iff,
      fun meets _ _ _ _ => Pi.follows_transfer direction meets⟩

/-- A word that is busy does not end a wait, also with the error bit set, but the next one does.
What is behind it stays on the tape. -/
theorem Engine.waits_end_at_first_third :
    hardware.Follows Pi.engine.waitIdle ⟨CpuStatus.ie, fun _ => .ofList [1, 5, 4, 0]⟩
      [⟨.getStatus, 0x00000001⟩, ⟨.setStatus 0x08000001, ()⟩, ⟨.read PiRegister.status, 1⟩,
        ⟨.read PiRegister.status, 5⟩, ⟨.read PiRegister.status, 4⟩, ⟨.getStatus, 0x08000001⟩,
        ⟨.setStatus 0x00000001, ()⟩]
      (.returned .ioError)
      (Tapes.readUpTo ⟨CpuStatus.ie, fun _ => .ofList [1, 5, 4, 0]⟩ PiRegister.status
        (.ofList [0])) ∧
    hardware.Follows (Sp.engine.waitQueue ⟨true, false, none, .off⟩)
      ⟨CpuStatus.rp, fun _ => .ofList [1, 5, 4, 0]⟩
      [⟨.getStatus, 0x08000000⟩, ⟨.setStatus 0x08000000, ()⟩, ⟨.read SpRegister.dmaFull, 1⟩,
        ⟨.read SpRegister.dmaFull, 5⟩, ⟨.read SpRegister.dmaFull, 4⟩, ⟨.getStatus, 0x08000000⟩,
        ⟨.setStatus 0, ()⟩]
      (.returned ())
      { Tapes.readUpTo ⟨CpuStatus.rp, fun _ => .ofList [1, 5, 4, 0]⟩ SpRegister.dmaFull
        (.ofList [0]) with status := 0 } ∧
    ∃ moments t, hardware.Execution
      (Pi.transfer ⟨.ofAddress 0x80000008, .ofAddress 0x10000002, 2⟩ .toRdram)
      ⟨CpuStatus.ie, fun _ => .ofList [1, 5, 4, 0]⟩ moments
      (.returned (.error .cartridgeIo)) t := by
  obtain ⟨wait, -, -, -, queue, -, transfer⟩ := waits_end_at_first
  have first : First (fun word => !word.toNat.testBit 0) (.ofList [1, 5, 4, 0]) [1, 5] 4
      (.ofList [0]) := by
    refine ⟨?_, List.forall_mem_cons.2 ⟨rfl, List.forall_mem_cons.2 ⟨rfl, nofun⟩⟩, rfl⟩
    rw [← Stream'.Seq.ofList_cons, ← Stream'.Seq.ofList_append]
    rfl
  refine ⟨wait.follows (s := ⟨CpuStatus.ie, fun _ => .ofList [1, 5, 4, 0]⟩) first, ?_, ?_⟩
  · exact (queue ⟨true, false, none, .off⟩ rfl).follows
      (s := ⟨CpuStatus.rp, fun _ => .ofList [1, 5, 4, 0]⟩) first
  · exact ((transfer _ .toRdram).fails_iff _).2 ⟨by decide, _, _, _, first, by decide⟩

end ColdBoot
