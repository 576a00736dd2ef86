import ColdBoot.Bench.Run
import ColdBoot.Dma.Engine

/-! # Engines played back

An engine can be put on the bench as two lists of words that it is going to show. A **`Playback`** is
the bench with such an engine; it counts the looks, and gives up when there are too many. Lists stick
at their last word. -/

namespace ColdBoot

/-- The bench with an engine that is played back. -/
structure Playback where
  machine : Machine
  /-- Status word of a look. -/
  statusWord : Nat → UInt32
  /-- Whether the queue slot is occupied at a look. -/
  slotOccupied : Nat → Bool
  /-- Looks at the status so far. -/
  statusLooks : Nat
  /-- Looks at the queue slot so far. -/
  slotLooks : Nat
  /-- Looks before the bench gives up. -/
  limit : Nat

namespace Playback

variable {α : Type}

/-- The register that shows the status words. -/
def statusRegister : Register := PiRegister.status

/-- The register that shows the queue slot. -/
def slotRegister : Register := SpRegister.dmaFull

/-- An engine played back: status words are those of the cartridge interface. -/
def engine (caps : EngineCaps) (hasSlot : Bool) : Engine where
  caps
  statusRegister
  classify := .ofCartridgeWord
  queueRegister := if hasSlot then some slotRegister else none

/-- Look `n` at a list that sticks at its last word; an empty list shows zero. -/
def wordAt (words : Array UInt32) (n : Nat) : UInt32 :=
  words.getD (min n (words.size - 1)) 0

/-- Carry out a command. -/
def perform (command : Command) (playback : Playback) :
    Except Bench.Failure command.Answer × Playback :=
  match command with
  | .read register =>
      if register = statusRegister then
        let looks := playback.statusLooks + 1
        let after := { playback with statusLooks := looks }
        if playback.limit < looks then (.error .stuck, after)
        else (.ok (playback.statusWord playback.statusLooks), after)
      else
        let looks := playback.slotLooks + 1
        let after := { playback with slotLooks := looks }
        if playback.limit < looks then (.error .stuck, after)
        else (.ok (if playback.slotOccupied playback.slotLooks then 1 else 0), after)
  | command =>
      let (result, machine) := playback.machine.execute command
      (result, { playback with machine })

/-- The bench with such an engine. -/
def rules : Bench.Rules Playback where
  perform
  settle command playback :=
    let (result, machine) := playback.machine.settle command
    (result, { playback with machine })
  patience _ playback := playback.limit + 1

/-- Run a wait. One that is given up leaves its bracket. -/
def run (program : Program α) (playback : Playback) : Except Bench.Failure α × Playback :=
  match program.runWith rules playback with
  | (.error .stuck, playback) =>
      (.error .stuck, { playback with machine := (playback.machine.run Idle.leave).2 })
  | outcome => outcome

end Playback

end ColdBoot
