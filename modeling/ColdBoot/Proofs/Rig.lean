import ColdBoot.Proofs.LiveBoard
import ColdBoot.Proofs.SettledBoard
import ColdBoot.Proofs.Twins

/-! # A board and a status word

The board together with the processor's status word, as hardware. Two rigs that will be the same
when their engines have come to the end of their queues cannot be told apart by a program that does
not race them; and while nobody looks at a picture, the status word alone decides about all answers
but those of polls.

* **`Rig.hardware`** – rigs as hardware, and **`Rig.live`** – they are live;
* **`Rig.mirrors_settled`** – rigs that are the same at rest answer alike;
* **`Rig.mirrors_status`** – so do rigs with the same status word, but for pictures. -/

namespace ColdBoot

open Hardware Program

/-- A board, and the processor's status word. -/
@[ext] structure Rig where
  status : Flags
  board : Board Unit

namespace Rig

/-- What commands do to the status word. -/
def StatusResponds (before : Flags) : (command : Command) → command.Answer → Flags → Prop
  | .getStatus, answer, behind => answer = before ∧ behind = before
  | .setStatus status, _, behind => behind = status
  | _, _, behind => behind = before

/-- A rig as hardware: the processor reaches RDRAM directly, and the engine takes its time. -/
def hardware : Hardware Rig where
  moves s t := Board.Moves directPath s.board t.board ∧ t.status = s.status
  responds s command answer t :=
    (Board.hardware directPath).responds s.board command answer t.board ∧
      StatusResponds s.status command answer t.status

/-- Outstanding transfers. -/
def outstanding (s : Rig) : Nat := s.board.outstanding

theorem queueLaws : hardware.QueueLaws outstanding where
  moves _ _ moved := (Board.queueLaws directPath).moves moved.1
  busy _ _ _ responded := (Board.queueLaws directPath).busy responded.1
  full _ _ _ responded := (Board.queueLaws directPath).full responded.1
  starts _ _ _ _ start responded := (Board.queueLaws directPath).starts start responded.1
  others _ _ _ _ other responded := (Board.queueLaws directPath).others other responded.1

/-- The rig as it will be when all outstanding transfers are carried out. -/
def settled (s : Rig) : Rig := { s with board := s.board.settled }

theorem settled_of_idle {s : Rig} (idle : s.outstanding = 0) : s.settled = s := by
  have empty : s.board.engine.queue = [] := List.length_eq_zero_iff.1 idle
  rw [settled, Board.settled_of_idle empty]

variable {s s' t t' : Rig}

/-- What the board does by itself, the rig does. -/
theorem movesTo_of_board {board : Board Unit}
    (moved : (Board.hardware directPath).MovesTo s.board board) :
    hardware.MovesTo s ⟨s.status, board⟩ :=
  moved.lift (Rig.mk s.status) fun _ _ move => ⟨move, rfl⟩

/-- An execution on a rig is one on its board. -/
theorem execution_board {α : Type} {program : Program α} {ending : Ending α}
    {moments : List (Moment Rig)} (execution : hardware.Execution program s moments ending t) :
    (Board.hardware directPath).Execution program s.board
      (moments.map fun moment => ⟨moment.state.board, moment.event⟩) ending t.board := by
  refine execution.project board ?_ ?_
  · exact fun s t moved => moved.1
  · exact fun s command answer t responded => responded.1

/-- A poll has no effect. -/
theorem still_of_polls ⦃s : Rig⦄ ⦃command : Command⦄ ⦃answer : command.Answer⦄ ⦃t : Rig⦄
    (polls : command.polls = true) (responded : hardware.responds s command answer t) : t = s := by
  cases command with
  | read register => exact Rig.ext responded.2 responded.1.1
  | getCause | getFence => exact Rig.ext responded.2 responded.1
  | _ => cases polls

theorem status_of_movesTo (moved : hardware.MovesTo s t) : t.status = s.status := by
  induction moved with
  | refl => rfl
  | tail _ move ih => exact move.2.trans ih

theorem settled_of_movesTo (moved : hardware.MovesTo s t) : t.settled = s.settled := by
  induction moved with
  | refl => rfl
  | tail _ move ih =>
    rw [← ih, settled, settled, (Board.settled_of_moves move.1).1, move.2]

/-- What a command does to the status word depends on nothing else. -/
theorem status_alike {command : Command} {answer answer' : command.Answer}
    (same : s.status = s'.status) (responded : hardware.responds s command answer t)
    (responded' : hardware.responds s' command answer' t') : t.status = t'.status := by
  have first : StatusResponds s.status command answer t.status := responded.2
  have second : StatusResponds s'.status command answer' t'.status := responded'.2
  cases command with
  | getStatus => exact (first.2.trans same).trans second.2.symm
  | setStatus status => exact first.trans second.symm
  | _ => exact (first.trans same).trans second.symm

/-- **Rigs that are the same at rest** answer alike, as long as nothing races the engine. -/
theorem mirrors_settled :
    hardware.Mirrors hardware (·.polls = false) (·.board.Tidy)
      fun s s' => s.settled = s'.settled where
  moves := by
    intro s s' met met' same moved moved'
    rw [settled_of_movesTo moved, settled_of_movesTo moved', same]
  responds := by
    intro s s' command answer answer' t t' plain same tidy tidy' responded responded'
    obtain ⟨status, board⟩ := Rig.mk.inj same
    have boards : t.board.settled = t'.board.settled := by
      rw [Board.settled_of_responds tidy responded.1, Board.settled_of_responds tidy' responded'.1,
        board]
    have words : t.status = t'.status := status_alike status responded responded'
    refine ⟨?_, Rig.ext words boards⟩
    cases command with
    | getStatus => exact (responded.2.1.trans status).trans responded'.2.1.symm
    | loadFrame vaddr =>
      rw [Board.picture_of_responds tidy responded.1, Board.picture_of_responds tidy' responded'.1,
        board]
    | read | getCause | getFence => cases plain
    | setStatus | cache | write | storeDoubleword | setFence | storePixels | fillStaging => rfl

end Rig

namespace Command

/-- An access that uses no byte of RDRAM. -/
def UsesNothing (command : Command) : Prop := ∀ a, ¬ command.Uses a

variable {command : Command}

theorem IsAside.usesNothing (h : command.IsAside) : command.UsesNothing := by
  cases command with
  | storeDoubleword | loadFrame | storePixels | fillStaging => exact h.elim
  | _ => exact fun _ => id

theorem IsCache.usesNothing (h : command.IsCache) : command.UsesNothing := by
  cases command with
  | cache => exact fun _ => id
  | _ => exact h.elim

theorem WritesTo.usesNothing {block : RegisterBlock} (h : command.WritesTo block) :
    command.UsesNothing := by
  cases command with
  | write => exact fun _ => id
  | _ => exact h.elim

/-- No look at a picture. -/
def IsSightless (command : Command) : Prop := ∀ vaddr, command ≠ .loadFrame vaddr

theorem IsStatus.isSightless (h : command.IsStatus) : command.IsSightless := by
  rintro vaddr rfl
  exact h

theorem IsTransfer.isSightless (h : command.IsTransfer) : command.IsSightless := by
  rintro vaddr rfl
  exact h

theorem UsesNothing.isSightless (h : command.UsesNothing) : command.IsSightless := by
  rintro vaddr rfl
  exact h (placeOf vaddr) ⟨Nat.le_refl _, Nat.lt_add_of_pos_right (by decide)⟩

end Command

/-- **Rigs with the same status word** answer alike, as long as nobody looks at a picture. -/
theorem Rig.mirrors_status :
    hardware.Mirrors hardware (·.polls = false) (fun _ => Command.IsSightless)
      fun s s' => s.status = s'.status where
  moves := by
    intro s s' met met' same moved moved'
    rw [status_of_movesTo moved, status_of_movesTo moved', same]
  responds := by
    intro s s' command answer answer' t t' plain same sightless _ responded responded'
    refine ⟨?_, status_alike same responded responded'⟩
    cases command with
    | getStatus => exact (responded.2.1.trans same).trans responded'.2.1.symm
    | loadFrame vaddr => exact absurd rfl (sightless vaddr)
    | read | getCause | getFence => cases plain
    | setStatus | cache | write | storeDoubleword | setFence | storePixels | fillStaging => rfl

/-! ### Rigs answer -/

/-- A rig answers every command, and its engine can end every wait. -/
theorem Rig.live : hardware.Live where
  answers s command := by
    obtain ⟨answer, board, responded⟩ := (Board.live directPath_total).answers s.board command
    cases command with
    | getStatus => exact ⟨s.status, ⟨s.status, board⟩, responded, rfl, rfl⟩
    | setStatus status => exact ⟨(), ⟨status, board⟩, responded, rfl⟩
    | _ => exact ⟨answer, ⟨s.status, board⟩, responded, rfl⟩
  waits s command accepted wait := by
    obtain ⟨met, answer, t, moved, responded, taken⟩ :=
      (Board.live directPath_total).waits s.board command accepted wait
    have held : StatusResponds s.status command answer s.status := by cases wait <;> rfl
    exact ⟨⟨s.status, met⟩, answer, ⟨s.status, t⟩, movesTo_of_board moved, ⟨responded, held⟩, taken⟩

/-- A rig can come to rest. -/
theorem Rig.movesTo_settled (s : Rig) : hardware.MovesTo s s.settled := by
  obtain ⟨board, moved, idle⟩ := Board.exists_drained directPath s.board
  have there := movesTo_of_board moved
  have rest : Rig.settled ⟨s.status, board⟩ = ⟨s.status, board⟩ :=
    settled_of_idle (List.length_eq_zero_iff.2 idle)
  rwa [← settled_of_movesTo there, rest]

end ColdBoot
