import ColdBoot.Proofs.Finishing
import ColdBoot.Proofs.TransferQueue

/-! # Programs that come back

A finishable program has *an* execution that returns. Where the hardware answers everything and lets
nobody wait for ever, *every* execution of it returns, whatever the hardware does and whenever.

* **`Hardware.Returns`** – every execution of a program comes to its return: none stops, none gets
  stuck, and none goes on for ever;
* **`Hardware.Fair`** – outstanding transfers retire while the engine is polled, and the vblank flag
  comes up while it is looked at, after any number of looks;
* **`Hardware.Fair.returns`** – on such hardware finishable programs return;
* **`Countdown`** – such hardware, with a number of looks for every transfer and every blank. -/

namespace ColdBoot

open Program

namespace Hardware

variable {σ α : Type} (hw : Hardware σ)

/-- Whatever the hardware does, the program returns a value in `result`. Each access is answered, and
whatever the answer, the rest returns; a wait may be refused any number of times, but not for ever,
since the refusals are proofs inside one another. -/
inductive Returns (result : α → Prop) : Program α → σ → Prop where
  | done {value : α} {s : σ} (member : result value) : Returns result (.done value) s
  | step {command : Command} {next : command.Answer → Program α} {s : σ}
      (answered : ∀ met, hw.MovesTo s met → ∃ answer behind, hw.responds met command answer behind)
      (rest : ∀ met answer behind, hw.MovesTo s met → hw.responds met command answer behind →
        Returns result (next answer) behind) :
      Returns result (.step command next) s
  | await {command : Command} {accepted : command.Answer → Bool}
      {next : command.Answer → Program α} {s : σ}
      (answered : ∀ met, hw.MovesTo s met → ∃ answer behind, hw.responds met command answer behind)
      (refused : ∀ met answer behind, hw.MovesTo s met → hw.responds met command answer behind →
        accepted answer = false → Returns result (.await command accepted next) behind)
      (taken : ∀ met answer behind, hw.MovesTo s met → hw.responds met command answer behind →
        accepted answer = true → Returns result (next answer) behind) :
      Returns result (.await command accepted next) s

/-- A look at one of the engine's two bits that finds transfers outstanding and leaves as many. -/
def Lingers (outstanding : σ → Nat) (later earlier : σ) : Prop :=
  0 < outstanding earlier ∧ outstanding later = outstanding earlier ∧
    ∃ met register word, (register = SpRegister.dmaBusy ∨ register = SpRegister.dmaFull) ∧
      hw.MovesTo earlier met ∧ hw.responds met (.read register) word later

/-- A look at the vblank flag that finds it down. -/
def Unsignaled (later earlier : σ) : Prop :=
  ∃ met, hw.MovesTo earlier met ∧ hw.responds met .getFence false later

/-- Hardware that answers every command and on which nothing is waited for in vain. -/
structure Fair (outstanding : σ → Nat) : Prop extends hw.QueueLaws outstanding where
  answers : ∀ s command, ∃ answer t, hw.responds s command answer t
  /-- Whoever polls the engine sees a transfer retire, after however many polls. -/
  retires : WellFounded (hw.Lingers outstanding)
  /-- Whoever looks for vertical blank sees it come, after however many looks. -/
  signals : WellFounded hw.Unsignaled

namespace Fair

variable {hw} {outstanding : σ → Nat} {result : α → Prop}

theorem outstanding_le (fair : hw.Fair outstanding) {s t : σ} (moved : hw.MovesTo s t) :
    outstanding t ≤ outstanding s := by
  induction moved with
  | refl => exact Nat.le_refl _
  | tail _ move ih => exact Nat.le_trans (fair.moves move) ih

/-- A wait that is only refused while transfers are outstanding. -/
theorem returns_poll (fair : hw.Fair outstanding) {register : Register}
    (polled : register = SpRegister.dmaBusy ∨ register = SpRegister.dmaFull)
    {accepted : UInt32 → Bool} {next : UInt32 → Program α}
    (pending : ∀ {s : σ} {word : UInt32} {t : σ}, hw.responds s (.read register) word t →
      accepted word = false → 0 < outstanding s)
    (rest : ∀ word s, hw.Returns result (next word) s) (s : σ) :
    hw.Returns result (.await (.read register) accepted next) s := by
  -- a refused poll retires a transfer, or it is one of the polls that a transfer holds out
  induction count : outstanding s using Nat.strong_induction_on generalizing s with
  | _ n fewer =>
    induction s using fair.retires.induction with
    | _ s lingering =>
      refine .await (fun met _ => fair.answers met _) ?_ fun _ word t _ _ _ => rest word t
      intro met word t moved responded refused
      have busy : 0 < outstanding met := pending responded refused
      have met_le : outstanding met ≤ outstanding s := fair.outstanding_le moved
      have behind_le : outstanding t ≤ outstanding met := fair.others id responded
      by_cases same : outstanding t = outstanding s
      · apply lingering t ⟨by omega, same, met, register, word, polled, moved, responded⟩
        rw [same, count]
      · exact fewer (outstanding t) (by omega) t rfl

/-- A wait for the vblank flag. -/
theorem returns_fence (fair : hw.Fair outstanding) {next : Bool → Program α}
    (rest : ∀ signaled s, hw.Returns result (next signaled) s) (s : σ) :
    hw.Returns result (.await .getFence id next) s := by
  induction s using fair.signals.induction with
  | _ s silent =>
    refine .await (fun met _ => fair.answers met _) ?_ fun _ signaled t _ _ _ => rest signaled t
    rintro met signaled t moved responded (rfl : signaled = false)
    exact silent t ⟨met, moved, responded⟩

/-- **Finishable programs return.** -/
theorem returns (fair : hw.Fair outstanding) {program : Program α}
    (h : program.Finishable result) (s : σ) : hw.Returns result program s := by
  induction h generalizing s with
  | done member => exact .done member
  | step _ ih =>
    exact .step (fun met _ => fair.answers met _) fun _ answer t _ _ => ih answer t
  | await wait _ ih =>
    cases wait with
    | idle =>
      apply fair.returns_poll (.inl rfl) _ ih
      intro s word t responded refused
      rw [Sp.isTerminal_eq, fair.busy responded] at refused
      simpa using refused
    | slot =>
      apply fair.returns_poll (.inr rfl) _ ih
      intro s word t responded refused
      rw [fair.full responded] at refused
      have : 2 ≤ outstanding s := by simpa using refused
      omega
    | fence => exact fair.returns_fence ih s

end Fair

end Hardware

/-! ### Hardware that counts looks -/

/-- What is still to be waited for: the looks that each outstanding transfer holds out, and the looks
before the next vertical blank. -/
structure Countdown where
  transfers : List Nat
  blank : Nat

namespace Countdown

/-- A look at the engine: the active transfer holds out one look less, or retires. -/
def poll : Countdown → Countdown
  | ⟨[], blank⟩ => ⟨[], blank⟩
  | ⟨0 :: rest, blank⟩ => ⟨rest, blank⟩
  | ⟨(looks + 1) :: rest, blank⟩ => ⟨looks :: rest, blank⟩

/-- What an access is answered, and what it leaves. A new transfer holds out any number of looks, and
so does the vblank flag when it is written. What has nothing to do with waiting is answered in any
way. -/
def responds : Countdown → (command : Command) → command.Answer → Countdown → Prop
  | s, .read register, word, t =>
      (register = SpRegister.dmaBusy → testBit word 0 = decide (0 < s.transfers.length)) ∧
      (register = SpRegister.dmaFull → testBit word 0 = decide (2 ≤ s.transfers.length)) ∧
      t = if register = SpRegister.dmaBusy ∨ register = SpRegister.dmaFull then s.poll else s
  | s, .write register _, _, t =>
      if register = SpRegister.readLen ∨ register = SpRegister.writeLen then
        ∃ looks, t = { s with transfers := s.transfers ++ [looks] }
      else t = s
  | s, .setFence _, _, t => ∃ looks, t = { s with blank := looks }
  | s, .getFence, signaled, t => signaled = decide (s.blank = 0) ∧ t = { s with blank := s.blank - 1 }
  | s, _, _, t => t = s

/-- The counters as hardware. -/
def hardware : Hardware Countdown := ⟨fun _ _ => False, responds⟩

/-- Outstanding transfers. -/
def outstanding (s : Countdown) : Nat := s.transfers.length

theorem outstanding_poll_le (s : Countdown) : s.poll.outstanding ≤ s.outstanding := by
  obtain ⟨transfers, blank⟩ := s
  match transfers with
  | [] => exact Nat.le_refl _
  | 0 :: rest => exact Nat.le_succ _
  | (looks + 1) :: rest => exact Nat.le_refl _

/-- A look that retires nothing shortens the wait. -/
theorem headD_poll_lt {s : Countdown} (outstanding : 0 < s.outstanding)
    (same : s.poll.outstanding = s.outstanding) :
    s.poll.transfers.headD 0 < s.transfers.headD 0 := by
  obtain ⟨transfers, blank⟩ := s
  match transfers with
  | [] => exact absurd outstanding (Nat.lt_irrefl 0)
  | 0 :: rest => exact absurd same (Nat.ne_of_lt (Nat.lt_succ_self _))
  | (looks + 1) :: rest => exact Nat.lt_succ_self looks

theorem eq_of_movesTo {s t : Countdown} (moved : hardware.MovesTo s t) : t = s := by
  induction moved with
  | refl => rfl
  | tail _ move => exact move.elim

theorem queueLaws : hardware.QueueLaws outstanding where
  moves := fun _ _ move => move.elim
  busy := fun _ _ _ responded => responded.1 rfl
  full := fun _ _ _ responded => responded.2.1 rfl
  starts := by
    intro s command answer t starts responded
    cases command with
    | write register value =>
      have starts : register = SpRegister.readLen ∨ register = SpRegister.writeLen := starts
      simp only [hardware, responds, if_pos starts] at responded
      obtain ⟨looks, rfl⟩ := responded
      simp [outstanding]
    | _ => exact starts.elim
  others := by
    intro s command answer t other responded
    cases command with
    | read register =>
      obtain ⟨-, -, rfl⟩ := responded
      split
      · exact outstanding_poll_le s
      · exact Nat.le_refl _
    | write register value =>
      have other : ¬ (register = SpRegister.readLen ∨ register = SpRegister.writeLen) := other
      simp only [hardware, responds, if_neg other] at responded
      rw [responded]
    | setFence signaled =>
      obtain ⟨looks, rfl⟩ := responded
      exact Nat.le_refl _
    | getFence =>
      obtain ⟨-, rfl⟩ := responded
      exact Nat.le_refl _
    | _ =>
      obtain rfl : t = s := responded
      exact Nat.le_refl _

theorem exists_answer (s : Countdown) (command : Command) :
    ∃ answer t, hardware.responds s command answer t := by
  cases command with
  | read register =>
    let word : UInt32 :=
      if register = SpRegister.dmaBusy then if 0 < s.transfers.length then 1 else 0
      else if 2 ≤ s.transfers.length then 1 else 0
    refine ⟨word, _, ?_, ?_, rfl⟩
    · rintro rfl
      by_cases busy : 0 < s.transfers.length <;> simp [word, busy] <;> decide
    · rintro rfl
      have ne : SpRegister.dmaFull ≠ SpRegister.dmaBusy := by decide
      by_cases full : 2 ≤ s.transfers.length <;> simp [word, ne, full] <;> decide
  | write register value =>
    by_cases starts : register = SpRegister.readLen ∨ register = SpRegister.writeLen
    · refine ⟨(), { s with transfers := s.transfers ++ [0] }, ?_⟩
      simp only [hardware, responds, if_pos starts]
      exact ⟨0, rfl⟩
    · refine ⟨(), s, ?_⟩
      simp only [hardware, responds, if_neg starts]
  | setFence signaled => exact ⟨(), _, 0, rfl⟩
  | getFence => exact ⟨_, _, rfl, rfl⟩
  | getStatus => exact ⟨(0 : Flags), s, rfl⟩
  | getCause => exact ⟨(0 : UInt32), s, rfl⟩
  | loadFrame vaddr => exact ⟨Framebuffer.blank, s, rfl⟩
  | setStatus | cache | storeDoubleword | storePixels | fillStaging => exact ⟨(), s, rfl⟩

/-- **The counters run out**, so nothing is waited for in vain. -/
theorem fair : hardware.Fair outstanding where
  toQueueLaws := queueLaws
  answers := exists_answer
  retires := by
    apply Subrelation.wf _ (measure fun s : Countdown => s.transfers.headD 0).wf
    rintro later earlier ⟨outstanding, same, met, register, word, polled, moved, responded⟩
    obtain rfl := eq_of_movesTo moved
    obtain ⟨-, -, rfl⟩ := responded
    rw [if_pos polled] at same ⊢
    exact headD_poll_lt outstanding same
  signals := by
    apply Subrelation.wf _ (measure Countdown.blank).wf
    rintro later earlier ⟨met, moved, signaled, rfl⟩
    obtain rfl := eq_of_movesTo moved
    have : met.blank ≠ 0 := by simpa using signaled.symm
    show met.blank - 1 < met.blank
    omega

end Countdown

end ColdBoot
