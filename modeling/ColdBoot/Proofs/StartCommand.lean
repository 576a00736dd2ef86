import ColdBoot.Dma.Pi
import ColdBoot.Dma.Sp
import ColdBoot.Proofs.LogWindow
import ColdBoot.Proofs.RowPacking

/-! # Starting a transfer

The write of a length register is the command that starts a transfer. Starting makes it last, behind
both addresses, and only if the descriptor passes the checks of its engine: a descriptor that breaks
a requirement stops the program in front of the first write, and a row that does not fit its word
stops it behind the addresses.

* **`Program.Stops`** – a program that breaks off behind the same events, whatever it is answered;
* **`PiDescriptor.Meets`**, **`SpDescriptor.Meets`** – the requirements, on numbers;
* **`Pi.WholeOrNothing`**, **`Sp.WholeOrNothing`** – what starting comes to;
* **`Dma.start_whole_or_nothing`** – for each descriptor and either direction. -/

namespace ColdBoot

namespace Program

variable {α β : Type}

/-- The program stops after these events, whatever it is answered: its other runs are this one cut
off. -/
structure Stops (program : Program α) (events : List Event) (reason : Stop) : Prop where
  stops : program.Runs events (.stopped reason)
  only : ∀ others ending, program.Runs others ending →
    others <+: events ∧ ending = .cut ∨ others = events ∧ ending = .stopped reason

section

variable {program : Program α} {f : α → Program β} {events first second : List Event} {value : α}
  {final : β} {reason : Stop} {checked : Except Fault α}

theorem Plays.ofExcept_bind (passes : checked = .ok value) (rest : (f value).Plays events final) :
    (ofExcept checked >>= f).Plays events final := by
  rwa [passes]

/-- What plays to its end does not stop. -/
theorem Plays.not_stopped (plays : program.Plays first value) :
    ¬ program.Runs events (.stopped reason) := by
  intro run
  rcases plays.only _ _ run with ⟨-, cut⟩ | ⟨-, returned⟩
  · cases cut
  · cases returned

namespace Stops

theorem stop : (Program.stop reason : Program α).Stops [] reason where
  stops := .stop reason
  only := by
    intro others ending run
    cases run with
    | stop => exact .inr ⟨rfl, rfl⟩
    | cut => exact .inl ⟨List.nil_prefix, rfl⟩

/-- Stopping behind what plays to its end. -/
theorem behind (plays : program.Plays first value) (rest : (f value).Stops second reason) :
    (program >>= f).Stops (first ++ second) reason where
  stops := plays.returns.bind rest.stops
  only := by
    intro others ending run
    rcases run.of_bind with ⟨early, part, lifted⟩ | ⟨events₁, events₂, between, part, behind, rfl⟩
    · rcases plays.only _ _ part with ⟨front, rfl⟩ | ⟨-, rfl⟩
      · cases lifted
        exact .inl ⟨front.trans (List.prefix_append _ _), rfl⟩
      · cases lifted
    · rcases plays.only _ _ part with ⟨-, cut⟩ | ⟨rfl, same⟩
      · cases cut
      · cases same
        rcases rest.only _ _ behind with ⟨front, rfl⟩ | ⟨rfl, rfl⟩
        · exact .inl ⟨(List.prefix_append_right_inj _).2 front, rfl⟩
        · exact .inr ⟨rfl, rfl⟩

/-- What is to follow makes no difference. -/
theorem bind (h : program.Stops events reason) : (program >>= f).Stops events reason where
  stops := h.stops.bind_of_lift rfl
  only := by
    intro others ending run
    rcases run.of_bind with ⟨early, part, lifted⟩ | ⟨_, _, _, part, -, -⟩
    · rcases h.only _ _ part with ⟨front, rfl⟩ | ⟨rfl, rfl⟩
      · cases lifted
        exact .inl ⟨front, rfl⟩
      · cases lifted
        exact .inr ⟨rfl, rfl⟩
    · rcases h.only _ _ part with ⟨-, cut⟩ | ⟨-, stopped⟩
      · cases cut
      · cases stopped

theorem ofExcept_error {fault : Fault} (fails : checked = .error fault) :
    (ofExcept checked >>= f).Stops [] (.fault fault) := by
  rw [fails]
  exact stop

/-- What stops does not return. -/
theorem not_returned {value : α} (h : program.Stops first reason) :
    ¬ program.Runs events (.returned value) := by
  intro run
  rcases h.only _ _ run with ⟨-, cut⟩ | ⟨-, stopped⟩
  · cases cut
  · cases stopped

/-- The events of a run that stops. -/
theorem eq_of_stopped {reason' : Stop} (h : program.Stops first reason)
    (run : program.Runs events (.stopped reason')) : events = first := by
  rcases h.only _ _ run with ⟨-, cut⟩ | ⟨eq, -⟩
  · cases cut
  · exact eq

end Stops

end

end Program

open Program

/-! ### Checks -/

namespace Requirement

/-- Insist on requirements, one after the other. -/
def insist (meets : Requirement → Bool) (requirements : List Requirement) : Program Unit :=
  requirements.forM fun requirement => Program.ofExcept (requirement.check (meets requirement))

variable {requirements : List Requirement}

theorem insist_cons (meets : Requirement → Bool) (first : Requirement) :
    insist meets (first :: requirements) =
      (Program.ofExcept (first.check (meets first)) >>= fun _ => insist meets requirements) := rfl

variable {Meets : Requirement → Prop} [DecidablePred Meets]

theorem plays_insist (all : ∀ requirement ∈ requirements, Meets requirement) :
    (insist (Meets ·) requirements).Plays [] () := by
  induction requirements with
  | nil => exact .done ()
  | cons first rest ih =>
    rw [List.forall_mem_cons] at all
    rw [insist_cons, decide_eq_true all.1]
    exact ih all.2

/-- The first requirement that is broken stops the program. -/
theorem stops_insist (broken : ¬ ∀ requirement ∈ requirements, Meets requirement) :
    ∃ requirement ∈ requirements, ¬ Meets requirement ∧
      (insist (Meets ·) requirements).Stops [] (.fault (.violated requirement)) := by
  induction requirements with
  | nil => exact absurd (by simp) broken
  | cons first rest ih =>
    rw [List.forall_mem_cons] at broken
    rw [insist_cons]
    by_cases met : Meets first
    · obtain ⟨requirement, member, unmet, stops⟩ := ih fun all => broken ⟨met, all⟩
      rw [decide_eq_true met]
      exact ⟨requirement, List.mem_cons_of_mem _ member, unmet, stops⟩
    · rw [decide_eq_false met]
      exact ⟨first, List.mem_cons_self, met, .stop⟩

/-- And so it stops whatever insists on them first. -/
theorem stops_insist_bind {α : Type} {rest : Unit → Program α}
    (broken : ¬ ∀ requirement ∈ requirements, Meets requirement) :
    ∃ requirement ∈ requirements, ¬ Meets requirement ∧
      (insist (Meets ·) requirements >>= rest).Stops [] (.fault (.violated requirement)) := by
  obtain ⟨requirement, member, unmet, stops⟩ := stops_insist broken
  exact ⟨requirement, member, unmet, stops.bind⟩

end Requirement

/-! ### Requirements on numbers -/

/-- A remainder is none exactly if the numbers leave none. -/
theorem Checked.mod_eq_zero_iff {a b : UInt32} : a % b = 0 ↔ a.toNat % b.toNat = 0 := by
  rw [← UInt32.toNat_inj, UInt32.toNat_mod, UInt32.toNat_zero]

theorem PhysAddr.isAligned_eq (p : PhysAddr) {align : UInt32} (nonzero : align ≠ 0) :
    p.isAligned align = .ok (decide (p.word.toNat % align.toNat = 0)) := by
  rw [isAligned, Checked.rem, if_neg nonzero, ← decide_eq_decide.2 Checked.mod_eq_zero_iff]
  rfl

/-- A cartridge transfer meets a requirement. -/
def PiDescriptor.Meets (descriptor : PiDescriptor) : Requirement → Prop
  | .dramOnDoubleword => descriptor.dram.word.toNat % 8 = 0
  | .cartOnHalfword => descriptor.cart.word.toNat % 2 = 0
  | .lengthPositiveEven => descriptor.len.toNat ≠ 0 ∧ descriptor.len.toNat % 2 = 0
  | .memOnDoubleword => True

instance (descriptor : PiDescriptor) : DecidablePred descriptor.Meets
  | .dramOnDoubleword => inferInstanceAs (Decidable (_ = _))
  | .cartOnHalfword => inferInstanceAs (Decidable (_ = _))
  | .lengthPositiveEven => inferInstanceAs (Decidable (_ ∧ _))
  | .memOnDoubleword => inferInstanceAs (Decidable True)

/-- A transfer of the signal processor's engine meets a requirement. -/
def SpDescriptor.Meets (descriptor : SpDescriptor) : Requirement → Prop
  | .memOnDoubleword => descriptor.mem.toNat % 8 = 0
  | .dramOnDoubleword => descriptor.dram.word.toNat % 8 = 0
  | _ => True

instance (descriptor : SpDescriptor) : DecidablePred descriptor.Meets
  | .memOnDoubleword => inferInstanceAs (Decidable (_ = _))
  | .dramOnDoubleword => inferInstanceAs (Decidable (_ = _))
  | .cartOnHalfword => inferInstanceAs (Decidable True)
  | .lengthPositiveEven => inferInstanceAs (Decidable True)

/-- The parts of a shape that may be too wide fit into the packed word. -/
structure RowLength.Fits (row : RowLength) : Prop where
  copy : row.copy.toNat ≤ 0xFFF
  skip : row.skip.toNat ≤ 0xFFF

/-- A field that refuses a value has one reason for it. -/
theorem BitField.fault_of_put {field : BitField} {word value : UInt32} {fault : Fault}
    (refused : field.put word value = .error fault) : fault = .fieldOverflow := by
  by_cases le : value ≤ field.mask
  · rw [put, if_pos le] at refused
    cases refused
  · rw [put, if_neg le] at refused
    cases refused
    rfl

/-- A shape that is refused is too wide. -/
theorem RowLength.fault_of_bits {row : RowLength} {fault : Fault}
    (refused : row.bits = .error fault) : fault = .fieldOverflow := by
  rw [bits] at refused
  -- the first field that refuses its value ends the packing
  cases eq₁ : copyField.put 0 row.copy.toUInt32 with
  | error =>
    rw [eq₁] at refused
    cases refused
    exact BitField.fault_of_put eq₁
  | ok first =>
    rw [eq₁] at refused
    change (countField.put first _ >>= fun word => skipField.put word _) = _ at refused
    cases eq₂ : countField.put first row.count.toUInt32 with
    | error =>
      rw [eq₂] at refused
      cases refused
      exact BitField.fault_of_put eq₂
    | ok second =>
      rw [eq₂] at refused
      exact BitField.fault_of_put refused

/-- A shape whose parts do not all fit is refused. -/
theorem RowLength.bits_of_not_fits {row : RowLength} (wide : ¬ row.Fits) :
    row.bits = .error .fieldOverflow := by
  cases packed : row.bits with
  | ok word =>
    obtain ⟨copy, skip⟩ := row.lt_of_bits packed
    exact absurd ⟨Nat.le_of_lt_succ copy, Nat.le_of_lt_succ skip⟩ wide
  | error fault => rw [fault_of_bits packed]

theorem Direction.lengthRegister_eq (readLen writeLen : Register) (direction : Direction) :
    lengthRegister readLen writeLen direction =
      if direction = .toRdram then writeLen else readLen := by
  cases direction <;> rfl

/-! ### The cartridge engine -/

namespace Pi

/-- What the engine insists on, in this order. -/
def requirements : List Requirement := [.dramOnDoubleword, .cartOnHalfword, .lengthPositiveEven]

/-- The writes that start a transfer: both addresses, and the length in the register of the
direction. -/
def starting (descriptor : PiDescriptor) (direction : Direction) (length : UInt32) : List Event :=
  [written PiRegister.dramAddr descriptor.dram.word,
    written PiRegister.cartAddr descriptor.cart.word,
    written (if direction = .toRdram then PiRegister.writeLen else PiRegister.readLen) length]

/-- **What starting a cartridge transfer comes to**: both addresses and the length, or nothing. -/
structure WholeOrNothing (descriptor : PiDescriptor) (direction : Direction) : Prop where
  /-- The addresses are physical ones. -/
  physical : descriptor.dram.word.toNat < 2 ^ 29 ∧ descriptor.cart.word.toNat < 2 ^ 29
  /-- A descriptor that meets the requirements is written whole, the length less one as the last. -/
  whole : (∀ requirement ∈ requirements, descriptor.Meets requirement) →
    ∃ length : UInt32, length.toNat + 1 = descriptor.len.toNat ∧
      (start descriptor direction).Plays (starting descriptor direction length) ()
  /-- One that breaks a requirement stops the program, and nothing is written. -/
  nothing : (¬ ∀ requirement ∈ requirements, descriptor.Meets requirement) →
    ∃ requirement ∈ requirements, ¬ descriptor.Meets requirement ∧
      (start descriptor direction).Stops [] (.fault (.violated requirement))
  /-- A program that has stopped has written no length. -/
  unstarted : ∀ events reason value, (start descriptor direction).Runs events (.stopped reason) →
    written PiRegister.readLen value ∉ events ∧ written PiRegister.writeLen value ∉ events

/-- Starting is to insist on the requirements and then to write. -/
theorem start_eq (descriptor : PiDescriptor) (direction : Direction) :
    start descriptor direction = (do
      Requirement.insist (descriptor.Meets ·) requirements
      Program.write PiRegister.dramAddr descriptor.dram.word
      Program.write PiRegister.cartAddr descriptor.cart.word
      let length ← Program.ofExcept (lengthField descriptor)
      Program.write (lengthRegister direction) length) := by
  have length : (descriptor.len ≠ 0 && descriptor.len % 2 = 0 : Bool) =
      decide (descriptor.Meets .lengthPositiveEven) := by
    have nonzero : descriptor.len ≠ 0 ↔ descriptor.len.toNat ≠ 0 := by
      rw [Ne, ← UInt32.toNat_inj, UInt32.toNat_zero]
    rw [← Bool.decide_and]
    exact decide_eq_decide.2 (and_congr nonzero Checked.mod_eq_zero_iff)
  rw [start, length, requirements, descriptor.dram.isAligned_eq (by decide),
    descriptor.cart.isAligned_eq (by decide)]
  simp only [Requirement.insist_cons, Program.bind_assoc]
  rfl

variable {descriptor : PiDescriptor} (direction : Direction)

theorem plays_start (meets : ∀ requirement ∈ requirements, descriptor.Meets requirement) :
    ∃ length : UInt32, length.toNat + 1 = descriptor.len.toNat ∧
      (start descriptor direction).Plays (starting descriptor direction length) () := by
  obtain ⟨nonzero, -⟩ := meets .lengthPositiveEven (by decide)
  have least : (1 : UInt32) ≤ descriptor.len := by
    rw [UInt32.le_iff_toNat_le, UInt32.toNat_one]
    omega
  have length : lengthField descriptor = .ok (descriptor.len - 1) := if_pos least
  refine ⟨descriptor.len - 1, ?_, ?_⟩
  · rw [UInt32.toNat_sub_of_le _ _ least, UInt32.toNat_one]
    omega
  · rw [start_eq, starting, ← Direction.lengthRegister_eq]
    refine (Requirement.plays_insist meets).bind ?_
    refine (Plays.write _ _).bind ((Plays.write _ _).bind ?_)
    exact .ofExcept_bind length (.write _ _)

theorem stops_start (broken : ¬ ∀ requirement ∈ requirements, descriptor.Meets requirement) :
    ∃ requirement ∈ requirements, ¬ descriptor.Meets requirement ∧
      (start descriptor direction).Stops [] (.fault (.violated requirement)) := by
  rw [start_eq]
  exact Requirement.stops_insist_bind broken

theorem wholeOrNothing (descriptor : PiDescriptor) (direction : Direction) :
    WholeOrNothing descriptor direction where
  physical := ⟨descriptor.dram.word_lt, descriptor.cart.word_lt⟩
  whole := plays_start direction
  nothing := stops_start direction
  unstarted := by
    intro events reason value run
    by_cases meets : ∀ requirement ∈ requirements, descriptor.Meets requirement
    · obtain ⟨length, -, plays⟩ := plays_start direction meets
      exact absurd run plays.not_stopped
    · obtain ⟨requirement, -, -, stops⟩ := stops_start direction meets
      rw [stops.eq_of_stopped run]
      exact ⟨List.not_mem_nil, List.not_mem_nil⟩

end Pi

/-! ### The signal processor's engine -/

namespace Sp

/-- What the engine insists on, in this order. -/
def requirements : List Requirement := [.memOnDoubleword, .dramOnDoubleword]

/-- The writes that start a transfer: both addresses, and the length in the register of the
direction. -/
def starting (descriptor : SpDescriptor) (direction : Direction) (length : UInt32) : List Event :=
  [written SpRegister.memAddr descriptor.mem,
    written SpRegister.dramAddr descriptor.dram.word,
    written (if direction = .toRdram then SpRegister.writeLen else SpRegister.readLen) length]

/-- **What starting a transfer of the signal processor's engine comes to**: both addresses and the
length, or no length at all. -/
structure WholeOrNothing (descriptor : SpDescriptor) (direction : Direction) : Prop where
  /-- The address in RDRAM is a physical one. -/
  physical : descriptor.dram.word.toNat < 2 ^ 29
  /-- A descriptor that meets the requirements, with a row that fits, is written whole, the packed
  row as the last. -/
  whole : (∀ requirement ∈ requirements, descriptor.Meets requirement) → descriptor.row.Fits →
    ∃ length, descriptor.row.bits = .ok length ∧
      length.toNat = descriptor.row.skip.toNat * 2 ^ 20 +
        (descriptor.row.count.toNat * 2 ^ 12 + descriptor.row.copy.toNat) ∧
      (start descriptor direction).Plays (starting descriptor direction length) ()
  /-- With a row that does not fit only the addresses are written. -/
  halfway : (∀ requirement ∈ requirements, descriptor.Meets requirement) → ¬ descriptor.row.Fits →
    (start descriptor direction).Stops
      [written SpRegister.memAddr descriptor.mem,
        written SpRegister.dramAddr descriptor.dram.word] (.fault .fieldOverflow)
  /-- A descriptor that breaks a requirement stops the program, and nothing is written. -/
  nothing : (¬ ∀ requirement ∈ requirements, descriptor.Meets requirement) →
    ∃ requirement ∈ requirements, ¬ descriptor.Meets requirement ∧
      (start descriptor direction).Stops [] (.fault (.violated requirement))
  /-- A program that has stopped has written no length. -/
  unstarted : ∀ events reason value, (start descriptor direction).Runs events (.stopped reason) →
    written SpRegister.readLen value ∉ events ∧ written SpRegister.writeLen value ∉ events

/-- Starting is to insist on the requirements and then to write. -/
theorem start_eq (descriptor : SpDescriptor) (direction : Direction) :
    start descriptor direction = (do
      Requirement.insist (descriptor.Meets ·) requirements
      Program.write SpRegister.memAddr descriptor.mem
      Program.write SpRegister.dramAddr descriptor.dram.word
      let length ← Program.ofExcept descriptor.row.bits
      Program.write (lengthRegister direction) length) := by
  have remainder : Checked.rem descriptor.mem 8 = .ok (descriptor.mem % 8) := if_neg (by decide)
  have place : decide (descriptor.mem % 8 = 0) = decide (descriptor.Meets .memOnDoubleword) :=
    decide_eq_decide.2 Checked.mod_eq_zero_iff
  rw [start, remainder, requirements, descriptor.dram.isAligned_eq (by decide)]
  simp only [Requirement.insist_cons, Program.bind_assoc, ← place]
  rfl

variable {descriptor : SpDescriptor} (direction : Direction)

theorem plays_start (meets : ∀ requirement ∈ requirements, descriptor.Meets requirement)
    (fits : descriptor.row.Fits) : ∃ length, descriptor.row.bits = .ok length ∧
      length.toNat = descriptor.row.skip.toNat * 2 ^ 20 +
        (descriptor.row.count.toNat * 2 ^ 12 + descriptor.row.copy.toNat) ∧
      (start descriptor direction).Plays (starting descriptor direction length) () := by
  obtain ⟨length, packed, value⟩ := descriptor.row.bits_of_lt (Nat.lt_succ_of_le fits.copy)
    (Nat.lt_succ_of_le fits.skip)
  refine ⟨length, packed, value, ?_⟩
  rw [start_eq, starting, ← Direction.lengthRegister_eq]
  refine (Requirement.plays_insist meets).bind ?_
  refine (Plays.write _ _).bind ((Plays.write _ _).bind ?_)
  exact .ofExcept_bind packed (.write _ _)

theorem stops_start_wide (meets : ∀ requirement ∈ requirements, descriptor.Meets requirement)
    (wide : ¬ descriptor.row.Fits) : (start descriptor direction).Stops
      [written SpRegister.memAddr descriptor.mem,
        written SpRegister.dramAddr descriptor.dram.word] (.fault .fieldOverflow) := by
  rw [start_eq]
  refine .behind (Requirement.plays_insist meets) ?_
  refine .behind (Plays.write _ _) (.behind (Plays.write _ _) ?_)
  exact .ofExcept_error (RowLength.bits_of_not_fits wide)

theorem stops_start (broken : ¬ ∀ requirement ∈ requirements, descriptor.Meets requirement) :
    ∃ requirement ∈ requirements, ¬ descriptor.Meets requirement ∧
      (start descriptor direction).Stops [] (.fault (.violated requirement)) := by
  rw [start_eq]
  exact Requirement.stops_insist_bind broken

theorem wholeOrNothing (descriptor : SpDescriptor) (direction : Direction) :
    WholeOrNothing descriptor direction where
  physical := descriptor.dram.word_lt
  whole := plays_start direction
  halfway := stops_start_wide direction
  nothing := stops_start direction
  unstarted := by
    intro events reason value run
    by_cases meets : ∀ requirement ∈ requirements, descriptor.Meets requirement
    · by_cases fits : descriptor.row.Fits
      · obtain ⟨length, -, -, plays⟩ := plays_start direction meets fits
        exact absurd run plays.not_stopped
      · rw [(stops_start_wide direction meets fits).eq_of_stopped run]
        simp [written, SpRegister.readLen, SpRegister.writeLen, SpRegister.memAddr,
          SpRegister.dramAddr]
    · obtain ⟨requirement, -, -, stops⟩ := stops_start direction meets
      rw [stops.eq_of_stopped run]
      exact ⟨List.not_mem_nil, List.not_mem_nil⟩

end Sp

/-- **A transfer is started whole or not at all.** In either direction, and on either engine,
starting writes both addresses and then, as the last, the length into the register of the direction,
or it stops the program with no length written. -/
theorem Dma.start_whole_or_nothing (direction : Direction) :
    (∀ descriptor, Pi.WholeOrNothing descriptor direction) ∧
      ∀ descriptor, Sp.WholeOrNothing descriptor direction :=
  ⟨fun descriptor => Pi.wholeOrNothing descriptor direction,
    fun descriptor => Sp.wholeOrNothing descriptor direction⟩

/-- A halfword from the cartridge is started, and a row of 4097 bytes is not. -/
theorem Dma.start_whole_or_nothing_halfword :
    (Pi.start ⟨.ofAddress 0x80000008, .ofAddress 0x10000002, 2⟩ .toRdram).Plays
      [written PiRegister.dramAddr 8, written PiRegister.cartAddr 0x10000002,
        written PiRegister.writeLen 1] () ∧
    (Sp.start ⟨0, .ofAddress 0xA0000010, ⟨0x1000, 0, 0⟩⟩ .toRdram).Stops
      [written SpRegister.memAddr 0, written SpRegister.dramAddr 0x10] (.fault .fieldOverflow) := by
  obtain ⟨pi, sp⟩ := start_whole_or_nothing .toRdram
  refine ⟨?_, (sp ⟨0, .ofAddress 0xA0000010, ⟨0x1000, 0, 0⟩⟩).halfway (by decide) fun fits => ?_⟩
  · obtain ⟨length, value, plays⟩ :=
      (pi ⟨.ofAddress 0x80000008, .ofAddress 0x10000002, 2⟩).whole (by decide)
    obtain rfl : length = 1 := UInt32.toNat_inj.1 (Nat.succ.inj value)
    exact plays
  · exact absurd fits.copy (by decide)

end ColdBoot
