import ColdBoot.Proofs.Pacing
import ColdBoot.Proofs.Timeline

/-! # The cycle of a frame

Seen from the vblank flag, a frame goes through four phases: the target is cleared and drawn into,
the flag is waited for, the target is shown, and the flag is lowered. **`Turns`** says which ticks
each phase admits and where they lead, and **`Rendered`** which histories frames have; vertical
blanks may come anywhere in them.

* **`Rendered.flips_add_le`** – no more framebuffers are shown than vertical blanks have come;
* **`Rendered.blank_between_flips`** – between two flips the flag is lowered and raised again;
* **`Rendered.flag_behind_vblank`** – a vertical blank that nobody has seen is not lost;
* **`Rendered.exists_draw`** – behind the rendering of a frame there is its drawing. -/

namespace ColdBoot

open Hardware Timeline

namespace Command

/-- Neither an access to the flag, nor a drawing, nor the choice of what is scanned out. -/
def IsPlain : Command → Prop
  | .setFence _ | .getFence | .storePixels _ _ => False
  | .write register _ => register ≠ ViRegister.origin
  | _ => True

variable {command : Command}

theorem IsTransfer.isPlain (h : command.IsTransfer) : command.IsPlain := by
  cases command with
  | write register value =>
    rintro rfl
    cases h
  | setFence | getFence | storePixels => exact h
  | _ => trivial

theorem IsStatus.isPlain (h : command.IsStatus) : command.IsPlain := by
  cases command with
  | getStatus | setStatus => trivial
  | _ => exact h.elim

theorem WritesTo.isPlain {block : RegisterBlock} (h : command.WritesTo block) (ne : block ≠ .vi) :
    command.IsPlain := by
  cases command with
  | write register value =>
    obtain rfl : register.block = block := h
    rintro rfl
    exact ne rfl
  | _ => exact h.elim

theorem IsCache.isPlain (h : command.IsCache) : command.IsPlain := by
  cases command with
  | cache => trivial
  | _ => exact h.elim

end Command

/-! ### Phases -/

/-- How far a frame has come. -/
inductive Phase where
  /-- The target is being cleared and drawn into. -/
  | rendering
  /-- The drawing is over, and the flag is waited for. -/
  | drawn
  /-- The flag has been seen. -/
  | woken
  /-- The target is shown. -/
  | shown
  deriving DecidableEq

/-- The ticks that a phase admits, if the flag is up or not, and the phase behind each. -/
inductive Turns (up : Bool) : Phase → Tick → Phase → Prop where
  | vblank (phase : Phase) : Turns up phase .vblank phase
  | plain {event : Event} (phase : Phase) (h : event.command.IsPlain) :
      Turns up phase (.access event) phase
  | draw {vaddr : UInt32} {drawing : Drawing} :
      Turns up .rendering (.access ⟨.storePixels vaddr drawing, ()⟩) .drawn
  | refuse (down : up = false) : Turns up .drawn (.access ⟨.getFence, false⟩) .drawn
  | accept (raised : up = true) : Turns up .drawn (.access ⟨.getFence, true⟩) .woken
  | flip {place : UInt32} : Turns up .woken (.access ⟨.write ViRegister.origin place, ()⟩) .shown
  | lower : Turns up .shown (.access ⟨.setFence false, ()⟩) .rendering

/-- The histories of frames behind a given past, and how far the last one of them has come. -/
inductive Rendered (start : Controls) (past : List Tick) : Phase → List Tick → Prop where
  | nil : Rendered start past .rendering []
  | tick {phase phase' : Phase} {ticks : List Tick} {last : Tick}
      (h : Rendered start past phase ticks)
      (turns : Turns (start.behind (past ++ ticks)).flag phase last phase') :
      Rendered start past phase' (ticks ++ [last])

/-- Pixels are stored. -/
def Tick.draws : Tick → Bool
  | .access ⟨.storePixels _ _, _⟩ => true
  | _ => false

/-- Another framebuffer is scanned out. -/
def Tick.flips : Tick → Bool
  | .access ⟨.write register _, _⟩ => register = ViRegister.origin
  | _ => false

/-- The flag is looked at. -/
def Tick.polls : Tick → Bool
  | .access ⟨.getFence, _⟩ => true
  | _ => false

/-- The flag is looked at, and is up. -/
def Tick.wakes : Tick → Bool
  | .access ⟨.getFence, answer⟩ => answer
  | _ => false

/-- The video interrupt is taken. -/
def Tick.isVblank : Tick → Bool
  | .vblank => true
  | .access _ => false

/-- The flag has been seen, and not been lowered since. -/
def awake (past : List Tick) : Bool :=
  past.foldl (fun awake tick => if tick.wakes then true else if lowers tick then false else awake)
    false

@[simp] theorem awake_concat (past : List Tick) (last : Tick) :
    awake (past ++ [last]) =
      if last.wakes then true else if lowers last then false else awake past := by
  rw [awake, List.foldl_append]
  rfl

/-- Plain accesses are none of those that make a frame. -/
theorem Command.IsPlain.aside {event : Event} (h : event.command.IsPlain) :
    (Tick.access event).draws = false ∧ (Tick.access event).flips = false ∧
      (Tick.access event).polls = false ∧ lowers (.access event) = false ∧
      raises (.access event) = false := by
  obtain ⟨command, answer⟩ := event
  cases command with
  | setFence | getFence | storePixels => exact h.elim
  | write register value => exact ⟨rfl, decide_eq_false h, rfl, rfl, rfl⟩
  | _ => exact ⟨rfl, rfl, rfl, rfl, rfl⟩

theorem Tick.polls_of_wakes {tick : Tick} (h : tick.wakes = true) : tick.polls = true := by
  match tick with
  | .access ⟨.getFence, _⟩ => rfl

namespace Turns

variable {up : Bool} {phase phase' : Phase} {tick : Tick}

/-! What a tick says about the phases around it. -/

theorem of_flips (h : Turns up phase tick phase') (flips : tick.flips = true) :
    phase = .woken ∧ phase' = .shown := by
  cases h with
  | flip => exact ⟨rfl, rfl⟩
  | plain _ plain => simp [plain.aside.2.1] at flips
  | _ => cases flips

theorem of_lowers (h : Turns up phase tick phase') (low : lowers tick = true) :
    phase = .shown ∧ phase' = .rendering := by
  cases h with
  | lower => exact ⟨rfl, rfl⟩
  | plain _ plain => simp [plain.aside.2.2.2.1] at low
  | _ => cases low

theorem of_poll {answer : Bool} (h : Turns up phase (.access ⟨.getFence, answer⟩) phase') :
    phase = .drawn ∧ answer = up ∧ phase' = if answer then .woken else .drawn := by
  cases h with
  | refuse down => exact ⟨rfl, down.symm, rfl⟩
  | accept raised => exact ⟨rfl, raised.symm, rfl⟩
  | plain _ plain => exact plain.elim

theorem not_raises (h : Turns up phase tick phase') : raises tick = false := by
  cases h with
  | plain _ plain => exact plain.aside.2.2.2.2
  | _ => rfl

/-- What is shown stays shown until the flag is lowered. -/
theorem lowers_of_shown (h : Turns up .shown tick phase') (ne : phase' ≠ .shown) :
    lowers tick = true := by
  cases h with
  | lower => rfl
  | vblank | plain => exact absurd rfl ne

/-- The flag has been seen in the last two phases, and in no other one. -/
theorem awake_iff (h : Turns up phase tick phase') (past : List Tick)
    (before : awake past = true ↔ phase = .woken ∨ phase = .shown) :
    awake (past ++ [tick]) = true ↔ phase' = .woken ∨ phase' = .shown := by
  rw [awake_concat]
  cases h with
  | vblank => simpa [Tick.wakes, lowers] using before
  | @plain event _ plain =>
    obtain ⟨-, -, polls, low, -⟩ := plain.aside
    have wakes : (Tick.access event).wakes = false := by
      by_contra h
      rw [Tick.polls_of_wakes (by simpa using h)] at polls
      cases polls
    simpa [wakes, low] using before
  | draw | refuse | flip => simpa [Tick.wakes, lowers] using before
  | accept => simp [Tick.wakes]
  | lower => simp [Tick.wakes, lowers]

end Turns

/-! ### Histories of frames -/

/-- A past that ends where frames begin: the flag has been lowered once, nothing but the interrupt
has ever raised it, and nobody has looked at it. -/
structure Initialized (past : List Tick) : Prop where
  once : past.countP lowers = 1
  quiet : ∀ tick ∈ past, raises tick = false
  unseen : ∀ tick ∈ past, tick.polls = false

namespace Initialized

variable {past : List Tick}

theorem lowered (h : Initialized past) : ∃ tick ∈ past, lowers tick = true := by
  have positive : 0 < past.countP lowers := by
    rw [h.once]
    exact Nat.zero_lt_one
  exact List.countP_pos_iff.1 positive

theorem not_awake (h : Initialized past) : awake past = false := by
  have unseen := h.unseen
  clear h
  induction past using List.reverseRecOn with
  | nil => rfl
  | append_singleton past last ih =>
    have wakes : last.wakes = false := by
      by_contra h
      have polls := unseen last List.mem_concat_self
      rw [Tick.polls_of_wakes (by simpa using h)] at polls
      cases polls
    rw [awake_concat, wakes, ih fun tick member => unseen tick (List.mem_append_left _ member)]
    simp

end Initialized

/-- A part that ends with a given element ends in the first of two lists or in the second one. -/
theorem prefix_append_cases {α : Type} {part first second : List α} {last : α}
    (h : part ++ [last] <+: first ++ second) :
    part ++ [last] <+: first ∨ ∃ rest, part = first ++ rest ∧ rest ++ [last] <+: second := by
  rcases List.prefix_or_prefix_of_prefix h (List.prefix_append first second) with inside | beyond
  · exact .inl inside
  · rcases List.prefix_concat_iff.1 beyond with rfl | ⟨rest, rfl⟩
    · exact .inl (List.prefix_refl _)
    · rw [List.append_assoc, List.prefix_append_right_inj] at h
      exact .inr ⟨rest, rfl, h⟩

namespace Rendered

variable {start : Controls} {past ticks front : List Tick} {phase : Phase} {last : Tick}

/-- The last tick of a history, and the history in front of it. -/
theorem of_concat (h : Rendered start past phase (ticks ++ [last])) :
    ∃ before, Rendered start past before ticks ∧
      Turns (start.behind (past ++ ticks)).flag before last phase := by
  generalize whole : ticks ++ [last] = all at h
  cases h with
  | nil => simp at whole
  | tick h turns =>
    obtain ⟨rfl, same⟩ := List.append_inj' whole rfl
    cases same
    exact ⟨_, h, turns⟩

/-- Every part of a history from its beginning on is one. -/
theorem of_prefix (h : Rendered start past phase ticks) (part : front <+: ticks) :
    ∃ before, Rendered start past before front := by
  induction h with
  | nil =>
    rw [List.prefix_nil] at part
    subst part
    exact ⟨_, .nil⟩
  | tick h turns ih =>
    rcases List.prefix_concat_iff.1 part with rfl | part
    · exact ⟨_, .tick h turns⟩
    · exact ih part

/-- What was the case when a tick came. -/
theorem at_tick {back : List Tick} (h : Rendered start past phase (front ++ last :: back)) :
    ∃ before behind, Rendered start past before front ∧
      Turns (start.behind (past ++ front)).flag before last behind ∧
      Rendered start past behind (front ++ [last]) := by
  have part : front ++ [last] <+: front ++ last :: back := ⟨back, by simp⟩
  obtain ⟨behind, h⟩ := h.of_prefix part
  obtain ⟨before, h', turns⟩ := h.of_concat
  exact ⟨before, behind, h', turns, h⟩

theorem not_raises (h : Rendered start past phase ticks) : ∀ tick ∈ ticks, raises tick = false := by
  induction h with
  | nil => simp
  | tick _ turns ih =>
    simp only [List.mem_append, List.mem_singleton]
    rintro tick (member | rfl)
    · exact ih tick member
    · exact turns.not_raises

section

variable (initialized : Initialized past)

include initialized

/-- Nothing but the interrupt ever raises the flag. -/
theorem quiet (h : Rendered start past phase ticks) :
    ∀ tick ∈ past ++ ticks, raises tick = false := by
  intro tick member
  rcases List.mem_append.1 member with member | member
  · exact initialized.quiet tick member
  · exact h.not_raises tick member

/-- The flag in the course of frames. -/
theorem flag_iff (h : Rendered start past phase ticks) :
    (start.behind (past ++ ticks)).flag = true ↔ .vblank ∈ sinceLowered (past ++ ticks) := by
  obtain ⟨tick, member, low⟩ := initialized.lowered
  exact Timeline.flag_iff start ⟨tick, List.mem_append_left _ member, low⟩ (h.quiet initialized)

theorem awake_iff (h : Rendered start past phase ticks) :
    awake (past ++ ticks) = true ↔ phase = .woken ∨ phase = .shown := by
  induction h with
  | nil => simp [initialized.not_awake]
  | tick h turns ih =>
    rw [← List.append_assoc]
    exact turns.awake_iff _ ih

/-- Behind a wait a vertical blank has come since the flag was lowered. -/
theorem vblank_of_woken (h : Rendered start past .woken ticks) :
    .vblank ∈ sinceLowered (past ++ ticks) := by
  -- only a look that finds the flag up leads here
  generalize eq : Phase.woken = phase at h
  induction h with
  | nil => cases eq
  | @tick before _ ticks last h turns ih =>
    subst eq
    rw [← List.append_assoc, sinceLowered_concat]
    cases turns with
    | vblank => simp [lowers]
    | plain _ plain => simp [plain.aside.2.2.2.1, ih rfl]
    | accept raised => simp [lowers, (h.flag_iff initialized).1 raised]

/-- Every flip so far has had a vertical blank of its own, and before the next flip those since the
flag was lowered are still to be had. -/
theorem flips_add_le (h : Rendered start past phase ticks) :
    ticks.countP Tick.flips +
        (if phase = .shown then 0 else (sinceLowered (past ++ ticks)).countP Tick.isVblank) ≤
      (sinceLowered past ++ ticks).countP Tick.isVblank := by
  induction h with
  | nil => simp
  | @tick before phase ticks last h turns ih =>
    rw [← List.append_assoc, sinceLowered_concat]
    simp only [List.countP_append, List.countP_singleton] at ih ⊢
    -- a vertical blank adds one on both sides, and a flip spends what is to be had
    cases turns with
    | vblank =>
      -- but while a target is shown, one more is not to be had: the flag is still to be lowered
      by_cases shown : before = .shown
      · simp [shown, Tick.flips, Tick.isVblank] at ih ⊢
        omega
      · simp [shown, Tick.flips, Tick.isVblank, lowers] at ih ⊢
        omega
    | plain _ plain =>
      obtain ⟨-, flips, -, low, -⟩ := plain.aside
      by_cases shown : before = .shown
      · simpa [shown, flips, Tick.isVblank] using ih
      · simpa [shown, flips, low, Tick.isVblank] using ih
    | draw => simpa [Tick.flips, Tick.isVblank, lowers] using ih
    | refuse => simpa [Tick.flips, Tick.isVblank, lowers] using ih
    | accept => simpa [Tick.flips, Tick.isVblank, lowers] using ih
    | flip =>
      have own : 0 < (sinceLowered (past ++ ticks)).countP Tick.isVblank :=
        List.countP_pos_iff.2 ⟨.vblank, h.vblank_of_woken initialized, rfl⟩
      simp [Tick.flips, Tick.isVblank] at ih ⊢
      omega
    | lower => simpa [Tick.flips, Tick.isVblank, lowers] using ih

/-- The flag is lowered for the second time, and ever after, only when it has been seen. -/
theorem awake_of_lowers (h : Rendered start past phase ticks) (part : front ++ [last] <+: past ++ ticks)
    (low : lowers last = true) (lowered : ∃ tick ∈ front, lowers tick = true) :
    awake front = true := by
  rcases prefix_append_cases part with early | ⟨before, rfl, inside⟩
  · -- in the past it is lowered only once
    have count := early.sublist.countP_le (p := lowers)
    have once := List.countP_pos_iff.2 lowered
    rw [List.countP_append, List.countP_singleton, if_pos low, initialized.once] at count
    omega
  · obtain ⟨_, h⟩ := h.of_prefix inside
    obtain ⟨earlier, h, turns⟩ := h.of_concat
    exact (h.awake_iff initialized).2 (.inr (turns.of_lowers low).1)

/-- A look at the flag tells the truth, and is only taken while the flag has not been seen. -/
theorem of_poll (h : Rendered start past phase ticks) {answer : Bool}
    (part : front ++ [.access ⟨.getFence, answer⟩] <+: past ++ ticks) :
    answer = (start.behind front).flag ∧ awake front = false := by
  rcases prefix_append_cases part with early | ⟨before, rfl, inside⟩
  · have unseen := initialized.unseen _ (early.subset List.mem_concat_self)
    cases unseen
  · obtain ⟨_, h⟩ := h.of_prefix inside
    obtain ⟨earlier, h, turns⟩ := h.of_concat
    obtain ⟨rfl, same, -⟩ := turns.of_poll
    refine ⟨same, ?_⟩
    by_contra awake
    simpa using (h.awake_iff initialized).1 (by simpa using awake)

/-- **A vertical blank is not lost** while nobody has seen the flag: until the next look at it the
flag stays up, since it is only lowered after such a look. -/
theorem flag_behind_vblank (h : Rendered start past phase ticks) {middle : List Tick}
    (part : front ++ .vblank :: middle <+: past ++ ticks)
    (lowered : ∃ tick ∈ front, lowers tick = true) (asleep : awake front = false)
    (unseen : ∀ tick ∈ middle, tick.polls = false) :
    (start.behind (front ++ .vblank :: middle)).flag = true ∧
      awake (front ++ .vblank :: middle) = false := by
  -- over the ticks behind the vertical blank
  induction middle using List.reverseRecOn with
  | nil => simp [Controls.tick, Tick.wakes, lowers, asleep]
  | append_singleton middle newest ih =>
    rw [← List.cons_append, ← List.append_assoc] at part ⊢
    have earlier : front ++ .vblank :: middle <+: past ++ ticks :=
      (List.prefix_append _ _).trans part
    obtain ⟨flag, asleep⟩ := ih earlier fun tick member => unseen tick (List.mem_append_left _ member)
    have low : lowers newest = false := by
      by_contra low
      obtain ⟨tick, member, low'⟩ := lowered
      have awake := h.awake_of_lowers initialized part (by simpa using low)
        ⟨tick, List.mem_append_left _ member, low'⟩
      rw [asleep] at awake
      cases awake
    have wakes : newest.wakes = false := by
      by_contra wakes
      have polls := unseen newest List.mem_concat_self
      rw [Tick.polls_of_wakes (by simpa using wakes)] at polls
      cases polls
    rw [Controls.behind_concat, awake_concat, wakes, low, asleep]
    refine ⟨?_, rfl⟩
    by_cases blank : newest = .vblank
    · subst blank
      rfl
    · rw [flag_of_neither _ blank low (h.quiet initialized _ (part.subset List.mem_concat_self)), flag]

end

/-- Between a flip and the next phase the flag is lowered. -/
theorem lowered_behind_flip (h : Rendered start past phase ticks) (ne : phase ≠ .shown)
    {middle : List Tick} (flips : last.flips = true) (eq : ticks = front ++ last :: middle) :
    ∃ tick ∈ middle, lowers tick = true := by
  induction h generalizing middle with
  | nil => simp at eq
  | @tick before phase ticks newest h turns ih =>
    rcases List.eq_nil_or_concat middle with rfl | ⟨middle, same, rfl⟩
    · -- the flip is the newest tick, so the target is shown now
      obtain ⟨rfl, same⟩ := List.append_inj' eq rfl
      cases same
      exact absurd (turns.of_flips flips).2 ne
    · rw [List.concat_eq_append, ← List.cons_append, ← List.append_assoc] at eq
      obtain ⟨rfl, same⟩ := List.append_inj' eq rfl
      cases same
      by_cases shown : before = .shown
      · subst shown
        exact ⟨newest, by simp, turns.lowers_of_shown ne⟩
      · obtain ⟨tick, member, low⟩ := ih shown rfl
        exact ⟨tick, by simp [member], low⟩

/-- Between two flips the flag is lowered, and then a vertical blank comes. -/
theorem blank_between_flips (initialized : Initialized past) (h : Rendered start past phase ticks)
    {flip flip' : Tick} {middle back : List Tick} (eq : ticks = front ++ flip :: middle ++ flip' :: back)
    (flips : flip.flips = true) (flips' : flip'.flips = true) :
    ∃ before low after, middle = before ++ low :: after ∧ lowers low = true ∧ .vblank ∈ after := by
  subst eq
  obtain ⟨_, _, h, turns, -⟩ := h.at_tick
  obtain ⟨rfl, -⟩ := turns.of_flips flips'
  obtain ⟨low, member, lowered⟩ := h.lowered_behind_flip nofun flips rfl
  obtain ⟨before, after, rfl⟩ := List.append_of_mem member
  have blank := h.vblank_of_woken initialized
  have split : past ++ (front ++ flip :: (before ++ low :: after)) =
      past ++ (front ++ flip :: before) ++ low :: after := by simp
  rw [split, sinceLowered_append_cons _ lowered] at blank
  exact ⟨before, low, after, rfl, lowered, mem_of_mem_sinceLowered blank⟩

end Rendered

end ColdBoot
