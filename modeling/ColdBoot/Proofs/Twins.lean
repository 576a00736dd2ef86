import ColdBoot.Proofs.Emission
import ColdBoot.Proofs.Mirrors

/-! # With the queue and without

Whether the queue of the signal processor's engine is in use decides which status register is polled
in front of a transfer, and nothing else. The two programs are **`Program.Twins`**: they make the
same accesses in the same order, but for polls, and neither looks at what its polls were answered
further than for the end of a wait.

* **`Command.Polls`** – what is polled with the queue in use, and what instead without it;
* **`Likewise`** – accesses that differ in what is polled, and how often;
* **`Program.Twins`** – the relation between the two programs, with one rule for each construct;
* **`Video.Call`**, **`Video.lifetime`** – what is done with a video output, with bringing it up
  again among it;
* **`Video.twins_lifetime`** – with the queue in use and without, these are twins. -/

namespace ColdBoot

/-! ### Polls -/

namespace Command

/-- A look at a device, the cause word or the vblank flag. It changes nothing. -/
def polls : Command → Bool
  | .read _ | .getCause | .getFence => true
  | _ => false

/-- What is polled with the queue in use, and what instead without it. -/
inductive Polls : Command → Command → Prop where
  | idle : Polls (.read SpRegister.dmaBusy) (.read SpRegister.dmaBusy)
  | slot : Polls (.read SpRegister.dmaFull) (.read SpRegister.dmaBusy)
  | fence : Polls .getFence .getFence

variable {command command' : Command}

theorem Polls.left (h : command.Polls command') : command.polls = true := by
  cases h <;> rfl

theorem Polls.right (h : command.Polls command') : command'.polls = true := by
  cases h <;> rfl

theorem IsStatus.polls_eq (h : command.IsStatus) : command.polls = false := by
  cases command with
  | getStatus | setStatus => rfl
  | _ => exact h.elim

theorem IsCache.polls_eq (h : command.IsCache) : command.polls = false := by
  cases command with
  | cache => rfl
  | _ => exact h.elim

theorem WritesTo.polls_eq {block : RegisterBlock} (h : command.WritesTo block) :
    command.polls = false := by
  cases command with
  | write => rfl
  | _ => exact h.elim

end Command

/-- Accesses with the queue in use and without it that differ only in what is polled, and how
often. -/
inductive Likewise : List Event → List Event → Prop where
  | nil : Likewise [] []
  | access {events events' : List Event} (event : Event) (plain : event.command.polls = false)
      (rest : Likewise events events') : Likewise (event :: events) (event :: events')
  | polls {events events' : List Event} {command command' : Command} (h : command.Polls command')
      {answers : List command.Answer} {answers' : List command'.Answer} (answered : answers ≠ [])
      (answered' : answers' ≠ []) (rest : Likewise events events') :
      Likewise (answers.map (Event.mk command) ++ events)
        (answers'.map (Event.mk command') ++ events')

/-- The same accesses in front of either. -/
theorem Likewise.behind {events events' : List Event} (h : Likewise events events')
    {asked : List Event} (plain : ∀ event ∈ asked, event.command.polls = false) :
    Likewise (asked ++ events) (asked ++ events') := by
  induction asked with
  | nil => exact h
  | cons event asked ih =>
    rw [List.forall_mem_cons] at plain
    exact .access event plain.1 (ih plain.2)

/-- The accesses that are no polls. -/
def besidesPolls (events : List Event) : List Event := events.filter (!·.command.polls)

theorem besidesPolls_append_polls {command : Command} (polls : command.polls = true)
    (answers : List command.Answer) (events : List Event) :
    besidesPolls (answers.map (Event.mk command) ++ events) = besidesPolls events := by
  have dropped : besidesPolls (answers.map (Event.mk command)) = [] := by
    simp [besidesPolls, polls]
  rw [besidesPolls, List.filter_append]
  exact congrArg (· ++ besidesPolls events) dropped

/-- Such accesses are the same but for polls. -/
theorem Likewise.besidesPolls_eq {events events' : List Event} (h : Likewise events events') :
    besidesPolls events = besidesPolls events' := by
  induction h with
  | nil => rfl
  | access event plain _ ih =>
    simp only [besidesPolls, List.filter_cons] at ih ⊢
    rw [ih]
  | polls h _ _ _ ih =>
    rw [besidesPolls_append_polls h.left, besidesPolls_append_polls h.right, ih]

/-! ### Twins -/

namespace Program

variable {α β γ δ : Type}

/-- A program with the queue in use and one without it that differ in their polls only. What they
return is related. -/
inductive Twins (related : α → β → Prop) : Program α → Program β → Prop where
  | done {value : α} {value' : β} (h : related value value') :
      Twins related (.done value) (.done value')
  | stop (reason : Stop) : Twins related (.stop reason) (.stop reason)
  | step {command : Command} {next : command.Answer → Program α}
      {next' : command.Answer → Program β} (plain : command.polls = false)
      (rest : ∀ answer, Twins related (next answer) (next' answer)) :
      Twins related (.step command next) (.step command next')
  | await {command : Command} {accepted : command.Answer → Bool}
      {next : command.Answer → Program α} {next' : command.Answer → Program β}
      (plain : command.polls = false)
      (rest : ∀ answer, Twins related (next answer) (next' answer)) :
      Twins related (.await command accepted next) (.await command accepted next')
  /-- A poll on either side, answered in any way. -/
  | look {command command' : Command} {next : command.Answer → Program α}
      {next' : command'.Answer → Program β} (polls : command.Polls command')
      (rest : ∀ answer answer', Twins related (next answer) (next' answer')) :
      Twins related (.step command next) (.step command' next')
  /-- Polls on either side, as many as either of them takes. -/
  | wait {command command' : Command} {accepted : command.Answer → Bool}
      {accepted' : command'.Answer → Bool} {next : command.Answer → Program α}
      {next' : command'.Answer → Program β} (polls : command.Polls command')
      (rest : ∀ answer answer', Twins related (next answer) (next' answer')) :
      Twins related (.await command accepted next) (.await command' accepted' next')

/-- Twins that return the same, if they return. -/
abbrev SameTwins (program program' : Program α) : Prop := Twins Eq program program'

/-- Twins whose values nobody looks at. -/
abbrev AnyTwins (program : Program α) (program' : Program β) : Prop :=
  Twins (fun _ _ => True) program program'

namespace Twins

variable {related : α → β → Prop} {related' : γ → δ → Prop}

/-- Sequences of twins are twins. -/
theorem bind {program : Program α} {program' : Program β} {f : α → Program γ} {f' : β → Program δ}
    (h : Twins related program program')
    (rest : ∀ {value value'}, related value value' → Twins related' (f value) (f' value')) :
    Twins related' (program >>= f) (program' >>= f') := by
  induction h with
  | done member => exact rest member
  | stop reason => exact .stop reason
  | step plain _ ih => exact .step plain ih
  | await plain _ ih => exact .await plain ih
  | look polls _ ih => exact .look polls ih
  | wait polls _ ih => exact .wait polls ih

/-- Less may be known of the values. -/
theorem mono {related' : α → β → Prop} {program : Program α} {program' : Program β}
    (h : Twins related program program')
    (weaker : ∀ {value value'}, related value value' → related' value value') :
    Twins related' program program' := by
  induction h with
  | done member => exact .done (weaker member)
  | stop reason => exact .stop reason
  | step plain _ ih => exact .step plain ih
  | await plain _ ih => exact .await plain ih
  | look polls _ ih => exact .look polls ih
  | wait polls _ ih => exact .wait polls ih

/-- A program without polls is its own twin. -/
theorem refl {program : Program α} (h : program.Accesses fun command => command.polls = false) :
    program.SameTwins program := by
  induction h with
  | done value => exact .done rfl
  | stop reason => exact .stop reason
  | step plain _ ih => exact .step plain ih
  | await plain _ ih => exact .await plain ih

/-- The same part in front of twins. -/
theorem behind {program : Program α} {f : α → Program γ} {f' : α → Program δ}
    (h : program.Accesses fun command => command.polls = false)
    (rest : ∀ value, Twins related' (f value) (f' value)) :
    Twins related' (program >>= f) (program >>= f') := by
  apply (refl h).bind
  rintro value _ rfl
  exact rest value

/-- The same list of items on both sides. -/
theorem forM {ι : Type} {f f' : ι → Program PUnit} (items : List ι)
    (h : ∀ item, AnyTwins (f item) (f' item)) : AnyTwins (items.forM f) (items.forM f') := by
  induction items with
  | nil => exact .done trivial
  | cons item rest ih => exact (h item).bind fun _ => ih

end Twins

end Program

open Program

/-! ### Two executions -/

/-- **Twins agree.** From states that are the same, twins that are safe return the same and differ
in their polls only, and what they leave is the same. -/
theorem Program.Twins.agree {σ α β : Type} {hw : Hardware σ} {safe : σ → Command → Prop}
    {same : σ → σ → Prop} (mirrors : hw.Mirrors hw (·.polls = false) safe same)
    (still : ∀ ⦃s command answer t⦄, command.polls = true → hw.responds s command answer t → t = s)
    {related : α → β → Prop} {program : Program α} {program' : Program β}
    (twins : Twins related program program') {s s' t t' : σ} {value : α} {value' : β}
    {moments moments' : List (Moment σ)} (start : same s s')
    (safely : Hardware.AllSafe safe moments) (safely' : Hardware.AllSafe safe moments')
    (first : hw.Execution program s moments (.returned value) t)
    (second : hw.Execution program' s' moments' (.returned value') t') :
    related value value' ∧ Likewise (moments.map Moment.event) (moments'.map Moment.event) ∧
      same t t' := by
  have complete {γ : Type} (value : γ) : Ending.returned value ≠ .cut := nofun
  induction twins generalizing s s' moments moments' with
  | done member =>
    obtain ⟨rfl, rfl, moved⟩ := first.of_done
    obtain ⟨rfl, rfl, moved'⟩ := second.of_done
    exact ⟨member, .nil, mirrors.moves start moved moved'⟩
  | stop reason => rcases first.of_stop with eq | eq <;> cases eq
  | step plain _ ih =>
    obtain ⟨met, answer, _, _, rfl, moved, responded, further⟩ := first.of_step
    obtain ⟨met', answer', _, _, rfl, moved', responded', further'⟩ := second.of_step
    rw [Hardware.allSafe_cons] at safely safely'
    have there := mirrors.moves start moved moved'
    obtain ⟨rfl, behind⟩ := mirrors.responds plain there safely.1 safely'.1 responded responded'
    obtain ⟨values, likewise, final⟩ := ih answer behind safely.2 safely'.2 further further'
    exact ⟨values, .access _ plain likewise, final⟩
  | await plain _ ih =>
    obtain ⟨asked, answer, _, _, rest, rest', plainly, eq, suffix, eq', suffix', there, further,
      further'⟩ := mirrors.exists_of_await plain start safely safely' (complete value)
        (complete value') first second
    obtain ⟨values, likewise, final⟩ := ih answer there (safely.of_suffix suffix)
      (safely'.of_suffix suffix') further further'
    rw [eq, eq']
    exact ⟨values, likewise.behind plainly, final⟩
  | look polls _ ih =>
    obtain ⟨met, answer, behind, _, rfl, moved, responded, further⟩ := first.of_step
    obtain ⟨met', answer', behind', _, rfl, moved', responded', further'⟩ := second.of_step
    obtain rfl : behind = met := still polls.left responded
    obtain rfl : behind' = met' := still polls.right responded'
    rw [Hardware.allSafe_cons] at safely safely'
    have there := mirrors.moves start moved moved'
    obtain ⟨values, likewise, final⟩ := ih answer answer' there safely.2 safely'.2 further further'
    refine ⟨values, ?_, final⟩
    exact .polls polls (List.cons_ne_nil answer []) (List.cons_ne_nil answer' []) likewise
  | wait polls _ ih =>
    obtain ⟨answers, answer, _, rest, answered, -, suffix, eq, moved, further⟩ :=
      first.exists_of_wait (fun _ _ _ => still polls.left) (complete value)
    obtain ⟨answers', answer', _, rest', answered', -, suffix', eq', moved', further'⟩ :=
      second.exists_of_wait (fun _ _ _ => still polls.right) (complete value')
    have there := mirrors.moves start moved moved'
    obtain ⟨values, likewise, final⟩ := ih answer answer' there (safely.of_suffix suffix)
      (safely'.of_suffix suffix') further further'
    rw [eq, eq']
    exact ⟨values, .polls polls answered answered' likewise, final⟩

/-! ### Waits -/

theorem Idle.twins_spin {command command' : Command} (polls : command.Polls command')
    (accepted : command.Answer → Bool) (accepted' : command'.Answer → Bool) :
    AnyTwins (Idle.spin command accepted) (Idle.spin command' accepted') := by
  apply Twins.behind (Idle.accesses_enter.mono fun _ h => h.polls_eq)
  intro _
  have looks : AnyTwins (repeatUntil command accepted) (repeatUntil command' accepted') :=
    .wait polls fun _ _ => .done trivial
  apply looks.bind
  rintro _ _ -
  apply Twins.behind (Idle.accesses_leave.mono fun _ h => h.polls_eq)
  exact fun _ => .done trivial

theorem Sp.twins_waitIdle : AnyTwins engine.waitIdle engine.waitIdle :=
  (Idle.twins_spin .idle _ _).bind fun _ => .done trivial

/-- A program's choices, with the queue in use or not. -/
def Config.withQueue (config : Config) (dmaQueue : Bool) : Config := { config with dmaQueue }

/-- **The one place where they differ.** A wait for the queue is a single wait in either case. -/
theorem Sp.twins_waitQueue (config : Config) :
    AnyTwins (engine.waitQueue (config.withQueue true))
      (engine.waitQueue (config.withQueue false)) := by
  show AnyTwins engine.waitSlot (engine.waitIdle >>= fun _ => pure ())
  rw [Engine.waitIdle, bind_assoc]
  exact (Idle.twins_spin .slot _ _).bind fun _ => .done trivial

theorem Sp.plain_start (descriptor : SpDescriptor) (direction : Direction) :
    (start descriptor direction).Accesses fun command => command.polls = false :=
  (writes_start descriptor direction).mono fun _ h => h.polls_eq

/-! ### The video output -/

namespace Video

theorem twins_setClearColor (video : Video) (color : Color) :
    AnyTwins (video.setClearColor color) (video.setClearColor color) := by
  apply Twins.behind (.perform (.fillStaging _ color) rfl)
  intro _
  apply Twins.behind ((Cpu.accesses_writeBackRange _ _).mono fun _ h => h.polls_eq)
  intro _
  apply Sp.twins_waitIdle.bind
  rintro _ _ -
  apply Twins.behind (accesses_ofExcept _)
  intro descriptor
  apply Twins.behind (Sp.plain_start descriptor .fromRdram)
  intro _
  exact Sp.twins_waitIdle.bind fun _ => .done trivial

variable (config : Config)

theorem twins_clearChunk (base : PhysAddr) (chunk : ClearChunk) :
    AnyTwins (clearChunk (config.withQueue true) base chunk)
      (clearChunk (config.withQueue false) base chunk) := by
  apply (Sp.twins_waitQueue config).bind
  rintro _ _ -
  apply Twins.behind (accesses_ofExcept _)
  intro descriptor
  exact (Twins.refl (Sp.plain_start descriptor .toRdram)).mono fun _ => trivial

theorem twins_clearFramebuffer (video : Video) (index : Fin 2) :
    AnyTwins (clearFramebuffer (config.withQueue true) video index)
      (clearFramebuffer (config.withQueue false) video index) := by
  apply Twins.behind ((Cpu.accesses_invalidateDataRange _ _).mono fun _ h => h.polls_eq)
  intro _
  apply (Twins.forM clearChunks (twins_clearChunk config _)).bind
  rintro _ _ -
  exact Sp.twins_waitIdle.bind fun _ => .done trivial

theorem twins_bringUp (memory : FrameMemory) (platform : Platform) (color : Color) :
    SameTwins (bringUp (config.withQueue true) memory platform color)
      (bringUp (config.withQueue false) memory platform color) := by
  apply Twins.behind (.write rfl)
  intro _
  apply Twins.behind (.perform (.setFence false) rfl)
  intro _
  apply (twins_setClearColor _ color).bind
  rintro _ _ -
  apply (twins_clearFramebuffer config _ 0).bind
  rintro _ _ -
  apply (twins_clearFramebuffer config _ 1).bind
  rintro _ _ -
  apply Twins.behind ((LogRecord.writes_emit config.logFilter _).mono fun _ h => h.polls_eq)
  intro _
  apply Twins.behind ((writes_writeTiming _ _).mono fun _ h => h.polls_eq)
  exact fun _ => .done rfl

theorem twins_operation (operation : Operation) (video : Video) :
    SameTwins (operation.program (config.withQueue true) video)
      (operation.program (config.withQueue false) video) := by
  cases operation with
  | clear => exact (twins_clearFramebuffer config video _).bind fun _ => .done rfl
  | draw function =>
    apply Twins.behind (.perform (.loadFrame video.target) rfl)
    intro before
    apply Twins.behind (.perform (.storePixels video.target (function before)) rfl)
    exact fun _ => .done rfl
  | setColor color => exact (twins_setClearColor video color).bind fun _ => .done rfl
  | swap =>
    apply Twins.behind ((Cpu.accesses_writeBackRange _ _).mono fun _ h => h.polls_eq)
    intro _
    apply Twins.behind (.write rfl)
    exact fun _ => .done rfl
  | wait =>
    have waits : AnyTwins vblankWait vblankWait :=
      (Idle.twins_spin .fence _ _).bind fun _ => .done trivial
    exact waits.bind fun _ => .done rfl
  | finish =>
    apply Twins.behind (.perform (.setFence false) rfl)
    exact fun _ => .done rfl
  | look => exact .look .fence fun _ _ => .done rfl
  | signal =>
    have marks : Interrupt.vblank.Accesses fun command => command.polls = false :=
      .bind (.perform (.setFence true) rfl) fun _ => .write rfl
    exact Twins.behind marks fun _ => .done rfl

/-! ### The life of a video output -/

/-- What can be asked of a video output: an operation, or to be brought up again. -/
inductive Call where
  | restart (platform : Platform) (color : Color)
  | operate (operation : Operation)

/-- A call as a program. -/
def Call.program (config : Config) (memory : FrameMemory) (video : Video) : Call → Program Video
  | .restart platform color => bringUp config memory platform color
  | .operate operation => operation.program config video

/-- Calls, one behind the other. -/
def callAll (config : Config) (memory : FrameMemory) : List Call → Video → Program Video
  | [], video => return video
  | call :: rest, video => do
      let video ← call.program config memory video
      callAll config memory rest video

/-- Bring the video output up and go on with any calls. -/
def lifetime (config : Config) (memory : FrameMemory) (platform : Platform) (color : Color)
    (calls : List Call) : Program Video := do
  let video ← bringUp config memory platform color
  callAll config memory calls video

/-- **With the queue and without**, whatever is done with a video output differs in its polls
only. -/
theorem twins_lifetime (memory : FrameMemory) (platform : Platform) (color : Color)
    (calls : List Call) :
    SameTwins (lifetime (config.withQueue true) memory platform color calls)
      (lifetime (config.withQueue false) memory platform color calls) := by
  have all (video : Video) : SameTwins (callAll (config.withQueue true) memory calls video)
      (callAll (config.withQueue false) memory calls video) := by
    induction calls generalizing video with
    | nil => exact .done rfl
    | cons call rest ih =>
      have first : SameTwins (call.program (config.withQueue true) memory video)
          (call.program (config.withQueue false) memory video) := by
        cases call with
        | restart platform color => exact twins_bringUp config memory platform color
        | operate operation => exact twins_operation config operation video
      apply first.bind
      rintro video _ rfl
      exact ih video
  apply (twins_bringUp config memory platform color).bind
  rintro video _ rfl
  exact all video

end Video

end ColdBoot
