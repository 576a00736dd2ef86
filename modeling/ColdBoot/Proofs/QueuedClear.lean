import ColdBoot.Proofs.FrameContents
import ColdBoot.Proofs.QueueRoom
import ColdBoot.Proofs.Rig

/-! # Clearing with the queue and without

With its queue in use the engine is kept busy while the next transfer is prepared, and without it
every transfer is waited for. Neither is seen from outside: whatever is done with a video output,
and whenever the engine carries its transfers out in either case, the same is done to all devices,
and the same is left behind. What is not waited for, with the queue or without, is a transfer to the
staging page that somebody else has started before.

* **`Video.lifetime_tidy`** – nothing that is done with a video output races the engine;
* **`Video.queue_makes_no_difference`** – with the queue and without;
* **`Video.leftover_makes_a_difference`** – with a page that is still to be copied to the staging
  page. -/

namespace ColdBoot

open Hardware Program

/-! ### Nothing races the engine -/

namespace Rig

/-- No byte that a command uses is still to be copied. -/
def apartGuard : Guard Rig where
  access s command := ∀ a, command.Uses a → ¬ s.board.Touches a
  state _ := True

/-- No outstanding transfer has to do with the staging page. -/
def StagingFree (memory : FrameMemory) (s : Rig) : Prop :=
  ∀ a, memory.InStaging a → ¬ s.board.Touches a

variable {memory : FrameMemory}

/-- None has to do with anything when there is none. -/
theorem not_touches_of_idle {s : Rig} (idle : AtMost outstanding 0 s) (a : Nat) :
    ¬ s.board.Touches a :=
  Board.not_touches (List.length_eq_zero_iff.1 (Nat.le_zero.1 idle)) a

theorem sound_stagingFree (memory : FrameMemory) :
    hardware.Sound apartGuard (StagingFree memory) where
  stable _ _ moved free a inside touched :=
    free a inside ((Board.settled_of_moves moved.1).2 a touched)
  state _ _ := trivial

theorem keeps_stagingFree (memory : FrameMemory) :
    hardware.Keeps apartGuard Command.IsAside (StagingFree memory) where
  toSound := sound_stagingFree memory
  access _ _ aside _ a uses := absurd uses (aside.usesNothing a)
  responds := by
    intro s command answer t aside free responded a inside
    rw [Board.eq_of_isAside aside responded.1]
    exact free a inside

theorem sound_idle : hardware.Sound apartGuard (AtMost outstanding 0) where
  stable _ _ moved idle := Nat.le_trans (queueLaws.moves moved) idle
  state _ _ := trivial

/-- What uses no byte of RDRAM may be done at any time. -/
theorem ensures_of_usesNothing {α : Type} {program : Program α}
    (h : program.Accesses Command.UsesNothing) :
    hardware.Ensures apartGuard (fun _ => True) program fun _ _ => True := by
  have keeps : hardware.Keeps apartGuard Command.UsesNothing fun _ => True :=
    { stable := fun _ _ _ _ => trivial
      state := fun _ _ => trivial
      access := fun _ _ nothing _ a uses => absurd uses (nothing a)
      responds := fun _ _ _ _ _ _ _ => trivial }
  exact keeps.ensures h

end Rig

theorem Idle.usesNothing_spin {register : Register} (accepted : UInt32 → Bool) :
    (Idle.spin (.read register) accepted).Accesses Command.UsesNothing :=
  (Idle.accesses_spin (Command.isAside_read register)).mono fun _ h => h.usesNothing

namespace Sp

theorem usesNothing_waitIdle : engine.waitIdle.Accesses Command.UsesNothing :=
  (Idle.usesNothing_spin _).bind fun _ => .done _

theorem usesNothing_waitQueue (config : Config) :
    (engine.waitQueue config).Accesses Command.UsesNothing := by
  unfold Engine.waitQueue
  split
  · exact (Idle.usesNothing_spin _).bind fun _ => .done _
  · exact usesNothing_waitIdle.bind fun _ => .done _

theorem usesNothing_start (descriptor : SpDescriptor) (direction : Direction) :
    (start descriptor direction).Accesses Command.UsesNothing :=
  (writes_start descriptor direction).mono fun _ h => h.usesNothing

end Sp

namespace Video

variable {config : Config}

theorem usesNothing_clearFramebuffer (video : Video) (index : Fin 2) :
    (clearFramebuffer config video index).Accesses Command.UsesNothing := by
  apply Accesses.bind ((Cpu.accesses_invalidateDataRange _ _).mono fun _ h => h.usesNothing)
  intro _
  apply Accesses.bind
  · apply accesses_forM
    intro chunk _
    apply (Sp.usesNothing_waitQueue config).bind
    exact fun _ => (accesses_ofExcept _).bind fun _ => Sp.usesNothing_start _ _
  · exact fun _ => Sp.usesNothing_waitIdle.bind fun _ => .done ()

/-- The staging page is filled first, and nothing behind that uses RDRAM. -/
theorem setClearColor_keeps_apart (video : Video) (color : Color) :
    Rig.hardware.Ensures Rig.apartGuard (Rig.StagingFree video.memory)
      (video.setClearColor color) fun _ _ => True := by
  have filled : Rig.hardware.Ensures Rig.apartGuard (Rig.StagingFree video.memory)
      (Program.perform (.fillStaging video.memory.staging color)) fun _ _ => True :=
    .perform (Rig.sound_stagingFree _) (fun _ => ⟨fun _ _ _ _ => trivial, fun _ _ => trivial⟩)
      (fun _ free => free) fun _ _ _ _ _ => trivial
  apply filled.bind
  intro _
  apply Rig.ensures_of_usesNothing
  apply Accesses.bind ((Cpu.accesses_writeBackRange _ _).mono fun _ h => h.usesNothing)
  intro _
  apply Sp.usesNothing_waitIdle.bind
  intro _
  apply (accesses_ofExcept _).bind
  intro descriptor
  apply (Sp.usesNothing_start descriptor .fromRdram).bind
  exact fun _ => Sp.usesNothing_waitIdle.bind fun _ => .done ()

theorem bringUp_keeps_apart (memory : FrameMemory) (platform : Platform) (color : Color) :
    Rig.hardware.Ensures Rig.apartGuard (Rig.StagingFree memory)
      (bringUp config memory platform color) fun _ _ => True := by
  have aside := Rig.keeps_stagingFree memory
  refine .bind (aside.ensures (.write ⟨nofun, nofun⟩)) fun _ => ?_
  refine .bind (aside.ensures (.perform (.setFence false) trivial)) fun _ => ?_
  apply (setClearColor_keeps_apart ⟨memory, 0, platform⟩ color).bind
  intro _
  apply Rig.ensures_of_usesNothing
  apply (usesNothing_clearFramebuffer _ 0).bind
  intro _
  apply (usesNothing_clearFramebuffer _ 1).bind
  intro _
  apply Accesses.bind ((LogRecord.writes_emit _ _).mono fun _ h => h.usesNothing)
  intro _
  apply Accesses.bind ((writes_writeTiming _ _).mono fun _ h => h.usesNothing)
  exact fun _ => .done _

/-- An operation that uses RDRAM does so before it starts anything. -/
theorem operation_keeps_apart (operation : Operation) (video : Video) :
    Rig.hardware.Ensures Rig.apartGuard (AtMost Rig.outstanding 0)
      (operation.program config video) fun _ _ => True := by
  have nothing {program : Program Video} (h : program.Accesses Command.UsesNothing) :
      Rig.hardware.Ensures Rig.apartGuard (AtMost Rig.outstanding 0) program fun _ _ => True :=
    (Rig.ensures_of_usesNothing h).of_imp fun _ _ => trivial
  have quietly {operation : Operation} (h : operation.IsAside) :
      Rig.hardware.Ensures Rig.apartGuard (AtMost Rig.outstanding 0)
        (operation.program config video) fun _ _ => True := by
    obtain ⟨part, aside, eq⟩ := h.exists_part config video
    rw [eq]
    exact nothing ((aside.mono fun _ h => h.usesNothing).bind fun _ => .done video)
  cases operation with
  | clear => exact nothing ((usesNothing_clearFramebuffer video _).bind fun _ => .done video)
  | draw function =>
    have idle (command : Command) (other : ¬ command.IsStart) :
        Rig.hardware.Ensures Rig.apartGuard (AtMost Rig.outstanding 0) (Program.perform command)
          fun _ => AtMost Rig.outstanding 0 :=
      .perform Rig.sound_idle (fun _ => Rig.sound_idle)
        (fun _ idle a _ => Rig.not_touches_of_idle idle a)
        fun _ _ _ idle responded => Nat.le_trans (Rig.queueLaws.others other responded) idle
    apply (idle (.loadFrame video.target) id).bind
    intro before
    apply (idle (.storePixels video.target (function before)) id).bind
    exact fun _ => nothing (.done video)
  | setColor color =>
    have free : ∀ ⦃s⦄, AtMost Rig.outstanding 0 s → Rig.StagingFree video.memory s :=
      fun s idle a _ => Rig.not_touches_of_idle idle a
    apply ((setClearColor_keeps_apart video color).of_imp free).bind
    exact fun _ => Rig.ensures_of_usesNothing (.done video)
  | swap =>
    apply nothing
    apply Accesses.bind ((Cpu.accesses_writeBackRange _ _).mono fun _ h => h.usesNothing)
    intro _
    exact .bind (.write fun _ => id) fun _ => .done _
  | wait | finish | look | signal => exact quietly trivial

/-! ### Calls -/

section Lifetime

variable {σ : Type} {hw : Hardware σ} {guard : Guard σ} {idle : σ → Prop} {memory : FrameMemory}

/-- What is so when the video output has been brought up, and stays so behind every call, is so at
the end. -/
theorem ensures_lifetime {before : σ → Prop} (sound : hw.Sound guard idle) {platform : Platform}
    {color : Color} (start : hw.Ensures guard before (bringUp config memory platform color)
      fun _ => idle)
    (call : ∀ (call : Call) video,
      hw.Ensures guard idle (call.program config memory video) fun _ => idle)
    (calls : List Call) :
    hw.Ensures guard before (lifetime config memory platform color calls) fun _ => idle := by
  have all (video : Video) :
      hw.Ensures guard idle (callAll config memory calls video) fun _ => idle := by
    induction calls generalizing video with
    | nil => exact .done sound fun _ h => h
    | cons first rest ih => exact (call first video).bind ih
  exact start.bind all

end Lifetime

/-- Every call starts with an idle engine and leaves it idle. -/
theorem call_keeps_room {σ : Type} {hw : Hardware σ} {outstanding : σ → Nat}
    (laws : hw.QueueLaws outstanding) (memory : FrameMemory) (video : Video) (call : Call) :
    hw.Ensures (roomGuard config outstanding) (AtMost outstanding 0)
      (call.program config memory video) fun _ => AtMost outstanding 0 := by
  cases call with
  | restart platform color =>
    exact (bringUp_keeps_room laws memory platform color 0).mono (fun _ h => h) fun _ _ h => h.2
  | operate operation =>
    exact (operation_keeps_room laws operation video).mono (fun _ h => h) fun _ _ h => h.2

theorem call_keeps_apart (memory : FrameMemory) (video : Video) (call : Call) :
    Rig.hardware.Ensures Rig.apartGuard (AtMost Rig.outstanding 0)
      (call.program config memory video) fun _ _ => True := by
  cases call with
  | restart platform color =>
    exact (bringUp_keeps_apart memory platform color).of_imp
      fun s idle a _ => Rig.not_touches_of_idle idle a
  | operate operation => exact operation_keeps_apart operation video

/-- **Nothing races the engine.** Whatever is done with a video output, there is room for every
transfer that is started, no byte is used that is still to be copied, and the engine is idle at the
end. The transfers that are outstanding at first must not be about the staging page, which is filled
before they are waited for. -/
theorem lifetime_tidy {memory : FrameMemory} {platform : Platform} {color : Color}
    {calls : List Call} {s t : Rig} {moments : List (Moment Rig)} {ending : Ending Video}
    (free : s.StagingFree memory) (execution : Rig.hardware.Execution
      (lifetime config memory platform color calls) s moments ending t) :
    AllSafe (·.board.Tidy) moments ∧ ∀ video, ending = .returned video → t.outstanding = 0 := by
  have laws := Rig.queueLaws
  have brought (n : Nat) : Rig.hardware.Ensures (roomGuard config Rig.outstanding)
      (AtMost Rig.outstanding n) (bringUp config memory platform color)
      fun _ => AtMost Rig.outstanding 0 :=
    (bringUp_keeps_room laws memory platform color n).mono (fun _ h => h) fun _ _ h => h.2
  have room := ensures_lifetime (laws.sound_atMost config 0) (brought s.outstanding)
    (fun call video => call_keeps_room laws memory video call) calls
  -- what the other guard needs to know of the engine is a part of its own postcondition
  have apart := ensures_lifetime Rig.sound_idle
    (((bringUp_keeps_apart memory platform color).and (brought s.outstanding)).mono
      (fun _ h => h) fun _ _ h => h.2)
    (fun call video => ((call_keeps_apart memory video call).and
      (call_keeps_room laws memory video call)).mono (fun _ h => ⟨h, h⟩) fun _ _ h => h.2) calls
  obtain ⟨rooms, -, final⟩ := room (Nat.le_refl _) execution
  obtain ⟨aparts, -, -⟩ := apart ⟨free, Nat.le_refl _⟩ execution
  refine ⟨fun moment member => ⟨fun start => ?_, aparts moment member⟩, ?_⟩
  · have most : QueueLaws.room config ≤ 1 := by
      unfold QueueLaws.room
      split <;> decide
    cases command : moment.event.command with
    | write register value =>
      rw [command] at start
      have starts : register ∈ Sp.startRegisters := by
        rcases start with rfl | rfl <;> decide
      have := (rooms moment member register value command).1 starts
      show moment.state.outstanding < 2
      omega
    | _ => rw [command] at start; exact start.elim
  · exact fun video returned => Nat.le_zero.1 (final video returned)

/-! ### Nobody looks at a picture -/

/-- A call for a drawing. -/
def Call.Draws : Call → Prop
  | .operate (.draw _) => True
  | _ => False

theorem sightless_setClearColor (video : Video) (color : Color) :
    (video.setClearColor color).Accesses Command.IsSightless :=
  (paced_setClearColor video color).accesses (fun _ h => h.isSightless) fun _ h => h.isSightless

theorem sightless_clearFramebuffer (video : Video) (index : Fin 2) :
    (clearFramebuffer config video index).Accesses Command.IsSightless :=
  (paced_clearFramebuffer config video index).accesses (fun _ h => h.isSightless)
    fun _ h => h.isSightless

theorem sightless_bringUp (memory : FrameMemory) (platform : Platform) (color : Color) :
    (bringUp config memory platform color).Accesses Command.IsSightless := by
  apply Accesses.bind (.write nofun)
  intro _
  apply Accesses.bind (.perform (.setFence false) nofun)
  intro _
  apply (sightless_setClearColor _ color).bind
  intro _
  apply (sightless_clearFramebuffer _ 0).bind
  intro _
  apply (sightless_clearFramebuffer _ 1).bind
  intro _
  apply Accesses.bind ((LogRecord.writes_emit _ _).mono fun _ h => h.usesNothing.isSightless)
  intro _
  apply Accesses.bind ((writes_writeTiming _ _).mono fun _ h => h.usesNothing.isSightless)
  exact fun _ => .done _

theorem sightless_operation (video : Video) {operation : Operation}
    (h : ∀ function, operation ≠ .draw function) :
    (operation.program config video).Accesses Command.IsSightless := by
  have quietly {operation : Operation} (h : operation.IsAside) :
      (operation.program config video).Accesses Command.IsSightless := by
    obtain ⟨part, aside, eq⟩ := h.exists_part config video
    rw [eq]
    exact (aside.mono fun _ h => h.usesNothing.isSightless).bind fun _ => .done video
  cases operation with
  | clear => exact (sightless_clearFramebuffer video _).bind fun _ => .done video
  | draw function => exact absurd rfl (h function)
  | setColor color => exact (sightless_setClearColor video color).bind fun _ => .done video
  | swap =>
    have maintains := Cpu.accesses_writeBackRange video.target Framebuffer.byteSize.toUInt32
    apply Accesses.bind (maintains.mono fun _ h => h.usesNothing.isSightless)
    exact fun _ => .bind (.write nofun) fun _ => .done _
  | wait | finish | look | signal => exact quietly trivial

theorem sightless_call (memory : FrameMemory) (video : Video) {call : Call} (h : ¬ call.Draws) :
    (call.program config memory video).Accesses Command.IsSightless := by
  cases call with
  | restart platform color => exact sightless_bringUp memory platform color
  | operate operation =>
    apply sightless_operation video
    rintro function rfl
    exact h trivial

/-- A life without drawings is led without a look at a picture. -/
theorem sightless_lifetime (memory : FrameMemory) (platform : Platform) (color : Color)
    {calls : List Call} (undrawn : ∀ call ∈ calls, ¬ call.Draws) :
    (lifetime config memory platform color calls).Accesses Command.IsSightless := by
  have all (video : Video) : (callAll config memory calls video).Accesses Command.IsSightless := by
    induction calls generalizing video with
    | nil => exact .done video
    | cons call rest ih =>
      rw [List.forall_mem_cons] at undrawn
      exact (sightless_call memory video undrawn.1).bind (ih undrawn.2)
  exact (sightless_bringUp memory platform color).bind all

/-! ### Both come to their end -/

/-- A life is finishable when frame memory is aligned. -/
theorem finishable_lifetime {config : Config} {memory : FrameMemory} (aligned : memory.Aligned)
    (platform : Platform) (color : Color) (calls : List Call) :
    (lifetime config memory platform color calls).Finishes := by
  have call (call : Call) {video : Video} (eq : video.memory = memory) :
      (call.program config memory video).Finishable fun video => video.memory = memory := by
    cases call with
    | restart platform color =>
      refine (finishable_bringUp aligned platform color).mono ?_
      rintro _ rfl
      rfl
    | operate operation =>
      refine (finishable_operation aligned eq operation).mono ?_
      rintro _ rfl
      exact (operation.next_memory video).trans eq
  have all (video : Video) (eq : video.memory = memory) :
      (callAll config memory calls video).Finishes := by
    induction calls generalizing video with
    | nil => exact .done trivial
    | cons first rest ih => exact (call first eq).bind fun eq => ih _ eq
  apply (finishable_bringUp aligned platform color).bind
  rintro video rfl
  exact all _ rfl

/-! ### A page that is filled too early -/

section Early

variable {config : Config} {memory : FrameMemory} {color : Color}

/-- Only the first fill of the staging page has to do with the first clear colour. -/
theorem exists_lifetime_rest (config : Config) (memory : FrameMemory) (platform : Platform)
    (calls : List Call) :
    ∃ rest : Program Video, ∀ color, lifetime config memory platform color calls = (do
      Program.write ViRegister.ctrl 0
      Fence.clear
      Program.perform (.fillStaging memory.staging color)
      rest) := by
  refine ⟨?rest, fun color => ?split⟩
  case split =>
    simp only [lifetime, bringUp, setClearColor, bind_assoc]
    rfl

/-- An execution of what follows the fill belongs to one of the whole, also when the engine has
worked on in between. -/
theorem execution_of_filled (memory : FrameMemory) (color : Color) (s : Rig)
    {rest : Program Video} {filled t : Rig} {moments : List (Moment Rig)} {ending : Ending Video}
    (moved : Rig.hardware.MovesTo
      { s with board := s.board.stored (color.pageStores memory.stagingPlace) } filled)
    (execution : Rig.hardware.Execution rest filled moments ending t) :
    ∃ moments', Rig.hardware.Execution (do
      Program.write ViRegister.ctrl 0
      Fence.clear
      Program.perform (.fillStaging memory.staging color)
      rest) s moments' ending t := by
  have stored : Rig.hardware.responds s (.fillStaging memory.staging color) ()
      { s with board := s.board.stored (color.pageStores memory.stagingPlace) } :=
    ⟨Board.stores_stored _ _, rfl⟩
  have lowered : Rig.hardware.responds s (.setFence false) () s := ⟨rfl, rfl⟩
  have blanked : Rig.hardware.responds s (.write ViRegister.ctrl 0) () s := ⟨rfl, rfl⟩
  exact ⟨_, .step blanked (.step lowered (.step stored (execution.of_movesTo moved)))⟩

/-- From an idle rig, bringing up ends with both framebuffers clear. -/
theorem pictures_of_idle {platform : Platform} (apart : memory.Apart) {s t : Rig}
    (idle : s.outstanding = 0) {moments : List (Moment Rig)} {video : Video}
    (execution : Rig.hardware.Execution (lifetime config memory platform color []) s moments
      (.returned video) t) (index : Fin 2) :
    Framebuffer.ofBytes t.board.memory.rdram (memory.place index) = .uniform color := by
  have laidOut := laidOut_of_lifetime apart
    (fun a _ => not_leftover (List.length_eq_zero_iff.1 idle) a) (Rig.execution_board execution)
  exact (laidOut.pictures index).ofBytes_eq

/-- Of empty memories, a page of data memory that is still to be copied blackens the page of RDRAM
that it goes to, whatever that is filled with in the meantime. -/
theorem movesTo_blackened (status : Flags) (base : Nat) (color : Color) :
    Rig.hardware.MovesTo
      ⟨status, (Board.blank () [.linear .toRdram 0 base pageSize.toNat]).stored
        (color.pageStores base)⟩
      ⟨status, .blank () []⟩ := by
  let filled : Board Unit :=
    (Board.blank () [.linear .toRdram 0 base pageSize.toNat]).stored (color.pageStores base)
  have empty : Bytes.stored (Bytes.stored (fun _ => 0) (color.pageStores base))
      ((List.range pageSize.toNat).map fun i => (base + i, 0)) = fun _ => 0 := by
    rw [Color.pageStores, Bytes.stored_row_over, ← Color.pageStores_black, Bytes.stored_black]
  have black : filled.settled = .blank () [] := by
    rw [Board.settled_of_linear rfl]
    simp only [filled, Board.restingOn, Board.stored, Board.blank, empty]
  have moved := Rig.movesTo_settled ⟨status, filled⟩
  rwa [Rig.settled, black] at moved

end Early

/-! ### No difference -/

/-- **The queue makes no difference.** Take a video output that is brought up, operated and brought
up again in any way, with picture memory anywhere and from any state of the machine, once with the
queue in use and once without it, and let the engine carry out its transfers at any time of its own
in either case. If both come to their end, they have made the same accesses, answered alike, but for
polls, where the one polls for a free slot while the other one polls for an idle engine; and they
leave the same video output and status word.

Transfers may be outstanding at first. If none of them goes to the staging page, and frame memory is
apart, they leave the same pictures, staging page and pattern; and if none has to do with it at all,
the same memories and registers. The processor fills the staging page while they still go on, so that
a transfer to it makes a difference. Then all else is still the same, unless somebody looks at a
picture. -/
theorem queue_makes_no_difference (config : Config) {memory : FrameMemory} (platform : Platform)
    (color : Color) {calls : List Call} {s t t' : Rig}
    (certain : s.StagingFree memory ∨ ∀ call ∈ calls, ¬ call.Draws)
    {moments moments' : List (Moment Rig)} {video video' : Video}
    (queued : Rig.hardware.Execution
      (lifetime (config.withQueue true) memory platform color calls) s moments (.returned video) t)
    (plain : Rig.hardware.Execution
      (lifetime (config.withQueue false) memory platform color calls) s moments'
      (.returned video') t') :
    besidesPolls (moments.map Moment.event) = besidesPolls (moments'.map Moment.event) ∧
      Likewise (moments.map Moment.event) (moments'.map Moment.event) ∧ video = video' ∧
      t.status = t'.status ∧ (s.StagingFree memory → t = t') ∧
      (memory.Apart → (∀ a, memory.InStaging a → ¬ Leftover s.board a) →
        memory.SameFrames t.board t'.board) := by
  have twins := twins_lifetime config memory platform color calls
  have calm (free : s.StagingFree memory) : video = video' ∧
      Likewise (moments.map Moment.event) (moments'.map Moment.event) ∧ t = t' := by
    obtain ⟨tidy, idle⟩ := lifetime_tidy free queued
    obtain ⟨tidy', idle'⟩ := lifetime_tidy free plain
    obtain ⟨same, likewise, settled⟩ :=
      twins.agree Rig.mirrors_settled Rig.still_of_polls rfl tidy tidy' queued plain
    rw [Rig.settled_of_idle (idle video rfl), Rig.settled_of_idle (idle' video' rfl)] at settled
    exact ⟨same, likewise, settled⟩
  -- pictures are all that a program learns of the memories, so without a look at one they may differ
  have outcome : video = video' ∧ Likewise (moments.map Moment.event) (moments'.map Moment.event) ∧
      t.status = t'.status := by
    rcases certain with free | undrawn
    · obtain ⟨same, likewise, rfl⟩ := calm free
      exact ⟨same, likewise, rfl⟩
    · have sightless {config : Config} {moments : List (Moment Rig)} {video : Video} {t : Rig}
          (execution : Rig.hardware.Execution (lifetime config memory platform color calls) s
            moments (.returned video) t) : AllSafe (fun _ => Command.IsSightless) moments := by
        intro moment member
        exact (sightless_lifetime memory platform color undrawn).of_runs execution.run _
          (List.mem_map_of_mem member)
      exact twins.agree Rig.mirrors_status Rig.still_of_polls rfl (sightless queued)
        (sightless plain) queued plain
  obtain ⟨same, likewise, status⟩ := outcome
  refine ⟨likewise.besidesPolls_eq, likewise, same, status, fun free => (calm free).2.2, ?_⟩
  intro apart own
  have frames := (laidOut_of_lifetime apart own (Rig.execution_board queued)).sameFrames
    (laidOut_of_lifetime apart own (Rig.execution_board plain))
  rwa [Scene.behind_memory] at frames

/-- A life that is led on a machine with both places in the queue taken at first. -/
theorem queue_makes_no_difference_busy : ∃ moments moments' video t,
    Rig.hardware.Execution (lifetime ((Config.silent true).withQueue true) .secondMegabyte .pal
      ⟨0xF801⟩ [.operate .clear, .operate .swap, .restart .ntsc ⟨2⟩, .operate (.setColor ⟨1⟩)])
      ⟨0, .blank () [.linear .toRdram 0 0 8, .linear .fromRdram 8 64 8]⟩ moments
      (.returned video) t ∧
    Rig.hardware.Execution (lifetime ((Config.silent true).withQueue false) .secondMegabyte .pal
      ⟨0xF801⟩ [.operate .clear, .operate .swap, .restart .ntsc ⟨2⟩, .operate (.setColor ⟨1⟩)])
      ⟨0, .blank () [.linear .toRdram 0 0 8, .linear .fromRdram 8 64 8]⟩ moments'
      (.returned video) t ∧
    Likewise (moments.map Moment.event) (moments'.map Moment.event) := by
  let calls : List Call :=
    [.operate .clear, .operate .swap, .restart .ntsc ⟨2⟩, .operate (.setColor ⟨1⟩)]
  let start : Rig := ⟨0, .blank () [.linear .toRdram 0 0 8, .linear .fromRdram 8 64 8]⟩
  have free : start.StagingFree .secondMegabyte := by
    rintro a ⟨low, -⟩ ⟨direction, byte, ⟨transfer, member, -, left⟩, rfl⟩
    have place : FrameMemory.secondMegabyte.stagingPlace = 2 ^ 20 + 2 ^ 19 := by decide
    have member : transfer ∈ [Transfer.linear .toRdram 0 0 8, .linear .fromRdram 8 64 8] := member
    rw [List.mem_cons, List.mem_singleton] at member
    rw [place] at low
    rcases member with rfl | rfl
    · obtain ⟨i, small, rfl⟩ := Transfer.mem_linear.1 left
      have low : 2 ^ 20 + 2 ^ 19 ≤ 0 + i := low
      omega
    · obtain ⟨i, small, rfl⟩ := Transfer.mem_linear.1 left
      have low : 2 ^ 20 + 2 ^ 19 ≤ 64 + i := low
      omega
  have finishes (config : Config) :
      (lifetime config .secondMegabyte .pal ⟨0xF801⟩ calls).Finishes :=
    finishable_lifetime FrameMemory.secondMegabyte_aligned _ _ _
  obtain ⟨moments, video, t, -, queued⟩ :=
    Rig.live.exists_execution (finishes ((Config.silent true).withQueue true)) start
  obtain ⟨moments', video', t', -, plain⟩ :=
    Rig.live.exists_execution (finishes ((Config.silent true).withQueue false)) start
  obtain ⟨-, likewise, rfl, -, same, -⟩ :=
    queue_makes_no_difference (.silent true) .pal ⟨0xF801⟩ (.inl free) queued plain
  obtain rfl := same free
  exact ⟨moments, moments', video, t, queued, plain, likewise⟩

/-- A page that is still to be copied to the staging page at first. Copied before the fill, it is
lost; copied behind it, the clear colour is, and both framebuffers are black at the end. -/
theorem leftover_makes_a_difference : ∃ moments moments' video video' t t',
    Rig.hardware.Execution
      (lifetime ((Config.silent true).withQueue true) .secondMegabyte .pal ⟨0xF801⟩ [])
      ⟨0, .blank () [.linear .toRdram 0 FrameMemory.secondMegabyte.stagingPlace pageSize.toNat]⟩
      moments (.returned video) t ∧
    Rig.hardware.Execution
      (lifetime ((Config.silent true).withQueue false) .secondMegabyte .pal ⟨0xF801⟩ [])
      ⟨0, .blank () [.linear .toRdram 0 FrameMemory.secondMegabyte.stagingPlace pageSize.toNat]⟩
      moments' (.returned video') t' ∧
    ∀ index,
      Framebuffer.ofBytes t.board.memory.rdram (FrameMemory.secondMegabyte.place index) =
        .uniform ⟨0xF801⟩ ∧
      Framebuffer.ofBytes t'.board.memory.rdram (FrameMemory.secondMegabyte.place index) =
        .uniform ⟨0⟩ := by
  let memory := FrameMemory.secondMegabyte
  let clean : Rig := ⟨0, .blank () []⟩
  have finishes (config : Config) (color : Color) :
      (lifetime config memory .pal color []).Finishes :=
    finishable_lifetime FrameMemory.secondMegabyte_aligned .pal color []
  -- with the queue, the page is copied before anything else is done
  have early := movesTo_blackened 0 memory.stagingPlace ⟨0⟩
  rw [Board.stored_black] at early
  obtain ⟨moments, video, t, -, bright⟩ :=
    Rig.live.exists_execution (finishes ((Config.silent true).withQueue true) ⟨0xF801⟩) clean
  -- without it, between the fill and all the rest, which is what follows a black fill as well
  obtain ⟨rest, split⟩ := exists_lifetime_rest ((Config.silent true).withQueue false) memory .pal []
  have whole := finishes ((Config.silent true).withQueue false) ⟨0⟩
  rw [split] at whole
  have ends : rest.Finishes := ((whole.of_step ()).of_step ()).of_step ()
  obtain ⟨late, video', t', -, execution⟩ := Rig.live.exists_execution ends clean
  obtain ⟨moments', plain⟩ :=
    execution_of_filled memory ⟨0xF801⟩ ⟨0, .blank () [.linear .toRdram 0 memory.stagingPlace
      pageSize.toNat]⟩ (movesTo_blackened 0 memory.stagingPlace ⟨0xF801⟩) execution
  have still : Rig.hardware.MovesTo
      { clean with board := clean.board.stored (Color.pageStores ⟨0⟩ memory.stagingPlace) } clean := by
    rw [Board.stored_black]
  obtain ⟨_, black⟩ := execution_of_filled memory ⟨0⟩ clean still execution
  rw [← split] at plain black
  exact ⟨moments, moments', video, video', t, t', bright.of_movesTo early, plain, fun index =>
    ⟨pictures_of_idle FrameMemory.secondMegabyte_apart rfl bright index,
      pictures_of_idle FrameMemory.secondMegabyte_apart rfl black index⟩⟩

end Video

end ColdBoot
