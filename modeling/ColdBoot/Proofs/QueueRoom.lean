import ColdBoot.Proofs.LiveBoard

/-! # Room in the engine's queue

The engine has one slot behind the active transfer, and a start that finds the slot occupied is
lost. Nothing in the video output counts transfers: it polls. This module shows that the polls are
enough, on any hardware whose two bits obey `Hardware.QueueLaws`, however many transfers are
outstanding at the beginning and whenever they end.

* **`Hardware.roomGuard`** – every start finds room, and the pattern is loaded into an idle engine;
* **`Video.session_keeps_room`** – every session of the video output keeps this guard. -/

namespace ColdBoot

open Hardware.QueueLaws (room)

/-- An access to something other than the engine's registers, or a mere look at one. -/
def Command.IsQuiet : Command → Prop
  | .write register _ => register.block ≠ .sp
  | _ => True

namespace Command

theorem IsAside.isQuiet {command : Command} (h : command.IsAside) : command.IsQuiet := by
  cases command with
  | write register value => exact h.1
  | _ => trivial

theorem IsCache.isQuiet {command : Command} (h : command.IsCache) : command.IsQuiet := by
  cases command with
  | cache => trivial
  | _ => exact h.elim

theorem IsQuiet.not_isStart {command : Command} (h : command.IsQuiet) : ¬ command.IsStart := by
  cases command with
  | write register value =>
    rintro (rfl | rfl)
    · exact h rfl
    · exact h rfl
  | _ => exact id

end Command

/-- The registers of a start belong to the engine. -/
theorem Sp.block_of_mem {register : Register} (h : register ∈ startRegisters) :
    register.block = .sp := by
  revert register
  decide

namespace Hardware

variable {σ : Type} {hw : Hardware σ} {outstanding : σ → Nat}

/-- Every access of a start finds room for one more transfer, and the access that starts a transfer
out of RDRAM finds none outstanding. -/
def roomGuard (config : Config) (outstanding : σ → Nat) : Guard σ where
  access s command := ∀ register value, command = .write register value →
    (register ∈ Sp.startRegisters → outstanding s ≤ room config) ∧
      (register = SpRegister.readLen → outstanding s = 0)
  state _ := True

/-- Outstanding transfers are at most `n`. -/
abbrev AtMost (outstanding : σ → Nat) (n : Nat) : σ → Prop := fun s => outstanding s ≤ n

namespace QueueLaws

variable (config : Config)

theorem sound_atMost (laws : hw.QueueLaws outstanding) (n : Nat) :
    hw.Sound (roomGuard config outstanding) (AtMost outstanding n) where
  stable := fun _ _ moved h => Nat.le_trans (laws.moves moved) h
  state := fun _ _ => trivial

/-- An access that starts nothing neither meets the guard nor changes the queue. -/
theorem keeps_atMost (laws : hw.QueueLaws outstanding) (n : Nat) :
    hw.Keeps (roomGuard config outstanding) Command.IsQuiet (AtMost outstanding n) where
  toSound := laws.sound_atMost config n
  access := by
    rintro s command quiet - register value rfl
    constructor
    · intro member
      exact absurd (Sp.block_of_mem member) quiet
    · rintro rfl
      exact absurd rfl quiet
  responds := by
    intro s command answer t quiet h responded
    exact Nat.le_trans (laws.others quiet.not_isStart responded) h

/-- The same for what is aside, in the form that waits ask for. -/
theorem keepsAside_atMost (laws : hw.QueueLaws outstanding) (n : Nat) :
    hw.Keeps (roomGuard config outstanding) Command.IsAside (AtMost outstanding n) :=
  (laws.keeps_atMost config n).mono fun _ => Command.IsAside.isQuiet

variable {config}

/-- Writing one of a start's address registers: there has to be room, and the room stays. -/
theorem ensures_address (laws : hw.QueueLaws outstanding) {register : Register} (value : UInt32)
    (read : register ≠ SpRegister.readLen)
    (write : register ≠ SpRegister.writeLen) {n : Nat} (le : n ≤ room config) :
    hw.Ensures (roomGuard config outstanding) (AtMost outstanding n) (.write register value)
      fun _ => AtMost outstanding n := by
  refine .perform (laws.sound_atMost config n) (fun _ => laws.sound_atMost config n) ?_ ?_
  · rintro s h _ _ ⟨⟩
    exact ⟨fun _ => Nat.le_trans h le, fun eq => absurd eq read⟩
  · intro s answer t h responded
    have other : ¬ (Command.write register value).IsStart := by
      rintro (eq | eq)
      · exact read eq
      · exact write eq
    exact Nat.le_trans (laws.others other responded) h

/-- Starting a transfer: `n` transfers have to leave room, and none may be outstanding if it goes
out of RDRAM. -/
theorem ensures_start (laws : hw.QueueLaws outstanding) (descriptor : SpDescriptor)
    {direction : Direction} {n : Nat} (le : n ≤ room config)
    (idle : direction = .fromRdram → n = 0) :
    hw.Ensures (roomGuard config outstanding) (AtMost outstanding n)
      (Sp.start descriptor direction) fun _ => AtMost outstanding (n + 1) := by
  have sound := laws.sound_atMost config n
  refine Sp.ensures_start (AtMost outstanding n) sound sound
    (laws.ensures_address _ (by decide) (by decide) le)
    (laws.ensures_address _ (by decide) (by decide) le) fun word _ => ?_
  -- the write of the length is what starts the transfer
  refine .perform sound (fun _ => laws.sound_atMost config (n + 1)) ?_ ?_
  · rintro s h _ _ ⟨⟩
    refine ⟨fun _ => Nat.le_trans h le, fun eq => ?_⟩
    have out : direction = .fromRdram := by
      cases direction with
      | toRdram => exact absurd eq (by decide)
      | fromRdram => rfl
    have h : outstanding s ≤ n := h
    have := idle out
    omega
  · intro s answer t h responded
    have start : (Command.write (Sp.lengthRegister direction) word).IsStart := by
      cases direction with
      | toRdram => exact .inr rfl
      | fromRdram => exact .inl rfl
    have := laws.starts start responded
    have h : outstanding s ≤ n := h
    show outstanding t ≤ n + 1
    omega

/-- Waiting for the engine leaves none outstanding, whatever was before. -/
theorem ensures_idle (laws : hw.QueueLaws outstanding) (n : Nat) :
    hw.Ensures (roomGuard config outstanding) (AtMost outstanding n) Sp.engine.waitIdle
      fun _ => AtMost outstanding 0 :=
  (laws.ensures_waitIdle (laws.keepsAside_atMost config n)).mono (fun _ h => h) fun _ _ h => h.2

end QueueLaws

end Hardware

/-! ### Operations of the video output -/

namespace Video

open Hardware

variable {σ : Type} {hw : Hardware σ} {outstanding : σ → Nat} {config : Config}

/-- Changing the clear colour: the pattern is loaded between two waits for the engine. -/
theorem setClearColor_keeps_room (laws : hw.QueueLaws outstanding) (video : Video) (color : Color)
    (n : Nat) :
    hw.Ensures (roomGuard config outstanding) (AtMost outstanding n) (video.setClearColor color)
      fun _ => AtMost outstanding 0 := by
  refine .bind ((laws.keeps_atMost config n).ensures (.perform _ trivial)) fun _ => ?_
  refine .bind ((laws.keeps_atMost config n).ensures
    ((Cpu.accesses_writeBackRange _ _).mono fun _ => Command.IsCache.isQuiet)) fun _ => ?_
  refine .bind (laws.ensures_idle n) fun _ => ?_
  refine .ofExcept_bind (laws.sound_atMost config 0) fun descriptor _ => ?_
  refine .bind (laws.ensures_start descriptor (Nat.zero_le _) fun _ => rfl) fun _ => ?_
  refine .bind (laws.ensures_idle 1) fun _ => ?_
  exact .done (laws.sound_atMost config 0) fun _ h => h

/-- One chunk of a clear: whatever room the wait for the queue has left is used up. -/
theorem clearChunk_keeps_room (laws : hw.QueueLaws outstanding) (base : PhysAddr)
    (chunk : ClearChunk) (n : Nat) (le : room config + 1 ≤ n) :
    hw.Ensures (roomGuard config outstanding) (AtMost outstanding n)
      (clearChunk config base chunk) fun _ => AtMost outstanding n := by
  have waited : hw.Ensures (roomGuard config outstanding) (AtMost outstanding n)
      (Sp.engine.waitQueue config) fun _ => AtMost outstanding (room config) :=
    (laws.ensures_waitQueue (laws.keepsAside_atMost config n) config).mono (fun _ h => h)
      fun _ _ h => h.2
  refine .bind waited fun _ => ?_
  refine .ofExcept_bind (laws.sound_atMost config _) fun descriptor _ => ?_
  have started : hw.Ensures (roomGuard config outstanding) (AtMost outstanding (room config))
      (Sp.start descriptor .toRdram) fun _ => AtMost outstanding (room config + 1) :=
    laws.ensures_start descriptor (Nat.le_refl (room config)) nofun
  exact started.mono (fun _ h => h) fun _ _ h => Nat.le_trans h le

/-- Clearing a framebuffer. The bound on the way has to admit both what was outstanding before the
first chunk and what the chunks themselves leave behind. -/
theorem clearFramebuffer_keeps_room (laws : hw.QueueLaws outstanding) (video : Video)
    (index : Fin 2) (n : Nat) :
    hw.Ensures (roomGuard config outstanding) (AtMost outstanding n)
      (clearFramebuffer config video index) fun _ => AtMost outstanding 0 := by
  -- the chunks keep this bound: each finds room, and leaves one more outstanding
  let most := max n (room config + 1)
  have start : ∀ ⦃s⦄, AtMost outstanding n s → AtMost outstanding most s := fun s h =>
    Nat.le_trans h (Nat.le_max_left _ _)
  refine Ensures.of_imp ?_ start
  refine .bind ((laws.keeps_atMost config most).ensures
    ((Cpu.accesses_invalidateDataRange _ _).mono fun _ => Command.IsCache.isQuiet)) fun _ => ?_
  refine .via (fun _ => AtMost outstanding most) ?_ fun _ => ?_
  · exact .forM (fun _ => AtMost outstanding most) clearChunks (laws.sound_atMost config most)
      fun chunk _ _ => clearChunk_keeps_room laws _ chunk most (Nat.le_max_right _ _)
  · refine .bind (laws.ensures_idle most) fun _ => ?_
    exact .done (laws.sound_atMost config 0) fun _ h => h

/-- Bringing the video output up, with any number of transfers outstanding before. -/
theorem bringUp_keeps_room (laws : hw.QueueLaws outstanding) (memory : FrameMemory)
    (platform : Platform) (color : Color) (n : Nat) :
    hw.Ensures (roomGuard config outstanding) (AtMost outstanding n)
      (bringUp config memory platform color) fun video s =>
        video = initial memory platform ∧ AtMost outstanding 0 s := by
  have quiet := fun n => laws.keeps_atMost config n
  refine .bind ((quiet n).ensures (.write nofun)) fun _ => ?_
  refine .bind ((quiet n).ensures (.perform _ trivial)) fun _ => ?_
  refine .bind (setClearColor_keeps_room laws _ color n) fun _ => ?_
  refine .bind (clearFramebuffer_keeps_room laws _ 0 0) fun _ => ?_
  refine .bind (clearFramebuffer_keeps_room laws _ 1 0) fun _ => ?_
  refine .bind ((quiet 0).ensures ((LogRecord.accesses_emit _ _).mono
    fun _ => Command.IsAside.isQuiet)) fun _ => ?_
  refine .bind ((quiet 0).ensures ?_) fun _ => ?_
  · obtain ⟨rest, aside, eq⟩ := accesses_writeTiming_rest ⟨memory, 0, platform⟩ platform.profile
    rw [eq]
    refine Program.Accesses.bind (.write nofun) fun _ => ?_
    exact aside.mono fun _ => Command.IsAside.isQuiet
  · exact .done (laws.sound_atMost config 0) fun _ h => ⟨rfl, h⟩

/-- Every operation starts with an idle engine and leaves it idle. -/
theorem operation_keeps_room (laws : hw.QueueLaws outstanding) (operation : Operation)
    (video : Video) :
    hw.Ensures (roomGuard config outstanding) (AtMost outstanding 0)
      (operation.program config video) fun video' s =>
        video' = operation.next video ∧ AtMost outstanding 0 s := by
  have quiet := laws.keeps_atMost config 0
  have sound := laws.sound_atMost config 0
  have last (video' : Video) (eq : video' = operation.next video) :
      hw.Ensures (roomGuard config outstanding) (AtMost outstanding 0) (.done video')
        fun video' s => video' = operation.next video ∧ AtMost outstanding 0 s :=
    .done sound fun _ h => ⟨eq, h⟩
  have quietly {operation : Operation} (h : operation.IsAside) :
      hw.Ensures (roomGuard config outstanding) (AtMost outstanding 0)
        (operation.program config video) fun video' s =>
          video' = operation.next video ∧ AtMost outstanding 0 s := by
    obtain ⟨part, aside, eq⟩ := h.exists_part config video
    rw [eq, h.next_eq]
    refine .bind (quiet.ensures (aside.mono fun _ => Command.IsAside.isQuiet)) fun _ => ?_
    exact .done sound fun _ h => ⟨rfl, h⟩
  cases operation with
  | clear => exact .bind (clearFramebuffer_keeps_room laws _ _ 0) fun _ => last _ rfl
  | draw function =>
    refine .bind (quiet.ensures (.perform _ trivial)) fun before => ?_
    exact .bind (quiet.ensures (.perform _ trivial)) fun _ => last _ rfl
  | setColor color => exact .bind (setClearColor_keeps_room laws _ color 0) fun _ => last _ rfl
  | swap =>
    refine .bind (quiet.ensures
      ((Cpu.accesses_writeBackRange _ _).mono fun _ => Command.IsCache.isQuiet)) fun _ => ?_
    exact .bind (quiet.ensures (.write nofun)) fun _ => last _ rfl
  | wait | finish | look | signal => exact quietly trivial

/-! ### Sessions -/

/-- **The queue is never overrun.** In every session of the video output, on any hardware that obeys
the laws of the two bits and from any number of outstanding transfers, every access of a start finds
room in the queue, the pattern is only loaded into an idle engine, and none is outstanding whenever
the session returns. -/
theorem session_keeps_room (laws : hw.QueueLaws outstanding) (memory : FrameMemory)
    (platform : Platform) (color : Color) (operations : List Operation) {s t : σ}
    {moments : List (Moment σ)} {ending : Ending Video}
    (execution : hw.Execution (session config memory platform color operations) s moments ending
      t) :
    (∀ moment ∈ moments, ∀ register value, moment.event.command = .write register value →
        (register ∈ Sp.startRegisters → outstanding moment.state ≤ room config) ∧
        (register = SpRegister.readLen → outstanding moment.state = 0)) ∧
      ∀ video, ending = .returned video → outstanding t = 0 := by
  let boundary (_ : Video) (_ : Color) : σ → Prop := AtMost outstanding 0
  have sound (video : Video) (color : Color) :
      hw.Sound (roomGuard config outstanding) (boundary video color) := laws.sound_atMost config 0
  obtain ⟨guarded, -, returns⟩ := ensures_session sound
    (bringUp_keeps_room laws memory platform color (outstanding s))
    (fun operation video _ => operation_keeps_room laws operation video) operations
    (Nat.le_refl _) execution
  refine ⟨guarded, fun video returned => ?_⟩
  exact Nat.le_zero.1 (returns video returned).2

/-- A whole session on a board without a cache, that begins with both places in the queue taken. -/
theorem session_keeps_room_busy : ∃ moments video t,
    (Board.hardware directPath).Execution
      (session (.silent true) .secondMegabyte .pal ⟨0xF801⟩ [.clear, .swap, .setColor ⟨1⟩])
      (.blank () [.linear .toRdram 0 0 8, .linear .fromRdram 8 64 8]) moments (.returned video) t ∧
    (∀ moment ∈ moments, ∀ register value, moment.event.command = .write register value →
      (register ∈ Sp.startRegisters → moment.state.outstanding ≤ 1) ∧
        (register = SpRegister.readLen → moment.state.outstanding = 0)) ∧
    t.outstanding = 0 := by
  obtain ⟨moments, video, t, -, execution⟩ :=
    (Board.live directPath_total).exists_execution
      (finishable_session FrameMemory.secondMegabyte_aligned .pal
        ⟨0xF801⟩ [.clear, .swap, .setColor ⟨1⟩])
      (.blank () [.linear .toRdram 0 0 8, .linear .fromRdram 8 64 8])
  obtain ⟨guarded, returns⟩ := session_keeps_room (Board.queueLaws directPath) .secondMegabyte .pal
    ⟨0xF801⟩ [.clear, .swap, .setColor ⟨1⟩] execution
  exact ⟨moments, video, t, execution, guarded, returns video rfl⟩

end Video

end ColdBoot
