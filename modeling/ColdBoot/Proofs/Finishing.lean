import ColdBoot.Console
import ColdBoot.Proofs.CacheWalk
import ColdBoot.Proofs.ClearTiling
import ColdBoot.Proofs.RowPacking
import ColdBoot.Proofs.VideoSession

/-! # Sessions that come to their end

A program is **finishable** if it never stops, and waits only for what hardware can bring about. On
hardware that answers every command and can end every such wait, it has an execution that returns.
Sessions of the video output are finishable when frame memory is aligned: no check of a descriptor
fails, no walk over cache lines breaks off, and no field is too narrow.

* **`Hardware.Live.exists_execution`** – a finishable program has an execution that returns;
* **`Video.finishable_session`** – sessions are finishable. -/

namespace ColdBoot

/-! ### Finishable programs -/

namespace Program

variable {α β : Type}

/-- The waits of the video output: for the engine, for its queue slot, and for the vblank flag. -/
inductive IsWait : (command : Command) → (command.Answer → Bool) → Prop where
  | idle : IsWait (.read SpRegister.dmaBusy) Sp.engine.isTerminal
  | slot : IsWait (.read SpRegister.dmaFull) fun word => !testBit word 0
  | fence : IsWait .getFence id

/-- A program that does not stop, only waits as the video output does, and returns a value in
`result`. -/
inductive Finishable (result : α → Prop) : Program α → Prop where
  | done {value : α} (member : result value) : Finishable result (.done value)
  | step {command : Command} {next : command.Answer → Program α}
      (rest : ∀ answer, Finishable result (next answer)) : Finishable result (.step command next)
  | await {command : Command} {accepted : command.Answer → Bool}
      {next : command.Answer → Program α} (wait : IsWait command accepted)
      (rest : ∀ answer, Finishable result (next answer)) :
      Finishable result (.await command accepted next)

/-- The same where any value will do. -/
abbrev Finishes (program : Program α) : Prop := program.Finishable fun _ => True

namespace Finishable

theorem perform (command : Command) : (Program.perform command).Finishes :=
  .step fun _ => .done trivial

theorem write (register : Register) (value : UInt32) : (Program.write register value).Finishes :=
  .perform _

/-- What follows an access of a finishable program is finishable. -/
theorem of_step {command : Command} {next : command.Answer → Program α} {result : α → Prop}
    (h : (Program.step command next).Finishable result) (answer : command.Answer) :
    (next answer).Finishable result := by
  cases h with
  | step rest => exact rest answer

/-- A run of a finishable program returns a value in `result`, or it is cut off before. -/
theorem ends {program : Program α} {result : α → Prop} (h : program.Finishable result)
    {events : List Event} {ending : Ending α} (run : program.Runs events ending) :
    ending = .cut ∨ ∃ value, ending = .returned value ∧ result value := by
  induction run with
  | done value =>
    cases h with
    | done member => exact .inr ⟨value, rfl, member⟩
  | stop => nomatch h
  | cut => exact .inl rfl
  | step answer _ ih =>
    cases h with
    | step rest => exact ih (rest answer)
  | refuse answer _ _ ih => exact ih h
  | accept answer _ _ ih =>
    cases h with
    | await _ rest => exact ih (rest answer)

/-- A finishable program does not stop. -/
theorem not_stopped {program : Program α} {result : α → Prop} (h : program.Finishable result)
    {events : List Event} {ending : Ending α} (run : program.Runs events ending) (reason : Stop) :
    ending ≠ .stopped reason := by
  rcases h.ends run with rfl | ⟨value, rfl, -⟩
  · exact nofun
  · exact nofun

theorem bind {program : Program α} {f : α → Program β} {first : α → Prop} {result : β → Prop}
    (h : program.Finishable first) (rest : ∀ {value}, first value → (f value).Finishable result) :
    (program >>= f).Finishable result := by
  induction h with
  | done member => exact rest member
  | step _ ih => exact .step ih
  | await wait _ ih => exact .await wait ih

theorem ofExcept_bind {x : Except Fault α} {f : α → Program β} {value : α} {result : β → Prop}
    (ok : x = .ok value) (rest : (f value).Finishable result) :
    (ofExcept x >>= f).Finishable result := by
  rw [ok]
  exact rest

theorem mono {program : Program α} {first second : α → Prop} (h : program.Finishable first)
    (sub : ∀ value, first value → second value) : program.Finishable second := by
  induction h with
  | done member => exact .done (sub _ member)
  | step _ ih => exact .step ih
  | await wait _ ih => exact .await wait ih

theorem forM {ι : Type} {f : ι → Program PUnit} (items : List ι)
    (h : ∀ item ∈ items, (f item).Finishes) : (items.forM f).Finishes := by
  induction items with
  | nil => exact .done trivial
  | cons item rest ih =>
    rw [List.forall_mem_cons] at h
    exact h.1.bind fun _ => ih h.2

end Finishable

end Program

open Program

/-! ### Live hardware -/

namespace Hardware

variable {σ α : Type} {hw : Hardware σ}

/-- A finishable program has an execution that returns, if something is kept from access to access
that lets every wait come to its end. -/
theorem exists_execution_of_kept (kept : σ → Program α → Prop)
    (answers : ∀ s command, ∃ answer t, hw.responds s command answer t)
    (steps : ∀ {s t command next answer}, kept s (.step command next) →
      hw.responds s command answer t → kept t (next answer))
    (waits : ∀ {s command accepted next}, kept s (.await command accepted next) →
      IsWait command accepted → ∃ met answer t, hw.MovesTo s met ∧
        hw.responds met command answer t ∧ accepted answer = true ∧ kept t (next answer))
    {program : Program α} {result : α → Prop} (h : program.Finishable result) {s : σ}
    (start : kept s program) : ∃ moments value t, result value ∧
      hw.Execution program s moments (.returned value) t := by
  induction h generalizing s with
  | @done value member => exact ⟨[], value, s, member, .done value, .rest .refl⟩
  | @step command next rest ih =>
    obtain ⟨answer, behind, responded⟩ := answers s command
    obtain ⟨moments, value, t, member, execution⟩ := ih answer (steps start responded)
    exact ⟨_, value, t, member, .step responded execution⟩
  | @await command accepted next wait rest ih =>
    -- the hardware moves first, so that the wait is over with its first look
    obtain ⟨met, answer, behind, moved, responded, taken, further⟩ := waits start wait
    obtain ⟨moments, value, t, member, execution⟩ := ih answer further
    exact ⟨⟨met, ⟨command, answer⟩⟩ :: moments, value, t, member,
      .accept answer taken execution.run, .access moved responded execution.course⟩

variable (hw) in
/-- Hardware that answers every command, and that may move so that a wait of the video output for
something in `K` is over with the next look. -/
structure LiveWithin (K : Command → Prop) : Prop where
  answers : ∀ s command, ∃ answer t, hw.responds s command answer t
  waits : ∀ s command accepted, K command → IsWait command accepted →
    ∃ met answer t, hw.MovesTo s met ∧ hw.responds met command answer t ∧ accepted answer = true

/-- A finishable program that only makes accesses in `K` has an execution that returns. -/
theorem LiveWithin.exists_execution {K : Command → Prop} (live : hw.LiveWithin K)
    {program : Program α} {result : α → Prop} (h : program.Finishable result)
    (within : program.Accesses K) (s : σ) : ∃ moments value t, result value ∧
      hw.Execution program s moments (.returned value) t := by
  refine exists_execution_of_kept (fun _ program => program.Accesses K) live.answers
    (fun {_ _ _ _ answer} within _ => ?_) (fun {s command accepted _} within wait => ?_) h within
  · cases within with
    | step _ rest => exact rest answer
  · cases within with
    | await member rest =>
      obtain ⟨met, answer, t, moved, responded, taken⟩ := live.waits s command accepted member wait
      exact ⟨met, answer, t, moved, responded, taken, rest answer⟩

/-- A finishable program has an execution that returns, on hardware that can end every wait where a
guard is kept that the program keeps. -/
theorem Ensures.exists_execution {guard : Guard σ} {after : α → σ → Prop}
    (answers : ∀ s command, ∃ answer t, hw.responds s command answer t)
    (waits : ∀ s command accepted, guard.state s → IsWait command accepted →
      ∃ met answer t, hw.MovesTo s met ∧ hw.responds met command answer t ∧ accepted answer = true)
    {program : Program α} {result : α → Prop} (h : program.Finishable result) {s : σ}
    (ensures : hw.Ensures guard (· = s) program after) : ∃ moments value t, result value ∧
      hw.Execution program s moments (.returned value) t := by
  let kept (s : σ) (program : Program α) : Prop :=
    ∀ moments ending t, hw.Execution program s moments ending t → guard.state t
  refine exists_execution_of_kept kept answers
    (fun {s t command next answer} kept responded => ?_)
    (fun {s command accepted next} kept wait => ?_) h
    fun _ _ _ execution => (ensures rfl execution).2.1
  · intro moments ending u execution
    exact kept _ ending u (.step responded execution)
  · obtain ⟨met, answer, t, moved, responded, taken⟩ :=
      waits s command accepted (kept [] .cut s ⟨.cut _, .rest .refl⟩) wait
    refine ⟨met, answer, t, moved, responded, taken, fun moments ending u execution => ?_⟩
    exact kept (⟨met, ⟨command, answer⟩⟩ :: moments) ending u
      ⟨.accept answer taken execution.run, .access moved responded execution.course⟩

variable (hw) in
/-- The same for every wait of the video output. -/
structure Live : Prop where
  answers : ∀ s command, ∃ answer t, hw.responds s command answer t
  waits : ∀ s command accepted, IsWait command accepted →
    ∃ met answer t, hw.MovesTo s met ∧ hw.responds met command answer t ∧ accepted answer = true

/-- A finishable program has an execution that returns. -/
theorem Live.exists_execution (live : hw.Live) {program : Program α} {result : α → Prop}
    (h : program.Finishable result) (s : σ) : ∃ moments value t, result value ∧
      hw.Execution program s moments (.returned value) t := by
  have within : hw.LiveWithin fun _ => True :=
    ⟨live.answers, fun s command accepted _ => live.waits s command accepted⟩
  exact within.exists_execution h (accesses_true program) s

/-- A sequence whose first part is finishable stops in its second part. -/
theorem Execution.of_bind_stopped {α β : Type} {program : Program α} {f : α → Program β}
    {result : α → Prop} (finishable : program.Finishable result) {s u : σ} {reason : Stop}
    {moments : List (Moment σ)}
    (execution : hw.Execution (program >>= f) s moments (.stopped reason) u) :
    ∃ first second between t, moments = first ++ second ∧
      hw.Execution program s first (.returned between) t ∧
      hw.Execution (f between) t second (.stopped reason) u := by
  rcases execution.bind_cases with ⟨early, stopped, lifted⟩ | parts
  · cases early with
    | returned => cases lifted
    | cut => cases lifted
    | stopped reason => exact absurd rfl (finishable.not_stopped stopped.run reason)
  · exact parts

end Hardware

/-! ### Parts of the video output -/

theorem Idle.finishable_spin {command : Command} {accepted : command.Answer → Bool}
    (wait : IsWait command accepted) : (Idle.spin command accepted).Finishes := by
  have modify (change : Flags → Flags) :
      (Cpu.modifyStatus change >>= fun _ => pure ()).Finishes :=
    .step fun _ => .step fun _ => .done trivial
  refine (modify _).bind fun _ => ?_
  refine .bind (.await wait fun _ => .done trivial) fun {answer} _ => ?_
  exact (modify _).bind fun _ => .done trivial

theorem Sp.finishable_waitIdle : Sp.engine.waitIdle.Finishes :=
  (Idle.finishable_spin .idle).bind fun _ => .done trivial

theorem Sp.finishable_waitQueue (config : Config) : (Sp.engine.waitQueue config).Finishes := by
  unfold Engine.waitQueue
  split
  · exact (Idle.finishable_spin .slot).bind fun _ => .done trivial
  · exact Sp.finishable_waitIdle.bind fun _ => .done trivial

theorem Viewer.finishable_fill (slot : Nat) (words : List (List UInt8)) :
    (Viewer.fill slot words).Finishes := by
  induction words generalizing slot with
  | nil => exact .done trivial
  | cons word rest ih => exact .step fun _ => ih (slot + 1)

theorem LogRecord.finishable_emit (filter : LogFilter) (record : LogRecord) :
    (record.emit filter).Finishes := by
  unfold LogRecord.emit
  split
  · refine .forM _ fun piece _ => .forM _ fun bytes _ => ?_
    exact (Viewer.finishable_fill 0 _).bind fun _ => .write _ _
  · exact .done trivial

/-- A range of the data cache, wherever it starts, that leaves two lines of the address space. -/
theorem Cpu.finishable_cacheRange (operation : CacheOperation) (vaddr : UInt32) {len : UInt32}
    (short : len.toNat + 32 ≤ 2 ^ 32) :
    (Cpu.cacheRange operation vaddr len dataCacheLine).Finishes := by
  rw [Cpu.cacheRange_eq operation (k := 4) rfl (by decide) vaddr len
    (by show vaddr.toNat % 16 + len.toNat + 16 ≤ 2 ^ 32; omega)]
  exact .forM _ fun address _ => .perform _

/-- A transfer of one row between doublewords has a descriptor that starts. -/
theorem Sp.exists_finishable_start (mem : UInt32) {dram : PhysAddr} (bytes : UInt64)
    (direction : Direction) (nonempty : 0 < bytes.toNat) (short : bytes.toNat ≤ 4096)
    (memAligned : mem.toNat % 8 = 0) (dramAligned : dram.word.toNat % 8 = 0) :
    ∃ descriptor, Sp.linear mem dram bytes = .ok descriptor ∧
      (Sp.start descriptor direction).Finishes := by
  have positive : 1 ≤ bytes := UInt64.le_iff_toNat_le.2 nonempty
  have multiple {word : UInt32} (aligned : word.toNat % 8 = 0) : word % 8 = 0 := by
    rw [← UInt32.toNat_inj, UInt32.toNat_mod]
    exact aligned
  let row : RowLength := ⟨(bytes - 1).toUInt16, 0, 0⟩
  have built : Sp.linear mem dram bytes = .ok ⟨mem, dram, row⟩ := by
    rw [Sp.linear, RowLength.linear, Checked.subSize, if_pos positive]
    rfl
  -- a page has at most the bytes that the field of a row's length can count
  have narrow : row.copy.toNat < 2 ^ 12 := by
    rw [UInt64.toNat_toUInt16, UInt64.toNat_sub_of_le _ _ positive, UInt64.toNat_one]
    omega
  obtain ⟨word, packed, -⟩ := row.bits_of_lt narrow (show (0 : UInt16).toNat < 2 ^ 12 by decide)
  have aligned : dram.isAligned 8 = .ok true := by
    rw [PhysAddr.isAligned, Checked.rem, if_neg (by decide), multiple dramAligned]
    rfl
  have remainder : Checked.rem mem 8 = .ok 0 := by
    rw [Checked.rem, if_neg (by decide), multiple memAligned]
  have passes (requirement : Requirement) : requirement.check true = .ok () := rfl
  refine ⟨_, built, ?_⟩
  refine .ofExcept_bind remainder (.ofExcept_bind (passes .memOnDoubleword) ?_)
  refine .ofExcept_bind aligned (.ofExcept_bind (passes .dramOnDoubleword) ?_)
  refine (Finishable.write _ _).bind fun _ => (Finishable.write _ _).bind fun _ => ?_
  exact .ofExcept_bind packed (.write _ _)

/-! ### The video output -/

namespace Video

variable {config : Config} {video : Video}

theorem finishable_setClearColor (color : Color)
    (aligned : video.memory.staging.toNat % 16 = 0) : (video.setClearColor color).Finishes := by
  have place : (PhysAddr.ofAddress video.memory.staging).word.toNat % 8 = 0 := by
    rw [PhysAddr.toNat_ofAddress]
    omega
  obtain ⟨descriptor, built, start⟩ := Sp.exists_finishable_start patternPlace
    pageSize .fromRdram (by decide) (by decide) rfl place
  refine .bind (.perform (.fillStaging _ _)) fun _ => ?_
  refine .bind (Cpu.finishable_cacheRange .writeBackData _ (by decide)) fun _ => ?_
  refine .bind Sp.finishable_waitIdle fun _ => .ofExcept_bind built ?_
  exact start.bind fun _ => Sp.finishable_waitIdle.bind fun _ => .done trivial

theorem finishable_clearFramebuffer {index : Fin 2}
    (aligned : (video.memory.framebuffer index).toNat % 64 = 0) :
    (clearFramebuffer config video index).Finishes := by
  let base := PhysAddr.ofAddress (video.memory.framebuffer index)
  have chunks (chunk : ClearChunk) (member : chunk ∈ clearChunks) :
      (clearChunk config base chunk).Finishes := by
    obtain ⟨doubleword, nonempty, short, -⟩ := chunk_inside member
    have place : (base.offset chunk.offset.toUInt32).word.toNat % 8 = 0 := by
      rw [PhysAddr.offset, PhysAddr.toNat_ofAddress, UInt32.toNat_add, PhysAddr.toNat_ofAddress,
        UInt64.toNat_toUInt32]
      omega
    obtain ⟨descriptor, built, start⟩ := Sp.exists_finishable_start patternPlace
      chunk.len .toRdram nonempty short rfl place
    exact (Sp.finishable_waitQueue config).bind fun _ => .ofExcept_bind built start
  refine .bind (Cpu.finishable_cacheRange .invalidateData _ (by decide)) fun _ => ?_
  refine .bind (.forM clearChunks chunks) fun _ => ?_
  exact Sp.finishable_waitIdle.bind fun _ => .done trivial

theorem finishable_swapBuffers : video.swapBuffers.Finishable fun video' =>
    video' = { video with displaying := video.rendering } := by
  refine .bind (Cpu.finishable_cacheRange .writeBackData _ (by decide)) fun _ => ?_
  exact (Finishable.write _ _).bind fun _ => .done rfl

theorem finishable_writeTiming (platform : Platform) :
    (video.writeTiming platform.profile).Finishes := by
  obtain ⟨x, y, ctrl, eqX, eqY, eqCtrl, -⟩ := platform.exists_values
  iterate 11 refine (Finishable.write _ _).bind fun _ => ?_
  refine .ofExcept_bind eqX ((Finishable.write _ _).bind fun _ => ?_)
  refine .ofExcept_bind eqY ((Finishable.write _ _).bind fun _ => ?_)
  exact .ofExcept_bind eqCtrl (.write _ _)

section Sessions

variable {memory : FrameMemory} (aligned : memory.Aligned)

include aligned

theorem finishable_bringUp (platform : Platform) (color : Color) :
    (bringUp config memory platform color).Finishable fun video =>
      video = initial memory platform := by
  have clear (index : Fin 2) : (clearFramebuffer config ⟨memory, 0, platform⟩ index).Finishes :=
    finishable_clearFramebuffer (aligned.frames index)
  refine .bind (.write _ _) fun _ => .bind (.perform (.setFence false)) fun _ => ?_
  refine .bind (finishable_setClearColor color aligned.staging) fun _ => ?_
  refine (clear 0).bind fun _ => (clear 1).bind fun _ => ?_
  refine .bind (LogRecord.finishable_emit _ _) fun _ => ?_
  exact (finishable_writeTiming platform).bind fun _ => .done rfl

theorem finishable_operation (eq : video.memory = memory) (operation : Operation) :
    (operation.program config video).Finishable fun video' => video' = operation.next video := by
  subst eq
  cases operation with
  | clear =>
    exact (finishable_clearFramebuffer (aligned.frames _)).bind fun _ => .done rfl
  | draw function =>
    refine .bind (.perform (.loadFrame video.target)) fun {before} _ => ?_
    exact .bind (.perform (.storePixels video.target (function before))) fun _ => .done rfl
  | setColor color =>
    refine .bind (finishable_setClearColor color aligned.staging) fun _ => ?_
    exact .done rfl
  | swap => exact finishable_swapBuffers
  | wait => exact (Idle.finishable_spin .fence).bind fun _ => .done rfl
  | finish => exact .bind (.perform (.setFence false)) fun _ => .done rfl
  | look => exact .bind (.perform .getFence) fun _ => .done rfl
  | signal =>
    exact .bind (.bind (.perform (.setFence true)) fun _ => .write _ _) fun _ => .done rfl

theorem finishable_perform (operations : List Operation) (eq : video.memory = memory) :
    (perform config operations video).Finishable fun video' =>
      video' = video.behind operations := by
  induction operations generalizing video with
  | nil => exact .done rfl
  | cons operation rest ih =>
    refine (finishable_operation aligned eq operation).bind fun {video'} next => ?_
    subst next
    exact ih ((operation.next_memory video).trans eq)

/-- **Sessions are finishable** when frame memory is aligned, wherever it lies. -/
theorem finishable_session (platform : Platform) (color : Color) (operations : List Operation) :
    (session config memory platform color operations).Finishable fun video =>
      video = (initial memory platform).behind operations := by
  refine (finishable_bringUp aligned platform color).bind fun {video} eq => ?_
  subst eq
  exact finishable_perform aligned operations rfl

end Sessions

end Video

/-! ### The console -/

theorem Beacon.finishable_mark (config : Config) (stage : BootStage) :
    (Beacon.mark config stage).Finishes := by
  unfold Beacon.mark
  split
  · exact (Finishable.write _ _).bind fun _ => .write _ _
  · exact .done trivial

theorem Platform.finishable_detect (config : Config) (params : BootParams) :
    (Platform.detect config params).Finishes := by
  unfold Platform.detect
  cases config.pinnedPlatform with
  | some platform => exact .done trivial
  | none =>
    cases Platform.ofTvType params.tvType with
    | ok platform => exact .done trivial
    | error error => exact (LogRecord.finishable_emit _ _).bind fun _ => .done trivial

theorem BootParams.finishable_read : BootParams.read.Finishes := by
  have look (register : Register) : (Program.read register).Finishes := .perform _
  iterate 6 refine (look _).bind fun _ => ?_
  exact .done trivial

theorem Trampoline.finishable_install (config : Config) (trampoline : Trampoline)
    (slot : VectorSlot) : (trampoline.install config slot).Finishes :=
  .step fun _ => .step fun _ => LogRecord.finishable_emit _ _

theorem Interrupts.finishable_install (config : Config) (interrupts : Interrupts .uninstalled)
    (trampoline : Trampoline) (slot : VectorSlot) :
    (interrupts.install config trampoline slot).Finishes := by
  have mask : Cpu.disableInterrupts.Finishes := .step fun _ => .step fun _ => .done trivial
  refine mask.bind fun _ => (Finishable.write _ _).bind fun _ => ?_
  exact (trampoline.finishable_install config slot).bind fun _ => .done trivial

theorem Interrupts.finishable_armVideo (config : Config) (interrupts : Interrupts .installed) :
    (interrupts.armVideo config).Finishes := by
  have arm : (Cpu.modifyStatus armedStatus).Finishes :=
    .step fun _ => .step fun _ => .done trivial
  refine (Finishable.write _ _).bind fun _ => arm.bind fun _ => ?_
  exact (LogRecord.finishable_emit _ _).bind fun _ => .done trivial

namespace Console

variable {memory : FrameMemory} (aligned : memory.Aligned) {config : Config}

include aligned

/-- The boot is finishable. -/
theorem finishable_boot (slot : VectorSlot) (entry : Trampoline) (color : Color) :
    (boot config memory slot entry color).Finishable fun console =>
      console.video.memory = memory := by
  refine .bind (Beacon.finishable_mark _ _) fun _ => ?_
  refine .bind (Interrupts.finishable_install _ _ _ _) fun _ => ?_
  refine .bind (Beacon.finishable_mark _ _) fun _ => ?_
  refine .bind BootParams.finishable_read fun _ => ?_
  refine .bind (Platform.finishable_detect _ _) fun _ => ?_
  refine .bind (LogRecord.finishable_emit _ _) fun _ => ?_
  refine .bind (Video.finishable_bringUp aligned _ color) fun {video} eq => ?_
  subst eq
  refine .bind (Beacon.finishable_mark _ _) fun _ => ?_
  refine .bind (Interrupts.finishable_armVideo _ _) fun _ => ?_
  exact .bind (Beacon.finishable_mark _ _) fun _ => .done rfl

variable {ρ σ : Type} {console : Console}

/-- A frame is finishable if its draw function comes back. -/
theorem finishable_frame_keeping {function : DrawFunction ρ} {next : ρ → Prop}
    (returns : ∀ before number, ∃ drawing result,
      function before number = .ok (drawing, result) ∧ next result)
    (eq : console.video.memory = memory) :
    (console.frame config function).Finishable fun result =>
      result.1.video.memory = memory ∧ next result.2 := by
  subst eq
  refine .bind (Video.finishable_clearFramebuffer (aligned.frames _)) fun _ => ?_
  have drawn : (Console.draw function console.video.target console.frameCount).Finishable next := by
    refine .bind (.perform (.loadFrame _)) fun {before} _ => ?_
    obtain ⟨drawing, result, eq, member⟩ := returns before console.frameCount
    rw [eq]
    exact .bind (.perform (.storePixels _ drawing)) fun _ => .done member
  have waited : Video.vblankWait.Finishes :=
    (Idle.finishable_spin .fence).bind fun _ => .done trivial
  refine drawn.bind fun member => waited.bind fun _ => ?_
  refine .bind Video.finishable_swapBuffers fun {video} eq => ?_
  subst eq
  exact .bind (.perform (.setFence false)) fun _ => .done ⟨rfl, member⟩

/-- So are any number of frames, where each draw function leads on to one that comes back. -/
theorem finishable_frames_keeping {function : σ → DrawFunction σ} {invariant : σ → Prop}
    (returns : ∀ state, invariant state → ∀ before number, ∃ drawing result,
      function state before number = .ok (drawing, result) ∧ invariant result) (count : Nat)
    {state : σ} (start : invariant state) (eq : console.video.memory = memory) :
    (frames config function count console state).Finishes := by
  induction count generalizing console state with
  | zero => exact .done trivial
  | succ count ih =>
    refine .bind (finishable_frame_keeping aligned (returns state start) eq) fun {result} kept => ?_
    exact ih kept.2 kept.1

theorem finishable_frame {function : DrawFunction ρ}
    (returns : ∀ before number, ∃ drawing result, function before number = .ok (drawing, result))
    (eq : console.video.memory = memory) :
    (console.frame config function).Finishable fun result =>
      result.1.video.memory = memory := by
  have returns (before : Framebuffer) (number : UInt32) : ∃ drawing result,
      function before number = .ok (drawing, result) ∧ True := by
    obtain ⟨drawing, result, eq⟩ := returns before number
    exact ⟨drawing, result, eq, trivial⟩
  exact (finishable_frame_keeping aligned returns eq).mono fun _ kept => kept.1

theorem finishable_frames {function : σ → DrawFunction σ}
    (returns : ∀ state before number, ∃ drawing result,
      function state before number = .ok (drawing, result)) (count : Nat) (state : σ)
    (eq : console.video.memory = memory) :
    (frames config function count console state).Finishes := by
  have returns (state : σ) (_ : True) (before : Framebuffer) (number : UInt32) :
      ∃ drawing result, function state before number = .ok (drawing, result) ∧ True := by
    obtain ⟨drawing, result, eq⟩ := returns state before number
    exact ⟨drawing, result, eq, trivial⟩
  exact finishable_frames_keeping aligned returns count trivial eq

/-- So is the loop, as far as one goes. -/
theorem finishable_run {function : σ → DrawFunction σ}
    (returns : ∀ state before number, ∃ drawing result,
      function state before number = .ok (drawing, result)) (state : σ) (count : Nat)
    (eq : console.video.memory = memory) :
    (run config console function state count).Finishes :=
  (Beacon.finishable_mark config .loop).bind fun _ =>
    finishable_frames aligned returns count state eq

end Console

end ColdBoot
