import ColdBoot.Proofs.ClearFill
import ColdBoot.Proofs.QueueRoom

/-! # Double buffering

What is displayed stays as it is until the swap that replaces it. Only two things are needed for it:
the two framebuffers share no byte, and no transfer is outstanding between two operations. Where the
staging page lies does not matter, and nothing is asked of the board before the video output is
brought up.

* **`Video.Confined`** – work that keeps to the rendered framebuffer and to the staging page;
* **`Video.DoubleBuffered`** – which framebuffer is which behind a session, and that every operation
  which comes next is confined;
* **`Video.session_double_buffers`** – every session is double buffered. -/

namespace ColdBoot

open Hardware MemoryPath

/-! ### Stores of the processor -/

namespace Command

/-- Pixels are stored in a region only. -/
def DrawsIn (region : Nat → Prop) : Command → Prop
  | .storePixels vaddr drawing => ∀ store ∈ Drawing.stores drawing (placeOf vaddr), region store.1
  | _ => True

/-- Besides looking at memory, maintaining the cache and what is aside, only bytes of a region are
stored. -/
def StoresIn (region : Nat → Prop) : Command → Prop
  | .storePixels vaddr drawing => ∀ store ∈ Drawing.stores drawing (placeOf vaddr), region store.1
  | .fillStaging vaddr color => ∀ store ∈ color.pageStores (placeOf vaddr), region store.1
  | .storeDoubleword vaddr word => ∀ store ∈ doublewordStores word (placeOf vaddr), region store.1
  | .write register _ => register.block ≠ .sp ∧ register ≠ ViRegister.origin
  | _ => True

variable {region : Nat → Prop} {command : Command}

theorem IsAside.storesIn (h : command.IsAside) : command.StoresIn region := by
  cases command with
  | write register value => exact h
  | storeDoubleword | storePixels | fillStaging => exact h.elim
  | _ => trivial

theorem IsAside.drawsIn (h : command.IsAside) : command.DrawsIn region := by
  cases command with
  | storePixels => exact h.elim
  | _ => trivial

theorem IsCache.storesIn (h : command.IsCache) : command.StoresIn region := by
  cases command with
  | cache => trivial
  | _ => exact h.elim

theorem IsCache.drawsIn (h : command.IsCache) : command.DrawsIn region := by
  cases command with
  | cache => trivial
  | _ => exact h.elim

end Command

namespace Board

variable {region foreign : Nat → Prop} {before : Memory Unit} {calm : TransferEngine → Prop}
  {known : Bytes → List Transfer → UInt32 → Prop} {claim : Board Unit → Prop}

/-- Without a cache, nothing but stores in the region changes memory outside of it. -/
theorem keeps_storesIn (calms : Calm foreign calm known) (covers : ∀ a, foreign a → region a)
    (holds : ∀ ⦃s⦄, Beside calm (directPath.Elsewhere region before) known s → claim s) :
    (hardware directPath).Keeps (.always claim) (Command.StoresIn region)
      (Beside calm (directPath.Elsewhere region before) known) := by
  have sound := beside_sound directPath_lawful calms (.elsewhere before covers) holds
  have stored {s t : Board Unit} {stores : List (Nat × UInt8)}
      (inside : ∀ store ∈ stores, region store.1)
      (h : Beside calm (directPath.Elsewhere region before) known s)
      (responded : Stores directPath s stores t) :
      Beside calm (directPath.Elsewhere region before) known t := by
    let invariant (stores : List (Nat × UInt8)) (s : Board Unit) : Prop :=
      Beside calm (directPath.Elsewhere region before) known s ∧ ∀ store ∈ stores, region store.1
    have stable (stores : List (Nat × UInt8)) : (hardware directPath).Stable (invariant stores) :=
      sound.stable.and fun _ _ _ h => h
    refine (responded.induct invariant stable ?_ ⟨h, inside⟩).1
    rintro store stores s memory ⟨h, inside⟩ changed
    rw [List.forall_mem_cons] at inside
    refine ⟨⟨h.queue, ?_, h.known⟩, inside.2⟩
    exact elsewhere_store directPath_lawful (fun b same => same ▸ inside.1) changed h.fact
  refine ⟨sound, fun s command member h => holds h, ?_⟩
  intro s command answer t member h responded
  have aside (quiet : command.IsAside) :
      Beside calm (directPath.Elsewhere region before) known t := by
    rw [eq_of_isAside quiet responded]
    exact h
  cases command with
  | cache operation vaddr =>
    obtain ⟨memory, same, rfl⟩ := responded
    obtain rfl : memory = s.memory := same
    exact h
  | loadFrame vaddr =>
    refine Loads.induct responded _ (fun _ => sound.stable) ?_ h
    rintro load loads s memory h ⟨-, rfl⟩
    exact h
  | storeDoubleword vaddr word => exact stored member h (stores_of_storeDoubleword responded)
  | storePixels vaddr drawing => exact stored member h responded
  | fillStaging vaddr color => exact stored member h responded
  | write register value => exact aside member
  | _ => exact aside trivial

end Board

namespace Video

open Board

/-! ### Confined work -/

/-- From one board to another, transfers into RDRAM were started for bytes of the rendered
framebuffer only, and all that has changed in RDRAM is that framebuffer and the staging page. -/
structure Confined (video : Video) (s t : Board Unit) : Prop where
  starts : ∃ new, t.engine.started = s.engine.started ++ new ∧
    ∀ transfer ∈ new, transfer.direction = .toRdram → ∀ byte ∈ transfer.bytes,
      video.memory.InFrame video.rendering byte.dram
  kept : ∀ a, ¬ video.memory.InFrame video.rendering a → ¬ video.memory.InStaging a →
    t.memory.rdram a = s.memory.rdram a

/-- No transfer is outstanding, and the displayed framebuffer is shown. -/
structure Shown (video : Video) (s : Board Unit) : Prop where
  idle : s.engine.queue = []
  origin : s.origin = (PhysAddr.ofAddress (video.memory.framebuffer video.displaying)).word

/-- What is known of the started transfers and the shown place in the course of an operation. -/
def OnRecord (video : Video) (s : Board Unit) (origin : UInt32) :
    Bytes → List Transfer → UInt32 → Prop :=
  fun _ started origin' => (∃ new, started = s.engine.started ++ new ∧
    ∀ transfer ∈ new, transfer.direction = .toRdram → ∀ byte ∈ transfer.bytes,
      video.memory.InFrame video.rendering byte.dram) ∧ origin' = origin

/-- Bytes that an operation may change. -/
def Workplace (video : Video) (a : Nat) : Prop :=
  video.memory.InFrame video.rendering a ∨ video.memory.InStaging a

/-- Transfers into RDRAM are outstanding for bytes of the rendered framebuffer only. -/
def Clears (video : Video) (engine : TransferEngine) : Prop :=
  ∀ byte, engine.Pending .toRdram byte → video.memory.InFrame video.rendering byte.dram

section Operations

variable {video : Video} {config : Config} {s t : Board Unit} {origin : UInt32}
  {calm : TransferEngine → Prop}

/-- In the course of an operation. -/
abbrev AtWork (video : Video) (s : Board Unit) (origin : UInt32) (calm : TransferEngine → Prop) :
    Board Unit → Prop :=
  Beside calm (directPath.Elsewhere video.Workplace s.memory) (video.OnRecord s origin)

/-- In the course of an operation, while the engine is idle. -/
abbrev Paused (video : Video) (s : Board Unit) (origin : UInt32) : Board Unit → Prop :=
  AtWork video s origin fun engine => engine.queue = []

theorem AtWork.confined ⦃t : Board Unit⦄ (h : AtWork video s origin calm t) :
    video.Confined s t where
  starts := h.known.1
  kept a frame staging := h.fact.due a (by rintro (inside | inside) <;> contradiction)

/-- An engine that clears goes on doing so. -/
theorem calm_clears (video : Video) (s : Board Unit) (origin : UInt32) :
    Calm (video.memory.InFrame video.rendering) video.Clears (video.OnRecord s origin) where
  stays _ _ _ _ moved clears byte left := clears byte (moved.copies.1 _ byte left)
  known _ _ _ _ _ moved _ h := by
    rw [moved.started]
    exact h
  writes _ _ _ _ moved clears := by
    rcases moved.copies.2 with ⟨_, _, same, -⟩ | ⟨byte, out, -, stored, -⟩ | ⟨-, same, -⟩
    · exact .inl same
    · exact .inr ⟨byte.dram, _, clears byte out, stored⟩
    · exact .inl same

/-- An idle engine clears nothing. -/
theorem Paused.clears ⦃t : Board Unit⦄ (h : Paused video s origin t) :
    AtWork video s origin video.Clears t :=
  ⟨fun _ pending => absurd pending (TransferEngine.not_pending h.queue), h.fact, h.known⟩

theorem Shown.paused (shown : video.Shown s) ⦃s' : Board Unit⦄ (eq : s' = s) :
    Paused video s s.origin s' := by
  subst eq
  exact ⟨shown.idle, .refl s'.memory, ⟨[], (List.append_nil _).symm, nofun⟩, rfl⟩

variable (video s origin) in
/-- Stores at work, whatever the engine does meanwhile. -/
theorem keeps_atWork : (hardware directPath).Keeps (.always (video.Confined s))
    (Command.StoresIn video.Workplace) (AtWork video s origin video.Clears) :=
  keeps_storesIn (calm_clears video s origin) (fun _ => .inl) AtWork.confined

variable (video s origin) in
/-- Stores at work beside an idle engine. -/
theorem keeps_paused : (hardware directPath).Keeps (.always (video.Confined s))
    (Command.StoresIn video.Workplace) (Paused video s origin) :=
  keeps_storesIn (.idle _) (fun _ => False.elim) AtWork.confined

/-- Waiting for the engine leaves it idle. -/
theorem ensures_waitIdle_atWork : (hardware directPath).Ensures (.always (video.Confined s))
    (AtWork video s origin video.Clears) Sp.engine.waitIdle fun _ => Paused video s origin := by
  refine (ensures_waitIdle (keeps_atWork video s origin).toSound).mono (fun _ h => h) ?_
  rintro _ t ⟨h, idle⟩
  exact ⟨idle, h.fact, h.known⟩

/-- A start that finds room, of a transfer that goes to the rendered framebuffer if it goes to RDRAM
at all. -/
theorem ensures_start_atWork {mem : UInt32} {dram : PhysAddr} {bytes : UInt64}
    {descriptor : SpDescriptor} {direction : Direction} {before : Board Unit → Prop}
    (built : Sp.linear mem dram bytes = .ok descriptor) (short : bytes.toNat ≤ 2 ^ 16)
    (target : direction = .toRdram → ∀ i < bytes.toNat,
      video.memory.InFrame video.rendering (dram.word.toNat + i)) {n : Nat} (room : n ≤ 1)
    (few : ∀ ⦃t⦄, before t → AtWork video s origin video.Clears t ∧ t.outstanding ≤ n) :
    (hardware directPath).Ensures (.always (video.Confined s)) before
      (Sp.start descriptor direction) fun _ => AtWork video s origin video.Clears := by
  have sound := (keeps_atWork video s origin).toSound
  have bounded := (queueLaws directPath).keeps_and_le (keeps_aside sound) n
  refine Ensures.of_imp (ensures_start built short bounded.toSound sound ?_ ?_ ?_) few
  · rintro t memAddr dramAddr ⟨h, few⟩
    exact ⟨⟨h.queue, h.fact, h.known⟩, few⟩
  · rintro t ⟨-, few⟩
    omega
  · rintro t ⟨h, -⟩
    have inside (eq : direction = .toRdram) (byte : PendingByte) (member : byte ∈
        (Transfer.linear direction mem.toNat dram.word.toNat bytes.toNat).bytes) :
        video.memory.InFrame video.rendering byte.dram := by
      obtain ⟨i, lt, rfl⟩ := Transfer.mem_linear.1 member
      exact target eq i lt
    refine ⟨fun byte pending => ?_, h.fact, ?_, h.known.2⟩
    · rcases (pending_push _ _ _ _).1 pending with old | ⟨eq, member⟩
      · exact h.queue byte old
      · exact inside eq byte member
    · obtain ⟨new, started, confined⟩ := h.known.1
      refine ⟨new ++ [.linear direction mem.toNat dram.word.toNat bytes.toNat], ?_, ?_⟩
      · show t.engine.started ++ _ = _
        rw [started, List.append_assoc]
      · intro transfer member
        rcases List.mem_append.1 member with old | same
        · exact confined transfer old
        · obtain rfl := List.mem_singleton.1 same
          exact inside

/-! ### The operations are confined -/

section Confinement

variable (shown : video.Shown s)

include shown

theorem ensures_setClearColor_confined (color : Color) :
    (hardware directPath).Ensures (.always (video.Confined s)) (fun s' => s' = s)
      (video.setClearColor color) fun _ => Paused video s s.origin := by
  have quiet := keeps_atWork video s s.origin
  have idle := (keeps_paused video s s.origin).toSound
  have fill : (Command.fillStaging video.memory.staging color).StoresIn video.Workplace := by
    intro store member
    obtain ⟨k, lt, rfl⟩ := Color.mem_pageStores.1 member
    exact .inr (FrameMemory.inStaging_add lt)
  -- the processor fills its page and the engine reads it, so neither comes near a framebuffer
  refine Ensures.of_imp ?_ fun s' eq => (shown.paused eq).clears
  refine .bind (quiet.ensures (.perform _ fill)) fun _ => ?_
  refine .bind (quiet.ensures ((Cpu.accesses_writeBackRange _ _).mono
    fun _ => Command.IsCache.storesIn)) fun _ => ?_
  refine .bind ensures_waitIdle_atWork fun _ => .ofExcept_bind idle fun descriptor built => ?_
  refine .via (fun _ => AtWork video s s.origin video.Clears)
    (ensures_start_atWork built (by decide) nofun (Nat.zero_le 1) ?_) fun _ => ?_
  · exact fun t h => ⟨h.clears, Nat.le_of_eq (congrArg List.length h.queue)⟩
  · exact .bind ensures_waitIdle_atWork fun _ => .done idle fun _ h => h

theorem ensures_clearTarget_confined
    (fits : video.memory.place video.rendering + Framebuffer.byteSize.toNat ≤ 2 ^ 29) :
    (hardware directPath).Ensures (.always (video.Confined s)) (fun s' => s' = s)
      (video.clearTarget config) fun _ => Paused video s s.origin := by
  have quiet := keeps_atWork video s s.origin
  have idle := (keeps_paused video s s.origin).toSound
  have chunk (chunk : ClearChunk) (member : chunk ∈ clearChunks) :
      (hardware directPath).Ensures (.always (video.Confined s))
        (AtWork video s s.origin video.Clears)
        (clearChunk config (.ofAddress (video.memory.framebuffer video.rendering)) chunk)
        fun _ => AtWork video s s.origin video.Clears := by
    obtain ⟨-, nonempty, short, inside⟩ := chunk_inside member
    have aside := keeps_aside quiet.toSound
    refine .bind ((queueLaws directPath).ensures_waitQueue aside config) fun _ => ?_
    have waited := (queueLaws directPath).keeps_and_le aside (QueueLaws.room config)
    refine .ofExcept_bind waited.toSound fun descriptor built => ?_
    refine ensures_start_atWork (n := QueueLaws.room config) built
      (Nat.le_trans short (by decide)) ?_ ?_ fun t h => h
    · -- a chunk does not leave the framebuffer, and its place does not go round
      intro _ i lt
      rw [toNat_offset_chunk fits member, Nat.add_assoc]
      exact FrameMemory.inFrame_add (by omega)
    · unfold QueueLaws.room
      split <;> decide
  refine Ensures.of_imp ?_ fun s' eq => (shown.paused eq).clears
  refine .bind (quiet.ensures ((Cpu.accesses_invalidateDataRange _ _).mono
    fun _ => Command.IsCache.storesIn)) fun _ => ?_
  refine .via (fun _ => AtWork video s s.origin video.Clears) ?_ fun _ => ?_
  · exact .forM (fun _ => AtWork video s s.origin video.Clears) clearChunks quiet.toSound
      fun item rest suffix => chunk item (suffix.subset List.mem_cons_self)
  · exact .bind ensures_waitIdle_atWork fun _ => .done idle fun _ h => h

/-- **An operation** is confined and leaves the framebuffer shown that is displayed behind it. -/
theorem ensures_operation_confined (apart : video.memory.FramesApart) (operation : Operation) :
    (hardware directPath).Ensures (.always (video.Confined s)) (fun s' => s' = s)
      (operation.program config video) fun video' t =>
        video' = operation.next video ∧ (operation.next video).Shown t := by
  have idle := keeps_paused video s s.origin
  -- work that ends with an idle engine leaves shown what was shown
  have same {program : Program Unit} {next : Video} (eq : next.memory = video.memory)
      (displaying : next.displaying = video.displaying)
      (h : (hardware directPath).Ensures (.always (video.Confined s)) (fun s' => s' = s) program
        fun _ => Paused video s s.origin) :
      (hardware directPath).Ensures (.always (video.Confined s)) (fun s' => s' = s)
        (program >>= fun _ => .done next) fun video' t => video' = next ∧ next.Shown t := by
    refine .bind h fun _ => .done idle.toSound fun t h => ⟨rfl, h.queue, ?_⟩
    rw [h.known.2, shown.origin, eq, displaying]
  have aside {program : Program Unit} (h : program.Accesses (Command.StoresIn video.Workplace)) :
      (hardware directPath).Ensures (.always (video.Confined s)) (fun s' => s' = s) program
        fun _ => Paused video s s.origin :=
    (idle.ensures h).of_imp fun s' eq => shown.paused eq
  have quietly {operation : Operation} (h : operation.IsAside) :
      (hardware directPath).Ensures (.always (video.Confined s)) (fun s' => s' = s)
        (operation.program config video) fun video' t =>
          video' = operation.next video ∧ (operation.next video).Shown t := by
    obtain ⟨part, quiet, eq⟩ := h.exists_part config video
    rw [eq, h.next_eq]
    exact same rfl rfl (aside (quiet.mono fun _ => Command.IsAside.storesIn))
  cases operation with
  | clear => exact same rfl rfl (ensures_clearTarget_confined shown (apart.fits _))
  | setColor color => exact same rfl rfl (ensures_setClearColor_confined shown color)
  | draw function =>
    refine .via (fun _ => Paused video s s.origin) ?_ fun fb => ?_
    · exact (idle.ensures (.perform (.loadFrame video.target) trivial)).of_imp
        fun s' eq => shown.paused eq
    · have stores : (Command.storePixels video.target (function fb)).StoresIn video.Workplace :=
        fun store member => .inl (Drawing.mem_stores member)
      refine .bind (idle.ensures (.perform _ stores)) fun _ => ?_
      exact .done idle.toSound fun t h => ⟨rfl, h.queue, h.known.2.trans shown.origin⟩
  | swap =>
    -- the place that is shown changes in the middle, so the two halves have different invariants
    let next := (PhysAddr.ofAddress (video.memory.framebuffer video.rendering)).word
    have behind := (keeps_paused video s next).toSound
    refine .bind (aside ((Cpu.accesses_writeBackRange _ _).mono
      fun _ => Command.IsCache.storesIn)) fun _ => ?_
    refine .bind (ensures_writeOrigin next idle.toSound behind
      fun _ _ _ h => ⟨h.1, rfl⟩) fun _ => ?_
    exact .done behind fun t h => ⟨rfl, h.queue, h.known.2⟩
  | wait | finish | look | signal => exact quietly trivial

end Confinement

/-! ### Pixels are stored into the rendered framebuffer -/

theorem accesses_start_drawsIn {region : Nat → Prop} (descriptor : SpDescriptor)
    (direction : Direction) :
    (Sp.start descriptor direction).Accesses (Command.DrawsIn region) := by
  refine (Program.accesses_ofExcept _).bind fun _ => (Program.accesses_ofExcept _).bind fun _ => ?_
  refine (Program.accesses_ofExcept _).bind fun _ => (Program.accesses_ofExcept _).bind fun _ => ?_
  refine .bind (.write trivial) fun _ => .bind (.write trivial) fun _ => ?_
  exact (Program.accesses_ofExcept _).bind fun _ => .write trivial

theorem accesses_waitIdle_drawsIn {region : Nat → Prop} :
    Sp.engine.waitIdle.Accesses (Command.DrawsIn region) :=
  .bind ((Idle.accesses_spin (Command.isAside_read _)).mono fun _ => Command.IsAside.drawsIn)
    fun _ => .done _

theorem accesses_waitQueue_drawsIn {region : Nat → Prop} :
    (Sp.engine.waitQueue config).Accesses (Command.DrawsIn region) := by
  unfold Engine.waitQueue
  split
  · exact .bind ((Idle.accesses_spin (Command.isAside_read _)).mono
      fun _ => Command.IsAside.drawsIn) fun _ => .done _
  · exact .bind accesses_waitIdle_drawsIn fun _ => .done _

/-- No operation stores a pixel anywhere else. -/
theorem Operation.accesses_drawsIn (video : Video) (operation : Operation) :
    (operation.program config video).Accesses
      (Command.DrawsIn (video.memory.InFrame video.rendering)) := by
  have cache {program : Program Unit} (h : program.Accesses Command.IsCache) :
      program.Accesses (Command.DrawsIn (video.memory.InFrame video.rendering)) :=
    h.mono fun _ => Command.IsCache.drawsIn
  have quietly {operation : Operation} (h : operation.IsAside) :
      (operation.program config video).Accesses
        (Command.DrawsIn (video.memory.InFrame video.rendering)) := by
    obtain ⟨part, quiet, eq⟩ := h.exists_part config video
    rw [eq]
    exact (quiet.mono fun _ => Command.IsAside.drawsIn).bind fun _ => .done _
  cases operation with
  | clear =>
    refine .bind (.bind (cache (Cpu.accesses_invalidateDataRange _ _)) fun _ => ?_)
      fun _ => .done _
    refine .bind (Program.accesses_forM _ fun chunk _ => ?_) fun _ =>
      accesses_waitIdle_drawsIn.bind fun _ => .done _
    exact accesses_waitQueue_drawsIn.bind fun _ =>
      (Program.accesses_ofExcept _).bind fun _ => accesses_start_drawsIn _ _
  | draw function =>
    refine .bind (.perform (.loadFrame video.target) trivial) fun fb => ?_
    refine .bind (.perform (.storePixels video.target (function fb)) ?_) fun _ => .done _
    exact fun store member => Drawing.mem_stores member
  | setColor color =>
    refine .bind ?_ fun _ => .done _
    refine .bind (.perform (.fillStaging _ color) trivial) fun _ => ?_
    refine (cache (Cpu.accesses_writeBackRange _ _)).bind fun _ => ?_
    refine accesses_waitIdle_drawsIn.bind fun _ => (Program.accesses_ofExcept _).bind fun _ => ?_
    exact (accesses_start_drawsIn _ _).bind fun _ =>
      accesses_waitIdle_drawsIn.bind fun _ => .done _
  | swap =>
    exact (cache (Cpu.accesses_writeBackRange _ _)).bind fun _ =>
      .bind (.write trivial) fun _ => .done _
  | wait | finish | look | signal => exact quietly trivial

end Operations

/-! ### Sessions -/

section Sessions

variable {memory : FrameMemory} {config : Config} {platform : Platform} {color : Color}

/-- Bringing the video output up ends with the first framebuffer shown. -/
theorem ensures_bringUp_shown (s : Board Unit) :
    (hardware directPath).Ensures .none (fun s' => s' = s)
      (bringUp config memory platform color) fun video t =>
        video = initial memory platform ∧ (initial memory platform).Shown t := by
  let shown := (PhysAddr.ofAddress (memory.framebuffer 0)).word
  have sound : (hardware directPath).Sound .none fun s : Board Unit => s.origin = shown := by
    refine ⟨fun s t moved h => ?_, fun _ _ => trivial⟩
    cases moved <;> exact h
  -- whatever comes before the timing registers, their first one is the shown place
  have origin : (hardware directPath).Ensures .none (fun _ => True)
      (bringUp config memory platform color) fun _ t => t.origin = shown := by
    iterate 6 refine .bind .anything fun _ => ?_
    refine .bind ?_ fun _ => .done sound fun _ h => h
    obtain ⟨rest, aside, eq⟩ := accesses_writeTiming_rest ⟨memory, 0, platform⟩ platform.profile
    rw [eq]
    refine .via (fun _ (s : Board Unit) => s.origin = shown) ?_ fun _ =>
      (keeps_aside sound).ensures aside
    refine .perform ⟨fun _ _ _ h => h, fun _ _ => trivial⟩ (fun _ => sound) (fun _ _ => trivial) ?_
    rintro s answer t - rfl
    rfl
  refine (origin.and (bringUp_keeps_room (queueLaws directPath) memory platform color
    s.outstanding)).mono ?_ ?_
  · rintro s' rfl
    exact ⟨trivial, Nat.le_refl _⟩
  · rintro video t ⟨origin, rfl, drained⟩
    exact ⟨rfl, List.length_eq_zero_iff.1 (Nat.le_zero.1 drained), origin⟩

/-- The displayed framebuffer is the same on two boards, but for bytes that the staging page has
too, if the two are not apart. -/
def SamePicture (video : Video) (s t : Board Unit) : Prop :=
  ∀ a, video.memory.InFrame video.displaying a → ¬ video.memory.InStaging a →
    t.memory.rdram a = s.memory.rdram a

/-- Confined work does not touch the displayed framebuffer. -/
theorem Confined.samePicture {video : Video} (apart : video.memory.FramesApart) {s t : Board Unit}
    (h : video.Confined s t) : video.SamePicture s t :=
  fun a inside staging => h.kept a (apart.of_ne video.rendering_ne.symm inside) staging

/-- Between two operations the displayed picture stays. -/
theorem sound_samePicture (video next : Video) (s : Board Unit) :
    (hardware directPath).Sound (.always (video.SamePicture s)) fun t =>
      next.Shown t ∧ video.SamePicture s t := by
  refine ⟨fun t t' moved h => ?_, fun _ h => h.2⟩
  cases moved with
  | engine moved => exact absurd h.1.idle moved.not_idle
  | memory moved => exact moved.elim

/-- An operation does not touch the picture that is displayed at its start. -/
theorem ensures_operation_samePicture {video : Video} (apart : video.memory.FramesApart)
    (operation : Operation) (s : Board Unit) :
    (hardware directPath).Ensures (.always (video.SamePicture s))
      (fun t => video.Shown t ∧ video.SamePicture s t) (operation.program config video)
      fun video' t => video' = operation.next video ∧
        (operation.next video).Shown t ∧ video.SamePicture s t := by
  refine .of_each fun t start => ?_
  have work {t' : Board Unit} (h : video.Confined t t') : video.SamePicture s t' :=
    fun a inside staging => (h.samePicture apart a inside staging).trans (start.2 a inside staging)
  refine ((ensures_operation_confined start.1 apart operation).and_state.guard_mono
    (.always (video.SamePicture s)) (fun _ _ => work) fun _ => work).mono
    (fun _ h => h) ?_
  rintro video' t' ⟨⟨rfl, shown⟩, confined⟩
  exact ⟨rfl, shown, work confined⟩

/-- Up to the next swap, and through it, the displayed picture stays. -/
theorem ensures_samePicture {video : Video} (apart : video.memory.FramesApart)
    {operations : List Operation} (noSwap : .swap ∉ operations) (s : Board Unit) :
    (hardware directPath).Ensures (.always (video.SamePicture s))
      (fun t => video.Shown t ∧ video.SamePicture s t)
      (perform config (operations ++ [.swap]) video) fun video' t =>
        video' = Operation.swap.next video ∧ video'.Shown t ∧ video.SamePicture s t := by
  -- only the swap at the end changes which framebuffer is displayed
  induction operations with
  | nil =>
    refine .bind (ensures_operation_samePicture apart .swap s) fun video' => .of_fact ?_
    rintro rfl
    exact .done (sound_samePicture video _ s) fun t h => ⟨rfl, h⟩
  | cons operation rest ih =>
    rw [List.mem_cons, not_or] at noSwap
    refine .bind (ensures_operation_samePicture apart operation s) fun video' => .of_fact ?_
    rintro rfl
    rw [Operation.next_of_ne_swap (Ne.symm noSwap.1)]
    exact ih noSwap.2

/-- **Double buffering** behind a session, and in whatever comes next. -/
structure DoubleBuffered (config : Config) (video : Video) (s : Board Unit) : Prop where
  /-- One framebuffer is displayed, and the other one is rendered. -/
  indices : (video.displaying.val = 0 ∨ video.displaying.val = 1) ∧
    video.rendering.val = 1 - video.displaying.val
  /-- The video interface shows the displayed framebuffer. -/
  origin : s.origin = (PhysAddr.ofAddress (video.memory.framebuffer video.displaying)).word
  /-- Wherever the next operation is cut off, all transfers that it has started into RDRAM and all
  pixels that it has stored lie in the rendered framebuffer. -/
  during : ∀ (operation : Operation) moments ending t,
    (hardware directPath).Execution (operation.program config video) s moments ending t →
    (∀ moment ∈ moments, video.Confined s moment.state ∧
      moment.event.command.DrawsIn (video.memory.InFrame video.rendering)) ∧ video.Confined s t
  /-- A swap displays the framebuffer that was rendered, and nothing else changes which is which. -/
  behind : ∀ (operation : Operation) moments video' t,
    (hardware directPath).Execution (operation.program config video) s moments
      (.returned video') t →
    video' = operation.next video
  /-- Up to the next swap, and through it, the displayed picture stays. -/
  lasting : ∀ (operations : List Operation), .swap ∉ operations → ∀ moments ending t,
    (hardware directPath).Execution (perform config (operations ++ [.swap]) video) s moments ending
      t →
    (∀ moment ∈ moments, video.SamePicture s moment.state) ∧ video.SamePicture s t

theorem DoubleBuffered.of_shown {video : Video} (apart : video.memory.FramesApart)
    {s : Board Unit} (shown : video.Shown s) : DoubleBuffered config video s where
  indices := ⟨by omega, video.rendering_eq⟩
  origin := shown.origin
  during operation moments ending t execution := by
    obtain ⟨guarded, final, -⟩ := ensures_operation_confined shown apart operation rfl execution
    have unguarded : (hardware directPath).Keeps ⟨fun _ command => command.DrawsIn
        (video.memory.InFrame video.rendering), fun _ => True⟩
        (Command.DrawsIn (video.memory.InFrame video.rendering)) fun _ => True :=
      ⟨⟨fun _ _ _ h => h, fun _ h => h⟩, fun _ _ member _ => member, fun _ _ _ _ _ h _ => h⟩
    obtain ⟨drawn, -, -⟩ := unguarded.ensures (operation.accesses_drawsIn video) trivial execution
    exact ⟨fun moment member => ⟨guarded moment member, drawn moment member⟩, final⟩
  behind operation moments video' t execution := by
    obtain ⟨-, -, returns⟩ := ensures_operation_confined shown apart operation rfl execution
    exact (returns video' rfl).1
  lasting operations noSwap moments ending t execution := by
    obtain ⟨guarded, final, -⟩ :=
      ensures_samePicture apart noSwap s ⟨shown, fun _ _ _ => rfl⟩ execution
    exact ⟨guarded, final⟩

/-- **Every session is double buffered**, wherever the staging page lies, whatever memories hold at
the beginning and whatever transfers are outstanding then. -/
theorem session_double_buffers (apart : memory.FramesApart) {operations : List Operation}
    {s t : Board Unit} {moments : List (Moment (Board Unit))} {video : Video}
    (history : (hardware directPath).Execution (session config memory platform color operations) s
      moments (.returned video) t) :
    video = (initial memory platform).behind operations ∧ DoubleBuffered config video t := by
  let boundary (video : Video) (_ : Color) (s : Board Unit) : Prop :=
    video.memory = memory ∧ video.Shown s
  have sound (video : Video) (color : Color) :
      (hardware directPath).Sound .none (boundary video color) := by
    refine ⟨fun t t' moved h => ?_, fun _ _ => trivial⟩
    cases moved with
    | engine moved => exact absurd h.2.idle moved.not_idle
    | memory moved => exact moved.elim
  have step (operation : Operation) (video : Video) (color : Color) :
      (hardware directPath).Ensures .none (boundary video color) (operation.program config video)
        fun video' t => video' = operation.next video ∧
          boundary video' (operation.colorAfter color) t := by
    refine .of_each fun s h => ?_
    obtain ⟨rfl, shown⟩ := h
    refine (ensures_operation_confined shown apart operation).unguarded.mono (fun _ h => h) ?_
    rintro _ t ⟨rfl, shown⟩
    exact ⟨rfl, operation.next_memory video, shown⟩
  have start : (hardware directPath).Ensures .none (fun s' => s' = s)
      (bringUp config memory platform color) fun video t =>
        video = initial memory platform ∧ boundary video color t := by
    refine (ensures_bringUp_shown s).mono (fun _ h => h) ?_
    rintro _ t ⟨rfl, shown⟩
    exact ⟨rfl, rfl, shown⟩
  obtain ⟨-, -, returned⟩ := ensures_session sound start step operations rfl history
  obtain ⟨eq, same, shown⟩ := returned video rfl
  rw [← same] at apart
  exact ⟨eq, .of_shown apart shown⟩

/-- A session with one swap, on a board that begins with a transfer to the staging page. -/
theorem session_double_buffers_swapped : ∃ moments video t,
    (hardware directPath).Execution
      (session (.silent true) .secondMegabyte .ntsc ⟨1⟩ [.clear, .swap, .setColor ⟨2⟩])
      (.blank () [.linear .toRdram 0 0x180000 64]) moments (.returned video) t ∧
    video.displaying = 1 ∧ DoubleBuffered (.silent true) video t := by
  obtain ⟨moments, video, t, -, history⟩ :=
    (live directPath_total).exists_execution
      (finishable_session FrameMemory.secondMegabyte_aligned .ntsc
        ⟨1⟩ [.clear, .swap, .setColor ⟨2⟩])
      (.blank () [.linear .toRdram 0 0x180000 64])
  obtain ⟨eq, buffered⟩ :=
    session_double_buffers FrameMemory.secondMegabyte_apart.toFramesApart history
  exact ⟨moments, video, t, history, by rw [eq]; rfl, buffered⟩

end Sessions

end Video

end ColdBoot
