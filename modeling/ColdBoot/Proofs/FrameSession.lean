import ColdBoot.Proofs.FrameOperations

/-! # Sessions of the video output on the board

Between two operations the engine is idle, the signal processor has the pattern of the current
colour, and frame memory is at rest: no framebuffer byte is outdated, and what is shown is settled.
Bringing the video output up leads there from anywhere, and every operation leads back.

* **`Board.AtRest`** – what holds between two operations;
* **`Video.ensures_operation`** – an operation, from rest to rest, with its effect;
* **`Video.ensures_bringUp`** – bringing up, from any memory at all;
* **`Video.atRest_of_session`** – behind every session the board is at rest. -/

namespace ColdBoot

open Hardware MemoryPath

namespace Board

variable {κ : Type} (path : MemoryPath κ)

/-- Frame memory between two operations. -/
structure FramesAtRest (memory : FrameMemory) (displaying : Fin 2) (color : Color)
    (m : Memory κ) : Prop where
  staged : ∀ k, k < pageSize.toNat → path.due m (memory.stagingPlace + k) = color.byte k
  fresh : ∀ a, memory.InFrames a → path.Fresh m a
  shown : ∀ a, memory.InFrame displaying a → path.Settled m a

/-- The board between two operations: the engine is idle, frame memory is at rest, the signal
processor has the current colour, and the displayed framebuffer is shown. -/
def AtRest (video : Video) (color : Color) : Board κ → Prop :=
  Idle (FramesAtRest path video.memory video.displaying color) fun dmem _ origin =>
    HasPattern color dmem ∧
      origin = (PhysAddr.ofAddress (video.memory.framebuffer video.displaying)).word

variable {path} {memory : FrameMemory} {displaying : Fin 2} {color : Color} {m m' : Memory κ}

theorem FramesAtRest.robust : path.Robust (FramesAtRest path memory displaying color) :=
  .of_gentle fun _ _ gentle _ h => ⟨fun k lt => (gentle.due _).trans (h.staged k lt),
    fun a inside => gentle.fresh a (h.fresh a inside),
    fun a inside => gentle.settled a (h.shown a inside)⟩

/-- Work on the framebuffer that is not displayed leaves frame memory at rest, if nothing in there
is outdated afterwards. -/
theorem FramesAtRest.of_elsewhere (rest : FramesAtRest path memory displaying color m)
    (apart : memory.Apart) {index : Fin 2} (ne : index ≠ displaying)
    (elsewhere : path.Elsewhere (memory.InFrame index) m m')
    (fresh : ∀ a, memory.InFrame index a → path.Fresh m' a) :
    FramesAtRest path memory displaying color m' where
  staged k lt := by
    rw [elsewhere.due _ (apart.stagingApart index _ (FrameMemory.inStaging_add lt))]
    exact rest.staged k lt
  fresh a := by
    rintro ⟨other, inside⟩
    by_cases same : memory.InFrame index a
    · exact fresh a same
    · exact elsewhere.fresh a same (rest.fresh a ⟨other, inside⟩)
  shown a inside :=
    elsewhere.settled a (apart.toFramesApart.of_ne (Ne.symm ne) inside) (rest.shown a inside)

end Board

namespace Video

open Board

/-! ### What an operation works on -/

namespace Operation

variable (video : Video)

/-- Bytes that transfers of an operation go to. -/
def target : Operation → Nat → Prop
  | .clear => video.memory.InFrame video.rendering
  | _ => fun _ => False

/-- Bytes that an operation may change. -/
def region : Operation → Nat → Prop
  | .clear | .draw _ => video.memory.InFrame video.rendering
  | .setColor _ => video.memory.InStaging
  | _ => fun _ => False

/-- What an operation does, from one board to another. A clear starts its transfers and no others,
and RDRAM has the colour all over the framebuffer afterwards, with nothing held of it. A drawing
sees what is due, and is due itself. -/
def Effect {κ : Type} (path : MemoryPath κ) (color : Color) (s t : Board κ) : Operation → Prop
  | .clear => t.engine.started = s.engine.started ++ clearTransfers video.memory video.rendering ∧
      (∀ a, video.memory.InFrame video.rendering a → path.Absent t.memory a) ∧
      (Framebuffer.uniform color).LiesAt t.memory.rdram (video.memory.place video.rendering)
  | .draw function => t.engine.started = s.engine.started ∧ ∃ fb : Framebuffer,
      fb.LiesAt (path.due s.memory) (video.memory.place video.rendering) ∧
      (fb.paint (function fb)).LiesAt (path.due t.memory) (video.memory.place video.rendering)
  | .setColor _ => t.engine.started = s.engine.started ++ [patternTransfer video.memory]
  | _ => t.engine.started = s.engine.started

end Operation

variable {κ : Type} {path : MemoryPath κ} (lawful : path.Lawful) {config : Config}

section Operations

variable {video : Video} (apart : video.memory.Apart) (whole : video.memory.Whole path)
  {color : Color} {s : Board κ} (rest : AtRest path video color s)

/-- What an operation starts with. -/
abbrev Start (path : MemoryPath κ) (color : Color) (s : Board κ) (region : Nat → Prop) :
    Board κ → Prop :=
  Idle (path.Elsewhere region s.memory)
    (Tally (HasPattern color) s.engine.started s.origin)

include rest in
theorem start_of_eq {region : Nat → Prop} ⦃s' : Board κ⦄ (eq : s' = s) :
    Start path color s region s' := by
  subst eq
  exact ⟨rest.queue, .refl s'.memory, rest.known.1, rfl, rfl⟩

include lawful apart whole rest

theorem ensures_clear :
    (hardware path).Ensures (.always (Sheltered path video.memory color
        (video.memory.InFrame video.rendering) (video.memory.InFrame video.rendering) s.memory))
      (fun s' => s' = s) (Operation.clear.program config video) fun video' t =>
        video' = video ∧ AtRest path video color t ∧
          Operation.clear.Effect video path color s t := by
  let place := video.memory.place video.rendering
  let cleared (m : Memory κ) : Prop :=
    path.Elsewhere (video.memory.InFrame video.rendering) s.memory m ∧
      ∀ k < Framebuffer.byteSize.toNat, path.Absent m (place + k) ∧
        m.rdram (place + k) = color.byte k
  have robust : path.Robust cleared := by
    refine (RobustUnder.elsewhere _ fun _ => False.elim).and
      (.forall_of fun k _ => .of_gentle ?_)
    rintro m m' gentle absent ⟨unheld, right⟩
    exact ⟨absent _ unheld, (gentle.rdram unheld.settled).trans right⟩
  refine .bind ((ensures_clearFramebuffer lawful whole config video rfl video.rendering
    (apart.fits _) color).of_imp fun _ h => start_of_eq rest h) fun _ => ?_
  refine .done (idle_sound lawful robust (Idle.sheltered fun _ h => h.1)) fun t h => ?_
  obtain ⟨idle, ⟨elsewhere, right⟩, loaded, started, origin⟩ := h
  have absent (a : Nat) (inside : video.memory.InFrame video.rendering a) :
      path.Absent t.memory a := by
    obtain ⟨k, lt, rfl⟩ := inside.exists_add
    exact (right k lt).1
  refine ⟨rfl, ⟨idle, ?_, loaded, origin.trans rest.known.2⟩, started, absent, fun k lt => ?_⟩
  · exact rest.fact.of_elsewhere apart video.rendering_ne elsewhere fun a inside =>
      (absent a inside).fresh
  · rw [Framebuffer.byte_uniform color lt]
    exact (right k lt).2

theorem ensures_drawing (function : Framebuffer → Drawing) (target : Nat → Prop) :
    (hardware path).Ensures (.always (Sheltered path video.memory color target
        (video.memory.InFrame video.rendering) s.memory))
      (fun s' => s' = s) ((Operation.draw function).program config video) fun video' t =>
        video' = video ∧ AtRest path video color t ∧
          (Operation.draw function).Effect video path color s t := by
  refine ((ensures_draw lawful whole config video rfl function color target fun a inside =>
    rest.fact.fresh a ⟨_, inside⟩).of_imp fun _ h => start_of_eq rest h).mono (fun _ h => h) ?_
  rintro video' t ⟨rfl, idle, ⟨elsewhere, fresh, fb, lies, due⟩, loaded, started, origin⟩
  refine ⟨rfl, ⟨idle, ?_, loaded, origin.trans rest.known.2⟩, started, fb, lies, ?_⟩
  · exact rest.fact.of_elsewhere apart video'.rendering_ne elsewhere fresh
  · rw [due]
    exact lies.paint (function fb)

theorem ensures_colorChange (new : Color) (target : Nat → Prop) :
    (hardware path).Ensures (.always (Sheltered path video.memory new target
        video.memory.InStaging s.memory))
      (fun s' => s' = s) ((Operation.setColor new).program config video) fun video' t =>
        video' = video ∧ AtRest path video new t ∧
          (Operation.setColor new).Effect video path color s t := by
  have robust : path.Robust fun m => path.Elsewhere video.memory.InStaging s.memory m ∧
      ∀ k, k < pageSize.toNat → path.due m (video.memory.stagingPlace + k) = new.byte k :=
    (RobustUnder.elsewhere _ fun _ => False.elim).and (.forall_of fun _ _ => .due_eq id _)
  have change : (hardware path).Ensures
      (.always (Sheltered path video.memory new target video.memory.InStaging s.memory))
      (Idle (path.Elsewhere video.memory.InStaging s.memory)
        (Tally (fun _ => True) s.engine.started s.origin))
      (video.setClearColor new) fun _ =>
        Idle (fun m => path.Elsewhere video.memory.InStaging s.memory m ∧
          ∀ k, k < pageSize.toNat → path.due m (video.memory.stagingPlace + k) = new.byte k)
        (Tally (HasPattern new) (s.engine.started ++ [patternTransfer video.memory]) s.origin) :=
    ensures_setClearColor lawful whole apart.stagingFits (.idle _) (fun _ => False.elim)
      (fun _ _ => id) (fun _ => id) video rfl new (Idle.sheltered fun _ h => h) fun _ h => h
  refine .bind (change.of_imp ?_) fun _ => ?_
  · rintro s' rfl
    exact ⟨rest.queue, .refl s'.memory, trivial, rfl, rfl⟩
  refine .done (idle_sound lawful robust (Idle.sheltered fun _ h => h.1)) ?_
  rintro t ⟨idle, ⟨elsewhere, staged⟩, loaded, started, origin⟩
  -- no framebuffer byte is staged, so the framebuffers are at rest as before
  have outside {index : Fin 2} {a : Nat} (inside : video.memory.InFrame index a) :
      ¬ video.memory.InStaging a := fun staging => apart.stagingApart index a staging inside
  refine ⟨rfl, ⟨idle, ⟨staged, ?_, ?_⟩, loaded, origin.trans rest.known.2⟩, started⟩
  · rintro a ⟨index, inside⟩
    exact elsewhere.fresh a (outside inside) (rest.fact.fresh a ⟨index, inside⟩)
  · exact fun a inside => elsewhere.settled a (outside inside) (rest.fact.shown a inside)

omit whole in
theorem ensures_swap (target region : Nat → Prop) :
    (hardware path).Ensures (.always (Sheltered path video.memory color target region s.memory))
      (fun s' => s' = s) (Operation.swap.program config video) fun video' t =>
        video' = Operation.swap.next video ∧ AtRest path (Operation.swap.next video) color t ∧
          Operation.swap.Effect video path color s t := by
  refine ((ensures_swapBuffers lawful video rfl (apart.fits _) color target region).of_imp
    fun _ h => start_of_eq rest h).mono (fun _ h => h) ?_
  rintro video' t ⟨rfl, idle, ⟨elsewhere, settled⟩, loaded, started, origin⟩
  refine ⟨rfl, ⟨idle, ⟨fun k lt => ?_, fun a inside => ?_, settled⟩, loaded, origin⟩, started⟩
  · exact (elsewhere.due _ id).trans (rest.fact.staged k lt)
  · exact elsewhere.fresh a id (rest.fact.fresh a inside)

omit apart whole in
theorem ensures_aside {operation : Operation} (h : operation.IsAside)
    (target region : Nat → Prop) :
    (hardware path).Ensures (.always (Sheltered path video.memory color target region s.memory))
      (fun s' => s' = s) (operation.program config video) fun video' t =>
        video' = video ∧ AtRest path video color t ∧ operation.Effect video path color s t := by
  let fact (m : Memory κ) : Prop := path.Elsewhere (fun _ => False) s.memory m ∧
    FramesAtRest path video.memory video.displaying color m
  have robust : path.Robust fact :=
    (RobustUnder.elsewhere _ fun _ => id).and FramesAtRest.robust
  have sound : (hardware path).Sound
      (.always (Sheltered path video.memory color target region s.memory))
      (Idle fact (Tally (HasPattern color) s.engine.started s.origin)) :=
    idle_sound lawful robust (Idle.sheltered fun _ h => h.1.mono fun _ => False.elim)
  obtain ⟨part, aside, eq⟩ := h.exists_part config video
  rw [eq]
  refine .bind (((keeps_aside sound).ensures aside).of_imp ?_) fun _ => .done sound ?_
  · rintro s' rfl
    exact ⟨rest.queue, ⟨.refl s'.memory, rest.fact⟩, rest.known.1, rfl, rfl⟩
  · rintro t ⟨idle, ⟨-, fact⟩, loaded, started, origin⟩
    refine ⟨rfl, ⟨idle, fact, loaded, origin.trans rest.known.2⟩, ?_⟩
    cases operation with
    | wait | finish | look | signal => exact started
    | clear | draw | setColor | swap => exact h.elim

/-- **An operation**, from a board at rest to a board at rest. -/
theorem ensures_operation (operation : Operation) :
    (hardware path).Ensures (.always (Sheltered path video.memory (operation.colorAfter color)
        (operation.target video) (operation.region video) s.memory))
      (fun s' => s' = s) (operation.program config video) fun video' t =>
        video' = operation.next video ∧
          AtRest path (operation.next video) (operation.colorAfter color) t ∧
          operation.Effect video path color s t := by
  cases operation with
  | clear => exact ensures_clear lawful apart whole rest
  | draw function => exact ensures_drawing lawful apart whole rest function _
  | setColor new => exact ensures_colorChange lawful apart whole rest new _
  | swap => exact ensures_swap lawful apart rest _ _
  | wait | finish | look | signal =>
    apply ensures_aside lawful rest
    exact trivial

end Operations

/-! ### Bringing up -/

section BringUp

variable {memory : FrameMemory} (apart : memory.Apart) (whole : memory.Whole path) {color : Color}
  {before : Memory κ} {started : List Transfer} {origin : UInt32}

/-- The staging page holds a colour. -/
def Staged (path : MemoryPath κ) (memory : FrameMemory) (color : Color) (m : Memory κ) : Prop :=
  ∀ k, k < pageSize.toNat → path.due m (memory.stagingPlace + k) = color.byte k

/-- A framebuffer holds a colour, and RDRAM has it. -/
def Cleared (path : MemoryPath κ) (memory : FrameMemory) (color : Color) (index : Fin 2)
    (m : Memory κ) : Prop :=
  ∀ k, k < Framebuffer.byteSize.toNat →
    path.due m (memory.place index + k) = color.byte k ∧
      path.Fresh m (memory.place index + k) ∧ path.Settled m (memory.place index + k)

omit lawful

theorem Staged.robust : path.Robust (Staged path memory color) :=
  .forall_of fun _ _ => .due_eq id _

theorem Cleared.robust (index : Fin 2) : path.Robust (Cleared path memory color index) :=
  .forall_of fun _ _ => (RobustUnder.due_eq id _).and ((RobustUnder.fresh id).and (.settled _))

/-- A cleared framebuffer is a picture of one colour. -/
theorem Cleared.liesAt {index : Fin 2} {m : Memory κ}
    (cleared : Cleared path memory color index m) :
    (Framebuffer.uniform color).LiesAt m.rdram (memory.place index) := by
  intro k lt
  obtain ⟨due, -, settled⟩ := cleared k lt
  rw [Framebuffer.byte_uniform _ lt, ← due, settled.due_eq]

/-- Two cleared framebuffers and a staged colour are at rest, whichever of the two is displayed. -/
theorem framesAtRest_of_cleared {m : Memory κ} (staged : Staged path memory color m)
    (cleared : ∀ index, Cleared path memory color index m) (displaying : Fin 2) :
    FramesAtRest path memory displaying color m where
  staged := staged
  fresh a := by
    rintro ⟨index, inside⟩
    obtain ⟨k, lt, rfl⟩ := inside.exists_add
    exact (cleared index k lt).2.1
  shown a inside := by
    obtain ⟨k, lt, rfl⟩ := inside.exists_add
    exact (cleared displaying k lt).2.2

/-- What holds of one framebuffer survives work on the other one. -/
theorem Cleared.of_elsewhere (apart : memory.Apart) {index other : Fin 2} (ne : other ≠ index)
    {m m' : Memory κ} (elsewhere : path.Elsewhere (memory.InFrame index) m m')
    (h : Cleared path memory color other m) : Cleared path memory color other m' := by
  intro k lt
  have outside := apart.toFramesApart.of_ne ne (FrameMemory.inFrame_add lt)
  obtain ⟨due, fresh, settled⟩ := h k lt
  exact ⟨(elsewhere.due _ outside).trans due, elsewhere.fresh _ outside fresh,
    elsewhere.settled _ outside settled⟩

include lawful apart whole

/-- A clear on the way up: what has been brought about before it stays. -/
theorem ensures_clear_onTheWay {region : Nat → Prop} (sub : ∀ a, memory.InMemory a → region a)
    (video : Video) (eq : video.memory = memory) (index : Fin 2) {others : Memory κ → Prop}
    (stays : ∀ m m', path.Elsewhere (memory.InFrame index) m m' → others m → others m') :
    (hardware path).Ensures
      (.always (Sheltered path memory color (memory.InFrame index) region before))
      (Idle (fun m => path.Elsewhere region before m ∧ Staged path memory color m ∧ others m)
        (Tally (HasPattern color) started origin))
      (clearFramebuffer config video index) fun _ =>
        Idle (fun m => path.Elsewhere region before m ∧ Staged path memory color m ∧
          others m ∧ Cleared path memory color index m)
        (Tally (HasPattern color) (started ++ clearTransfers memory index) origin) := by
  have inRegion (a : Nat) (inside : memory.InFrame index a) : region a :=
    sub a (.inr ⟨index, inside⟩)
  refine .of_each fun s start => ?_
  -- the clear refers to the memory it starts with, everything else to the one at the very start
  have there ⦃s' : Board κ⦄ (eq : s' = s) : Idle (path.Elsewhere (memory.InFrame index) s.memory)
      (Tally (HasPattern color) started origin) s' := by
    rw [eq]
    exact ⟨start.queue, .refl s.memory, start.known⟩
  refine (((ensures_clearFramebuffer lawful whole config video eq index (apart.fits index)
    color).of_imp there).guard_mono _ ?_ ?_).mono (fun _ h => h) ?_
  · exact fun t _ h => h.mono inRegion start.fact.1.due
  · exact fun t h => h.mono inRegion start.fact.1.due
  · rintro _ t ⟨idle, ⟨elsewhere, right⟩, known⟩
    obtain ⟨there, staged, held⟩ := start.fact
    refine ⟨idle, ⟨there.trans (elsewhere.mono inRegion), fun k lt => ?_, stays _ _ elsewhere held,
      fun k lt => ?_⟩, known⟩
    · rw [elsewhere.due _ (apart.stagingApart index _ (FrameMemory.inStaging_add lt))]
      exact staged k lt
    · obtain ⟨absent, eq⟩ := right k lt
      exact ⟨absent.settled.due_eq.trans eq, absent.fresh, absent.settled⟩

/-- A place that a transfer goes to which is outstanding already. -/
def Leftover (s : Board κ) (a : Nat) : Prop :=
  ∃ byte, s.engine.Pending .toRdram byte ∧ byte.dram = a

omit lawful apart whole in
/-- An idle engine leaves nothing over. -/
theorem not_leftover {s : Board κ} (idle : s.engine.queue = []) (a : Nat) : ¬ Leftover s a := by
  rintro ⟨byte, pending, -⟩
  exact TransferEngine.not_pending idle pending

/-- What holds all the way up from the board `s`. Outside frame memory the same is due as before,
but for the places of transfers that were outstanding then; and from the first transfer of its own
on, the work is sheltered. -/
structure ComingUp (path : MemoryPath κ) (memory : FrameMemory) (color : Color)
    (s t : Board κ) : Prop where
  kept : ∀ a, ¬ (memory.InMemory a ∨ Leftover s a) → path.due t.memory a = path.due s.memory a
  sheltered : t.engine.started ≠ s.engine.started → ∃ index, Sheltered path memory color
    (memory.InFrame index) (fun a => memory.InMemory a ∨ Leftover s a) s.memory t

/-- Memory when the video output has been prepared on the board `s`: outside frame memory, and the
places of transfers that were outstanding then, it is as it was, and both framebuffers are clear. -/
def ReadyToShow (path : MemoryPath κ) (memory : FrameMemory) (color : Color) (s : Board κ)
    (m : Memory κ) : Prop :=
  path.Elsewhere (fun a => memory.InMemory a ∨ Leftover s a) s.memory m ∧
    Staged path memory color m ∧ ∀ index, Cleared path memory color index m

/-- Every transfer that has been started then. -/
def startedWith (memory : FrameMemory) (s : Board κ) : List Transfer :=
  s.engine.started ++ [patternTransfer memory] ++ clearTransfers memory ⟨0, Nat.zero_lt_two⟩ ++
    clearTransfers memory ⟨1, Nat.one_lt_two⟩

omit lawful apart whole in
theorem ReadyToShow.robust (s : Board κ) : path.Robust (ReadyToShow path memory color s) :=
  (RobustUnder.elsewhere s.memory fun _ => False.elim).and (Staged.robust.and
    (.of_gentle fun _ _ gentle absent h index =>
      (Cleared.robust index).gentle gentle absent (h index)))

omit lawful apart whole in
/-- A board that is ready to show is on the way, wherever the picture lies. -/
theorem comingUp_of_ready {s t : Board κ} {origin : UInt32}
    (h : Idle (ReadyToShow path memory color s)
      (Tally (HasPattern color) (startedWith memory s) origin) t) : ComingUp path memory color s t := by
  have sheltered : Sheltered path memory color (memory.InFrame 0)
      (fun a => memory.InMemory a ∨ Leftover s a) s.memory t := Idle.sheltered (fun _ h => h.1) h
  exact ⟨sheltered.kept, fun _ => ⟨0, sheltered⟩⟩

omit apart whole in
theorem ready_sound (s : Board κ) (origin : UInt32) :
    (hardware path).Sound (.always (ComingUp path memory color s))
      (Idle (ReadyToShow path memory color s)
        (Tally (HasPattern color) (startedWith memory s) origin)) :=
  idle_sound lawful (ReadyToShow.robust s) fun _ => comingUp_of_ready

/-- **Preparing the video output**, whatever memory and cache hold and whatever transfers are
outstanding, if none of them goes to the staging page: to a board that is idle and ready to show. -/
theorem ensures_prepare (platform : Platform) (s : Board κ)
    (own : ∀ a, memory.InStaging a → ¬ Leftover s a) :
    (hardware path).Ensures (.always (ComingUp path memory color s)) (fun s' => s' = s)
      (prepare config memory platform color) fun _ => Idle (ReadyToShow path memory color s)
        (Tally (HasPattern color) (startedWith memory s) s.origin) := by
  let region (a : Nat) : Prop := memory.InMemory a ∨ Leftover s a
  let loaded := s.engine.started ++ [patternTransfer memory]
  let way (others : Memory κ → Prop) (m : Memory κ) : Prop :=
    path.Elsewhere region s.memory m ∧ Staged path memory color m ∧ others m
  have inRegion (a : Nat) (inside : memory.InMemory a) : region a := .inl inside
  -- in front of the first start, transfers of somebody else may be outstanding
  let calm (engine : TransferEngine) : Prop :=
    ∀ direction byte, engine.Pending direction byte → s.engine.Pending direction byte
  have calms : Calm (Leftover s) calm (Tally (fun _ => True) s.engine.started s.origin) :=
    .draining s.engine.Pending fun started origin =>
      True ∧ started = s.engine.started ∧ origin = s.origin
  have early ⦃t : Board κ⦄ (h : Beside calm (path.Elsewhere region s.memory)
      (Tally (fun _ => True) s.engine.started s.origin) t) : ComingUp path memory color s t :=
    ⟨h.fact.due, fun more => absurd h.known.2.1 more⟩
  have late (index : Fin 2) ⦃t : Board κ⦄
      (h : Sheltered path memory color (memory.InFrame index) region s.memory t) :
      ComingUp path memory color s t := ⟨h.kept, fun _ => ⟨index, h⟩⟩
  have quiet := keeps_aside (beside_sound lawful calms (.elsewhere s.memory fun _ => .inr) early)
  have start ⦃s' : Board κ⦄ (eq : s' = s) : Beside calm (path.Elsewhere region s.memory)
      (Tally (fun _ => True) s.engine.started s.origin) s' := by
    subst eq
    exact ⟨fun _ _ h => h, .refl s'.memory, trivial, rfl, rfl⟩
  have clear (index : Fin 2) (started : List Transfer) (others : Memory κ → Prop)
      (stays : ∀ m m', path.Elsewhere (memory.InFrame index) m m' → others m → others m') :
      (hardware path).Ensures (.always (ComingUp path memory color s))
        (Idle (way others) (Tally (HasPattern color) started s.origin))
        (clearFramebuffer config (initial memory platform) index) fun _ =>
          Idle (way fun m => others m ∧ Cleared path memory color index m)
            (Tally (HasPattern color) (started ++ clearTransfers memory index) s.origin) :=
    (ensures_clear_onTheWay lawful apart whole inRegion _ rfl index stays).guard_mono _
      (fun _ _ h => late index h) fun _ h => late index h
  -- step by step: blank the output, lower the flag, load the colour, clear, log
  refine Ensures.of_imp ?_ start
  refine .bind (quiet.ensures (.write ⟨nofun, nofun⟩)) fun _ => ?_
  refine .bind (quiet.ensures (.perform _ trivial)) fun _ => ?_
  refine .via (fun _ => Idle (way fun _ => True) (Tally (HasPattern color) loaded s.origin)) ?_
    fun _ => ?_
  · refine (ensures_setClearColor lawful whole apart.stagingFits calms (fun _ => .inr) own
      (fun a inside => .inl (.inl inside)) (initial memory platform) rfl color early (late 0)).mono
      (fun _ h => h) fun _ t h => h.mono fun m h => ⟨h.1, h.2, trivial⟩
  refine .bind (clear 0 loaded _ fun _ _ _ h => h) fun _ => ?_
  refine .bind (clear 1 _ _ fun m m' elsewhere h =>
    ⟨trivial, h.2.of_elsewhere apart (by decide) elsewhere⟩) fun _ => ?_
  have cleared ⦃t : Board κ⦄ (h : Idle (way fun m => (True ∧ Cleared path memory color 0 m) ∧
      Cleared path memory color 1 m) (Tally (HasPattern color) (startedWith memory s) s.origin) t) :
      Idle (ReadyToShow path memory color s)
        (Tally (HasPattern color) (startedWith memory s) s.origin) t :=
    h.mono fun m h => ⟨h.1, h.2.1, Fin.forall_fin_two.2 ⟨h.2.2.1.2, h.2.2.2⟩⟩
  refine Ensures.of_imp ?_ cleared
  exact (keeps_aside (ready_sound lawful s s.origin)).ensures (LogRecord.accesses_emit _ _)

/-- **Bringing the video output up** on the same conditions: to a board at rest with both
framebuffers clear. -/
theorem ensures_bringUp (platform : Platform) (s : Board κ)
    (own : ∀ a, memory.InStaging a → ¬ Leftover s a) :
    (hardware path).Ensures (.always (ComingUp path memory color s)) (fun s' => s' = s)
      (bringUp config memory platform color) fun video t =>
        video = initial memory platform ∧ AtRest path (initial memory platform) color t ∧
          t.engine.started = s.engine.started ++ [patternTransfer memory] ++
            clearTransfers memory 0 ++ clearTransfers memory 1 ∧
          ∀ index, Cleared path memory color index t.memory := by
  rw [bringUp_eq]
  refine .bind (ensures_prepare lawful apart whole platform s own) fun _ => ?_
  refine .bind (ensures_writeTiming lawful (ReadyToShow.robust s) (fun _ _ => comingUp_of_ready)
    (initial memory platform) platform.profile) fun _ => ?_
  refine .done (ready_sound lawful s _) ?_
  rintro t ⟨idle, ⟨-, staged, cleared⟩, pattern, started, origin⟩
  exact ⟨rfl, ⟨idle, framesAtRest_of_cleared staged cleared _, pattern, origin⟩, started, cleared⟩

/-! ### Whole sessions -/

/-- **Behind every session** that returns the board is at rest, with the current colour. -/
theorem atRest_of_session {platform : Platform} {operations : List Operation} {s t : Board κ}
    {moments : List (Moment (Board κ))} {video : Video}
    (own : ∀ a, memory.InStaging a → ¬ Leftover s a)
    (execution : (hardware path).Execution (session config memory platform color operations) s
      moments (.returned video) t) :
    video = (initial memory platform).behind operations ∧
      AtRest path video (currentColor color operations) t := by
  -- frame memory never moves, so that one assumption about it serves all operations
  let boundary (video : Video) (color : Color) (s : Board κ) : Prop :=
    video.memory = memory ∧ AtRest path video color s
  have sound (video : Video) (color : Color) :
      (hardware path).Sound .none (boundary video color) :=
    ⟨fun _ _ moved h => ⟨h.1, idle_stable lawful FramesAtRest.robust moved h.2⟩, fun _ _ => trivial⟩
  have start : (hardware path).Ensures .none (fun s' => s' = s)
      (bringUp config memory platform color) fun video t =>
        video = initial memory platform ∧ boundary video color t := by
    refine (ensures_bringUp lawful apart whole platform s own).unguarded.mono (fun _ h => h) ?_
    rintro _ t ⟨rfl, rest, -⟩
    exact ⟨rfl, rfl, rest⟩
  have step (operation : Operation) (video : Video) (color : Color) :
      (hardware path).Ensures .none (boundary video color) (operation.program config video)
        fun video' t => video' = operation.next video ∧
          boundary video' (operation.colorAfter color) t := by
    refine .of_each fun s h => ?_
    obtain ⟨rfl, rest⟩ := h
    refine (ensures_operation lawful apart whole rest operation).unguarded.mono (fun _ h => h) ?_
    rintro _ t ⟨rfl, rest, -⟩
    exact ⟨rfl, operation.next_memory video, rest⟩
  obtain ⟨-, -, returned⟩ := ensures_session sound start step operations rfl execution
  obtain ⟨eq, -, rest⟩ := returned video rfl
  exact ⟨eq, rest⟩

end BringUp

end Video

end ColdBoot
