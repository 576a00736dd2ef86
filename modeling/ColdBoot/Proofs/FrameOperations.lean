import ColdBoot.Proofs.PatternTransfer

/-! # The parts of the video output on the board

What a colour change, a clear, a drawing and a swap do to memory, on any lawful path and under any
schedule of the engine and the path. Each is bounded by the region that it works on, and
**`Board.Sheltered`** holds in each of its states: outstanding bytes of the pattern are settled in
RDRAM, nothing is held of a framebuffer that is being cleared, and outside the region what is due
does not change.

* **`Video.ensures_setClearColor`**, **`Video.ensures_clearFramebuffer`** – the engine's work;
* **`Video.ensures_draw`**, **`Video.ensures_swapBuffers`** – the processor's. -/

namespace ColdBoot

open Hardware MemoryPath

/-! ### Regions -/

namespace FrameMemory

variable (memory : FrameMemory)

/-- A byte of either framebuffer. -/
def InFrames (a : Nat) : Prop := ∃ index, memory.InFrame index a

/-- A byte of the framebuffers or of the staging page. -/
def InMemory (a : Nat) : Prop := memory.InStaging a ∨ memory.InFrames a

/-- Staging page and framebuffers are made of whole lines. -/
structure Whole {κ : Type} (path : MemoryPath κ) : Prop where
  staging : path.Closed memory.InStaging
  frame : ∀ index, path.Closed (memory.InFrame index)

variable {memory}

theorem inFrame_add {index : Fin 2} {k : Nat} (lt : k < Framebuffer.byteSize.toNat) :
    memory.InFrame index (memory.place index + k) :=
  ⟨Nat.le_add_right _ _, Nat.add_lt_add_left lt _⟩

theorem inStaging_add {k : Nat} (lt : k < pageSize.toNat) :
    memory.InStaging (memory.stagingPlace + k) :=
  ⟨Nat.le_add_right _ _, Nat.add_lt_add_left lt _⟩

theorem InFrame.exists_add {index : Fin 2} {a : Nat} (h : memory.InFrame index a) :
    ∃ k < Framebuffer.byteSize.toNat, a = memory.place index + k :=
  ⟨a - memory.place index, by have := h.1; have := h.2; omega, (Nat.add_sub_cancel' h.1).symm⟩

end FrameMemory

namespace Board

variable {κ : Type} {path : MemoryPath κ} {memory : FrameMemory}

/-! ### What holds all the way -/

/-- The signal processor has the pattern of a colour. -/
def HasPattern (color : Color) (dmem : Bytes) : Prop :=
  ∀ k < pageSize.toNat, dmem k = color.byte k

/-- What is known of the signal processor's memory, the started transfers, and the place that is
shown. -/
def Tally (pattern : Bytes → Prop) (started : List Transfer) (origin : UInt32) :
    Bytes → List Transfer → UInt32 → Prop :=
  fun dmem started' origin' => pattern dmem ∧ started' = started ∧ origin' = origin

variable (path memory) in
/-- A transfer of the pattern finds the colour in RDRAM, with nothing still to be written back over
it. Other transfers go to the target, and as long as one is outstanding nothing is held of the whole
target. Outside the region the same is due as before. -/
structure Sheltered (color : Color) (target region : Nat → Prop) (before : Memory κ)
    (s : Board κ) : Prop where
  loads : ∀ byte, s.engine.Pending .fromRdram byte → path.Settled s.memory byte.dram ∧
    ∃ k < pageSize.toNat, byte = ⟨k, memory.stagingPlace + k⟩ ∧
      s.memory.rdram byte.dram = color.byte k
  stores : ∀ byte, s.engine.Pending .toRdram byte →
    target byte.dram ∧ ∀ a, target a → path.Absent s.memory a
  kept : ∀ a, ¬ region a → path.due s.memory a = path.due before a

variable {color : Color} {target region : Nat → Prop} {before : Memory κ}

/-- An idle engine has nothing outstanding. -/
theorem Idle.sheltered {fact : Memory κ → Prop} {known : Bytes → List Transfer → UInt32 → Prop}
    (sub : ∀ ⦃m⦄, fact m → path.Elsewhere region before m) ⦃s : Board κ⦄ (h : Idle fact known s) :
    Sheltered path memory color target region before s where
  loads _ pending := absurd pending (TransferEngine.not_pending h.queue)
  stores _ pending := absurd pending (TransferEngine.not_pending h.queue)
  kept := (sub h.fact).due

/-- The same for a wider region, and from memory that only differs there. -/
theorem Sheltered.mono {region' : Nat → Prop} {before' : Memory κ} {s : Board κ}
    (h : Sheltered path memory color target region before s) (sub : ∀ a, region a → region' a)
    (same : ∀ a, ¬ region' a → path.due before a = path.due before' a) :
    Sheltered path memory color target region' before' s where
  loads := h.loads
  stores := h.stores
  kept a out := (h.kept a fun inside => out (sub a inside)).trans (same a out)

end Board

namespace Video

open Board

variable {κ : Type} {path : MemoryPath κ} {memory : FrameMemory} (lawful : path.Lawful)
  (whole : memory.Whole path) {started : List Transfer} {origin : UInt32}
  {pattern : Bytes → Prop} {before : Memory κ}

include lawful whole

/-! ### Changing the colour -/

/-- The transfer that loads the pattern. -/
def patternTransfer (memory : FrameMemory) : Transfer :=
  .linear .fromRdram 0 memory.stagingPlace pageSize.toNat

/-- A colour change, from a calm engine whose foreign transfers keep off the staging page to an idle
engine with the new pattern. -/
theorem ensures_setClearColor (fits : memory.stagingPlace + pageSize.toNat ≤ 2 ^ 29)
    {foreign region target : Nat → Prop} {calm : TransferEngine → Prop} {claim : Board κ → Prop}
    (calms : Calm foreign calm (Tally (fun _ => True) started origin))
    (covers : ∀ a, foreign a → region a) (own : ∀ a, memory.InStaging a → ¬ foreign a)
    (sub : ∀ a, memory.InStaging a → region a) (video : Video) (eq : video.memory = memory)
    (color : Color)
    (early : ∀ ⦃s⦄, Beside calm (path.Elsewhere region before)
      (Tally (fun _ => True) started origin) s → claim s)
    (late : ∀ ⦃s⦄, Sheltered path memory color target region before s → claim s) :
    (hardware path).Ensures (.always claim)
      (Beside calm (path.Elsewhere region before) (Tally (fun _ => True) started origin))
      (video.setClearColor color) fun _ =>
        Idle (fun m => path.Elsewhere region before m ∧
          ∀ k, k < pageSize.toNat → path.due m (memory.stagingPlace + k) = color.byte k)
        (Tally (HasPattern color) (started ++ [patternTransfer memory]) origin) := by
  subst eq
  let memory := video.memory
  let filled (m : Memory κ) : Prop := path.Elsewhere region before m ∧
    ∀ k, k < pageSize.toNat → path.due m (memory.stagingPlace + k) = color.byte k ∧
      path.Fresh m (memory.stagingPlace + k)
  let settled (m : Memory κ) : Prop := filled m ∧ ∀ a, memory.InStaging a → path.Settled m a
  have robustFilled {foreign : Nat → Prop} (covers : ∀ a, foreign a → region a)
      (own : ∀ a, memory.InStaging a → ¬ foreign a) : path.RobustUnder foreign filled :=
    (RobustUnder.elsewhere before covers).and (.forall_of fun k lt =>
      have own := own _ (FrameMemory.inStaging_add lt)
      (RobustUnder.due_eq own _).and (.fresh own))
  have robust {foreign : Nat → Prop} (covers : ∀ a, foreign a → region a)
      (own : ∀ a, memory.InStaging a → ¬ foreign a) : path.RobustUnder foreign settled :=
    (robustFilled covers own).and (.forall_of fun a _ => .settled a)
  have robustIdle : path.Robust settled := robust (fun _ => False.elim) fun _ _ => id
  -- what is due on the settled page is what RDRAM has there
  have source (m : Memory κ) (h : settled m) (k : Nat) (lt : k < pageSize.toNat) :
      m.rdram (memory.stagingPlace + k) = color.byte k := by
    rw [← (h.2 _ (FrameMemory.inStaging_add lt)).due_eq]
    exact (h.1.2 k lt).1
  have idle ⦃s : Board κ⦄ (h : Idle settled (Tally (fun _ => True) started origin) s) : claim s :=
    late (Idle.sheltered (fun _ h => h.1.1) h)
  refine .bind (ensures_fill lawful calms covers
    (fun k lt => own _ (FrameMemory.inStaging_add lt))
    (fun k lt b joined => sub b (whole.staging (FrameMemory.inStaging_add lt) joined)) early)
    fun _ => ?_
  refine .bind (ensures_writeBackRange lawful fits calms (robustFilled covers own)
    fun s h => early (h.mono fun _ h => h.1)) fun _ => ?_
  refine .via (fun _ => Idle settled (Tally (fun _ => True) started origin)) ?_ fun _ => ?_
  · have sound := beside_sound lawful calms (robust covers own) fun s h =>
      early (h.mono fun _ h => h.1.1)
    refine (ensures_waitIdle sound).mono (fun _ h => h) ?_
    rintro _ s ⟨h, idle⟩
    exact ⟨idle, h.fact, h.known⟩
  refine .ofExcept_bind (idle_sound lawful robustIdle idle) fun descriptor built => ?_
  have load : (hardware path).Ensures (.always claim)
      (Idle settled (Tally (fun _ => True) started origin))
      (do
        Sp.start descriptor .fromRdram
        let _ ← Sp.engine.waitIdle)
      fun _ => Idle settled fun dmem started' origin' =>
        (started' = started ++ [patternTransfer memory] ∧ origin' = origin) ∧
          ∀ k < pageSize.toNat, dmem k = color.byte k := by
    refine ensures_loadPattern lawful robustIdle source ?_ rfl built idle ?_
    · refine fun s h => late ⟨fun byte pending => ?_, fun byte pending => ?_, h.fact.1.1.due⟩
      · obtain ⟨-, k, lt, rfl⟩ := h.pending _ _ pending
        exact ⟨h.fact.2 _ (FrameMemory.inStaging_add lt), k, lt, rfl, source _ h.fact k lt⟩
      · exact nomatch (h.pending _ _ pending).1
    · rintro dmem started' origin' ⟨-, rfl, rfl⟩
      exact ⟨rfl, rfl⟩
  refine load.mono (fun _ h => h) fun _ s h => ⟨h.queue, ?_, h.known.2, h.known.1⟩
  exact ⟨h.fact.1.1, fun k lt => (h.fact.1.2 k lt).1⟩

/-! ### Clearing -/

/-- The transfers of one clear. -/
def clearTransfers (memory : FrameMemory) (index : Fin 2) : List Transfer :=
  clearChunks.map (chunkTransfer (memory.place index))

/-- A clear, from an idle engine with the pattern to an idle engine. RDRAM has the colour all over
the framebuffer then, and nothing is held of it. -/
theorem ensures_clearFramebuffer (config : Config) (video : Video) (eq : video.memory = memory)
    (index : Fin 2) (fits : memory.place index + Framebuffer.byteSize.toNat ≤ 2 ^ 29)
    (color : Color) :
    (hardware path).Ensures (.always
        (Sheltered path memory color (memory.InFrame index) (memory.InFrame index) before))
      (Idle (path.Elsewhere (memory.InFrame index) before)
        (Tally (HasPattern color) started origin))
      (clearFramebuffer config video index) fun _ =>
        Idle (fun m => path.Elsewhere (memory.InFrame index) before m ∧
          ∀ k < Framebuffer.byteSize.toNat, path.Absent m (memory.place index + k) ∧
            m.rdram (memory.place index + k) = color.byte k)
        (Tally (HasPattern color) (started ++ clearTransfers memory index) origin) := by
  subst eq
  let memory := video.memory
  let target := memory.InFrame index
  let claim := Sheltered path memory color target target before
  let ready := Tally (HasPattern color) started origin
  have within : placeOf (memory.framebuffer index) + Framebuffer.byteSize.toUInt32.toNat ≤ 2 ^ 29 :=
    fits
  have drop : (hardware path).Ensures (.always claim) (Idle (path.Elsewhere target before) ready)
      (Cpu.invalidateDataRange (memory.framebuffer index) Framebuffer.byteSize.toUInt32) fun _ =>
        Idle (fun m => path.Elsewhere target before m ∧ ∀ a, target a → path.Absent m a) ready :=
    ensures_invalidateRange lawful within (whole.frame index) (fun _ h => h)
      (Idle.sheltered fun _ h => h)
  have chunks : (hardware path).Ensures (.always claim)
      (Idle (fun m => path.Elsewhere target before m ∧
        ∀ k < Framebuffer.byteSize.toNat, path.Absent m (memory.place index + k)) ready)
      (do
        clearChunks.forM (clearChunk config (.ofAddress (memory.framebuffer index)))
        let _ ← Sp.engine.waitIdle)
      fun _ => Idle (fun m => path.Elsewhere target before m ∧
        ∀ k < Framebuffer.byteSize.toNat, path.Absent m (memory.place index + k) ∧
          m.rdram (memory.place index + k) = color.byte k)
        fun dmem started' origin' =>
          (started' = started ++ clearTransfers memory index ∧ origin' = origin) ∧
            ∀ k < pageSize.toNat, dmem k = color.byte k := by
    refine ensures_clearChunks lawful (fun k => FrameMemory.inFrame_add) ?_ rfl fits ?_
    · intro rest s h
      refine ⟨fun byte pending => ?_, fun byte pending => ?_, h.elsewhere.due⟩
      · exact nomatch (h.pending _ _ pending).1
      · obtain ⟨-, k, lt, place, -⟩ := h.pending _ _ pending
        rw [place]
        refine ⟨FrameMemory.inFrame_add lt, fun a inside => ?_⟩
        obtain ⟨l, lt, rfl⟩ := inside.exists_add
        exact h.absent l lt
    · rintro dmem started' origin' ⟨loaded, rfl, rfl⟩
      exact ⟨⟨rfl, rfl⟩, loaded⟩
  refine .bind drop fun _ => ?_
  refine chunks.mono (fun s h => h.mono fun m h => ⟨h.1, fun k lt => ?_⟩) fun _ s h =>
    ⟨h.queue, h.fact, h.known.2, h.known.1⟩
  exact h.2 _ (FrameMemory.inFrame_add lt)

/-! ### Drawing -/

/-- A drawing into a framebuffer of which nothing is outdated: the function sees what is due there,
and its stores are due behind it. -/
theorem ensures_draw (config : Config) (video : Video) (eq : video.memory = memory)
    (function : Framebuffer → Drawing) (color : Color) (target : Nat → Prop)
    (fresh : ∀ a, memory.InFrame video.rendering a → path.Fresh before a) :
    (hardware path).Ensures
      (.always (Sheltered path memory color target (memory.InFrame video.rendering) before))
      (Idle (path.Elsewhere (fun _ => False) before) (Tally pattern started origin))
      ((Operation.draw function).program config video) fun video' s => video' = video ∧
        Idle (fun m => path.Elsewhere (memory.InFrame video.rendering) before m ∧
          (∀ a, memory.InFrame video.rendering a → path.Fresh m a) ∧
          ∃ fb : Framebuffer, fb.LiesAt (path.due before) (memory.place video.rendering) ∧
            path.due m = Bytes.stored (path.due before)
              (Drawing.stores (function fb) (memory.place video.rendering)))
          (Tally pattern started origin) s := by
  subst eq
  let memory := video.memory
  let place := memory.place video.rendering
  let region := memory.InFrame video.rendering
  let ready := Tally pattern started origin
  let claim := Sheltered path memory color target region before
  have look : (hardware path).Ensures (.always claim)
      (Idle (path.Elsewhere (fun _ => False) before) ready)
      (Program.perform (.loadFrame video.target)) fun fb s =>
        Framebuffer.LiesAt fb (path.due before) place ∧
          Idle (path.Elsewhere (fun _ => False) before) ready s :=
    ensures_loadFrame lawful (fun k lt => fresh _ (FrameMemory.inFrame_add lt)) (fun _ _ => id)
      (Idle.sheltered fun _ h => h.mono fun _ => False.elim)
  refine .bind look fun fb => .of_fact fun shown => ?_
  let drawn (m : Memory κ) : Prop := path.Elsewhere region before m ∧
    (∀ a, region a → path.Fresh m a) ∧
      path.due m = Bytes.stored (path.due before) (Drawing.stores (function fb) place)
  have paint : (hardware path).Ensures (.always claim)
      (Idle (path.Elsewhere (fun _ => False) before) ready)
      (Program.perform (.storePixels video.target (function fb))) fun _ => Idle drawn ready :=
    ensures_storePixels lawful (whole.frame video.rendering) fresh
      (fun k => FrameMemory.inFrame_add) (Idle.sheltered fun _ h => h)
  have robust : path.Robust drawn := by
    refine (RobustUnder.elsewhere _ fun _ => False.elim).and
      ((RobustUnder.forall_of fun a _ => .fresh id).and (.of_gentle ?_))
    intro m m' gentle _ h
    exact (funext gentle.due).trans h
  refine .bind paint fun _ => ?_
  refine .done (idle_sound lawful robust (Idle.sheltered fun _ h => h.1)) fun s h => ⟨rfl, ?_⟩
  exact h.mono fun m h => ⟨h.1, h.2.1, fb, shown, h.2.2⟩

/-! ### Swapping -/

omit lawful whole in
/-- Showing another place changes nothing else. -/
theorem ensures_writeOrigin {claim : Board κ → Prop} {fact : Memory κ → Prop}
    {known known' : Bytes → List Transfer → UInt32 → Prop} (shown : UInt32)
    (sound : (hardware path).Sound (.always claim) (Idle fact known))
    (sound' : (hardware path).Sound (.always claim) (Idle fact known'))
    (change : ∀ dmem started origin, known dmem started origin → known' dmem started shown) :
    (hardware path).Ensures (.always claim) (Idle fact known)
      (Program.write ViRegister.origin shown) fun _ => Idle fact known' := by
  refine .perform sound (fun _ => sound') (fun s h => sound.state h) ?_
  rintro s answer t h rfl
  have other : ViRegister.origin.block ≠ .sp := by decide
  have engine := s.engine.write_of_block_ne shown other
  refine ⟨?_, h.fact, ?_⟩
  · show (s.engine.write ViRegister.origin shown).queue = []
    rw [engine]
    exact h.queue
  · show known' (s.engine.write ViRegister.origin shown).dmem
      (s.engine.write ViRegister.origin shown).started shown
    rw [engine]
    exact change _ _ _ h.known

omit whole in
/-- The timing registers show the displayed framebuffer, and nothing else changes. -/
theorem ensures_writeTiming {claim : Board κ → Prop} {fact : Memory κ → Prop}
    (robust : path.Robust fact)
    (holds : ∀ ⦃origin s⦄, Idle fact (Tally pattern started origin) s → claim s) (video : Video)
    (profile : TimingProfile) :
    (hardware path).Ensures (.always claim) (Idle fact (Tally pattern started origin))
      (video.writeTiming profile) fun _ => Idle fact (Tally pattern started
        (PhysAddr.ofAddress (video.memory.framebuffer video.displaying)).word) := by
  have sound (origin : UInt32) :
      (hardware path).Sound (.always claim) (Idle fact (Tally pattern started origin)) :=
    idle_sound lawful robust (@holds origin)
  obtain ⟨rest, quiet, eq⟩ := accesses_writeTiming_rest video profile
  rw [eq]
  refine .bind (ensures_writeOrigin _ (sound _) (sound _)
    fun _ _ _ h => ⟨h.1, h.2.1, rfl⟩) fun _ => ?_
  exact (keeps_aside (sound _)).ensures quiet

omit whole in
/-- A swap: the framebuffer that is shown from now on is settled. -/
theorem ensures_swapBuffers (video : Video) (eq : video.memory = memory)
    (fits : memory.place video.rendering + Framebuffer.byteSize.toNat ≤ 2 ^ 29) (color : Color)
    (target region : Nat → Prop) :
    (hardware path).Ensures (.always (Sheltered path memory color target region before))
      (Idle (path.Elsewhere (fun _ => False) before) (Tally pattern started origin))
      video.swapBuffers fun video' s =>
        video' = { video with displaying := video.rendering } ∧
        Idle (fun m => path.Elsewhere (fun _ => False) before m ∧
          ∀ a, memory.InFrame video.rendering a → path.Settled m a)
          (Tally pattern started (PhysAddr.ofAddress (memory.framebuffer video.rendering)).word)
          s := by
  subst eq
  let memory := video.memory
  let shown := (PhysAddr.ofAddress (memory.framebuffer video.rendering)).word
  let settled (m : Memory κ) : Prop := path.Elsewhere (fun _ => False) before m ∧
    ∀ a, memory.InFrame video.rendering a → path.Settled m a
  have elsewhere : path.Robust (path.Elsewhere (fun _ => False) before) :=
    .elsewhere before fun _ => id
  have robust : path.Robust settled := elsewhere.and (.forall_of fun a _ => .settled a)
  have sheltered {known : Bytes → List Transfer → UInt32 → Prop} ⦃s : Board κ⦄
      (h : Idle (path.Elsewhere (fun _ => False) before) known s) :
      Sheltered path memory color target region before s :=
    Idle.sheltered (fun _ h => h.mono fun _ => False.elim) h
  have sound (origin : UInt32) : (hardware path).Sound
      (.always (Sheltered path memory color target region before))
      (Idle settled (Tally pattern started origin)) :=
    idle_sound lawful robust fun s h => sheltered (h.mono fun _ h => h.1)
  refine .bind (ensures_writeBackRange lawful fits (.idle _) elsewhere fun s h => sheltered h)
    fun _ => ?_
  refine .bind (ensures_writeOrigin shown (sound origin) (sound shown)
    fun _ _ _ h => ⟨h.1, h.2.1, rfl⟩) fun _ => ?_
  exact .done (sound shown) fun s h => ⟨rfl, h⟩

end Video

end ColdBoot
