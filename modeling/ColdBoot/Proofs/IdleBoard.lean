import ColdBoot.Proofs.Board
import ColdBoot.Proofs.CacheWalk

/-! # The processor's work beside the engine

While the engine is idle, all that moves is the processor's path to memory, and its moves are
gentle. So a fact about memory that survives gentle changes stays until the processor itself changes
it. The same goes for an engine that is still busy with transfers of somebody else, as long as the
fact does not depend on the places that these go to.

* **`MemoryPath.Elsewhere`** – outside a region nothing that counts has changed;
* **`MemoryPath.RobustUnder`** – a fact that survives gentle changes and foreign transfers;
* **`Board.Beside`** – the engine is calm, and a fact about memory holds; **`Board.Idle`** – the
  engine is even idle;
* **`Board.ensures_fill`**, **`Board.ensures_writeBackRange`**, **`Board.ensures_invalidateRange`**,
  **`Board.ensures_loadFrame`**, **`Board.ensures_storePixels`** – what each command makes of it. -/

namespace ColdBoot

namespace MemoryPath

variable {κ : Type} {path : MemoryPath κ}

/-! ### Outside a region -/

variable (path) in
/-- Outside a region the same is due as before, and what was fresh or settled still is. -/
structure Elsewhere (region : Nat → Prop) (before memory : Memory κ) : Prop where
  due : ∀ a, ¬ region a → path.due memory a = path.due before a
  fresh : ∀ a, ¬ region a → path.Fresh before a → path.Fresh memory a
  settled : ∀ a, ¬ region a → path.Settled before a → path.Settled memory a

namespace Elsewhere

variable {region wider : Nat → Prop} {before between memory memory' : Memory κ}

theorem refl (memory : Memory κ) : path.Elsewhere region memory memory :=
  ⟨fun _ _ => rfl, fun _ _ h => h, fun _ _ h => h⟩

theorem gentle (h : path.Elsewhere region before memory) (gentle : path.Gentle memory memory') :
    path.Elsewhere region before memory' where
  due a out := (gentle.due a).trans (h.due a out)
  fresh a out fresh := gentle.fresh a (h.fresh a out fresh)
  settled a out settled := gentle.settled a (h.settled a out settled)

theorem trans (first : path.Elsewhere region before between)
    (second : path.Elsewhere region between memory) : path.Elsewhere region before memory where
  due a out := (second.due a out).trans (first.due a out)
  fresh a out fresh := second.fresh a out (first.fresh a out fresh)
  settled a out settled := second.settled a out (first.settled a out settled)

theorem mono (h : path.Elsewhere region before memory) (sub : ∀ a, region a → wider a) :
    path.Elsewhere wider before memory where
  due a out := h.due a fun inside => out (sub a inside)
  fresh a out := h.fresh a fun inside => out (sub a inside)
  settled a out := h.settled a fun inside => out (sub a inside)

/-- A change that touches bytes of the region only. -/
theorem step (h : path.Elsewhere region before memory)
    (held : ∀ a, ¬ region a → path.held memory'.cache a = path.held memory.cache a)
    (rdram : ∀ a, ¬ region a → memory'.rdram a = memory.rdram a) :
    path.Elsewhere region before memory' where
  due a out := (same_of_held_eq path _ _ (held a out) (rdram a out)).1.trans (h.due a out)
  fresh a out fresh :=
    (same_of_held_eq path _ _ (held a out) (rdram a out)).2.1.2 (h.fresh a out fresh)
  settled a out settled :=
    (same_of_held_eq path _ _ (held a out) (rdram a out)).2.2.1.2 (h.settled a out settled)

end Elsewhere

variable (path) in
/-- No byte of a region is joined with one outside. -/
def Closed (region : Nat → Prop) : Prop := ∀ ⦃a b⦄, region a → path.joined a b → region b

/-! ### Robust facts -/

variable (path) in
/-- A fact about memory that survives gentle changes which bring nothing in, and whatever is written
to the `foreign` places of RDRAM. -/
structure RobustUnder (foreign : Nat → Prop) (fact : Memory κ → Prop) : Prop where
  gentle : ∀ ⦃memory memory'⦄, path.Gentle memory memory' →
    (∀ a, path.Absent memory a → path.Absent memory' a) → fact memory → fact memory'
  foreign : ∀ ⦃memory : Memory κ⦄ ⦃a : Nat⦄ (value : UInt8), foreign a → fact memory →
    fact { memory with rdram := Function.update memory.rdram a value }

variable (path) in
/-- The same without foreign places. -/
abbrev Robust (fact : Memory κ → Prop) : Prop := path.RobustUnder (fun _ => False) fact

namespace RobustUnder

variable {foreign : Nat → Prop}

theorem and {first second : Memory κ → Prop} (h₁ : path.RobustUnder foreign first)
    (h₂ : path.RobustUnder foreign second) :
    path.RobustUnder foreign fun memory => first memory ∧ second memory where
  gentle _ _ gentle absent h := ⟨h₁.gentle gentle absent h.1, h₂.gentle gentle absent h.2⟩
  foreign _ _ value place h := ⟨h₁.foreign value place h.1, h₂.foreign value place h.2⟩

/-- A fact, or else something that has nothing to do with memory. -/
theorem or_const {fact : Memory κ → Prop} (h : path.RobustUnder foreign fact) (other : Prop) :
    path.RobustUnder foreign fun memory => fact memory ∨ other where
  gentle _ _ gentle absent := Or.imp_left (h.gentle gentle absent)
  foreign _ _ value place := Or.imp_left (h.foreign value place)

/-- Facts about single bytes, of each byte of some set. -/
theorem forall_of {fact : Memory κ → Nat → Prop} {which : Nat → Prop}
    (h : ∀ a, which a → path.RobustUnder foreign fun memory => fact memory a) :
    path.RobustUnder foreign fun memory => ∀ a, which a → fact memory a where
  gentle _ _ gentle absent all a member := (h a member).gentle gentle absent (all a member)
  foreign _ _ value place all a member := (h a member).foreign value place (all a member)

theorem elsewhere {region : Nat → Prop} (before : Memory κ) (sub : ∀ a, foreign a → region a) :
    path.RobustUnder foreign (path.Elsewhere region before) where
  gentle _ _ gentle _ h := h.gentle gentle
  foreign _ a _ place h := h.step (fun _ _ => rfl) fun b out =>
    Function.update_of_ne (fun eq : b = a => out (sub b (eq ▸ place))) ..

/-- Writing to a foreign place makes no difference to a byte of one's own. -/
theorem same_of_foreign (memory : Memory κ) {a b : Nat} (value : UInt8) (place : foreign a)
    (own : ¬ foreign b) :
    let memory' := { memory with rdram := Function.update memory.rdram a value }
    path.due memory' b = path.due memory b ∧ (path.Fresh memory' b ↔ path.Fresh memory b) := by
  intro memory'
  have rdram : memory'.rdram b = memory.rdram b :=
    Function.update_of_ne (fun eq : b = a => own (eq ▸ place)) ..
  have same := same_of_held_eq path memory memory' rfl rdram
  exact ⟨same.1, same.2.1⟩

theorem due_eq {a : Nat} (own : ¬ foreign a) (value : UInt8) :
    path.RobustUnder foreign fun memory => path.due memory a = value where
  gentle _ _ gentle _ h := (gentle.due a).trans h
  foreign memory _ value' place h := (same_of_foreign memory value' place own).1.trans h

theorem fresh {a : Nat} (own : ¬ foreign a) :
    path.RobustUnder foreign fun memory => path.Fresh memory a where
  gentle _ _ gentle _ h := gentle.fresh a h
  foreign memory _ value place := (same_of_foreign memory value place own).2.2

theorem settled (a : Nat) : path.RobustUnder foreign fun memory => path.Settled memory a where
  gentle _ _ gentle _ h := gentle.settled a h
  foreign _ _ _ _ h := h

theorem absent (a : Nat) : path.RobustUnder foreign fun memory => path.Absent memory a where
  gentle _ _ _ absent h := absent a h
  foreign _ _ _ _ h := h

/-- Where nothing is foreign, gentle changes are all there is. -/
theorem of_gentle {fact : Memory κ → Prop}
    (h : ∀ ⦃memory memory'⦄, path.Gentle memory memory' →
      (∀ a, path.Absent memory a → path.Absent memory' a) → fact memory → fact memory') :
    path.Robust fact :=
  ⟨h, fun _ _ _ => False.elim⟩

end RobustUnder

end MemoryPath

/-! ### A calm engine -/

namespace Board

open Hardware MemoryPath

variable {κ : Type} {path : MemoryPath κ}

/-- The engine is calm, a fact about memory holds, and something is known of the signal processor's
memory, the started transfers and the place that is shown. -/
structure Beside (calm : TransferEngine → Prop) (fact : Memory κ → Prop)
    (known : Bytes → List Transfer → UInt32 → Prop) (s : Board κ) : Prop where
  queue : calm s.engine
  fact : fact s.memory
  known : known s.engine.dmem s.engine.started s.origin

/-- The engine is idle. -/
abbrev Idle (fact : Memory κ → Prop) (known : Bytes → List Transfer → UInt32 → Prop)
    (s : Board κ) : Prop :=
  Beside (fun engine => engine.queue = []) fact known s

/-- A calm engine stays calm, with what is known of it, and writes to foreign places only. -/
structure Calm (foreign : Nat → Prop) (calm : TransferEngine → Prop)
    (known : Bytes → List Transfer → UInt32 → Prop) : Prop where
  stays : ∀ ⦃engine rdram engine' rdram'⦄, engine.Moves rdram engine' rdram' →
    calm engine → calm engine'
  known : ∀ ⦃engine rdram engine' rdram' origin⦄, engine.Moves rdram engine' rdram' →
    calm engine → known engine.dmem engine.started origin →
    known engine'.dmem engine'.started origin
  writes : ∀ ⦃engine rdram engine' rdram'⦄, engine.Moves rdram engine' rdram' → calm engine →
    rdram' = rdram ∨ ∃ a value, foreign a ∧ rdram' = Function.update rdram a value

/-- An idle engine does not move at all. -/
theorem Calm.idle (known : Bytes → List Transfer → UInt32 → Prop) :
    Calm (fun _ => False) (fun engine => engine.queue = []) known where
  stays _ _ _ _ moved idle := absurd idle moved.not_idle
  known _ _ _ _ _ moved idle := absurd idle moved.not_idle
  writes _ _ _ _ moved idle := absurd idle moved.not_idle

/-- An engine with transfers of somebody else: what is outstanding was so from the beginning. -/
theorem Calm.draining (old : Direction → PendingByte → Prop)
    (known : List Transfer → UInt32 → Prop) :
    Calm (fun a => ∃ byte, old .toRdram byte ∧ byte.dram = a)
      (fun engine => ∀ direction byte, engine.Pending direction byte → old direction byte)
      (fun _ started origin => known started origin) where
  stays _ _ _ _ moved calm direction byte left := calm _ _ (moved.copies.1 direction byte left)
  known _ _ _ _ _ moved _ h := by
    rw [moved.started]
    exact h
  writes _ _ _ _ moved calm := by
    rcases moved.copies.2 with ⟨_, _, same, -⟩ | ⟨byte, out, -, stored, -⟩ | ⟨-, same, -⟩
    · exact .inl same
    · exact .inr ⟨byte.dram, _, ⟨byte, calm _ _ out, rfl⟩, stored⟩
    · exact .inl same

variable {fact weaker : Memory κ → Prop} {known : Bytes → List Transfer → UInt32 → Prop}
  {claim : Board κ → Prop} {calm : TransferEngine → Prop} {foreign : Nat → Prop}

theorem Beside.mono {s : Board κ} (h : Beside calm fact known s)
    (sub : ∀ memory, fact memory → weaker memory) : Beside calm weaker known s :=
  ⟨h.queue, sub _ h.fact, h.known⟩

section Rules

variable (lawful : path.Lawful)

include lawful

theorem beside_stable (calms : Calm foreign calm known) (robust : path.RobustUnder foreign fact) :
    (hardware path).Stable (Beside calm fact known) := by
  intro s t moved h
  cases moved with
  | engine moved =>
    refine ⟨calms.stays moved h.queue, ?_, calms.known moved h.queue h.known⟩
    rcases calms.writes moved h.queue with rfl | ⟨a, value, place, rfl⟩
    · exact h.fact
    · exact robust.foreign value place h.fact
  | memory moved =>
    obtain ⟨gentle, absent⟩ := lawful.moves moved
    exact ⟨h.queue, robust.gentle gentle absent h.fact, h.known⟩

theorem beside_sound (calms : Calm foreign calm known) (robust : path.RobustUnder foreign fact)
    (holds : ∀ ⦃s⦄, Beside calm fact known s → claim s) :
    (hardware path).Sound (.always claim) (Beside calm fact known) :=
  ⟨beside_stable lawful calms robust, holds⟩

theorem idle_stable (robust : path.Robust fact) : (hardware path).Stable (Idle fact known) :=
  beside_stable lawful (.idle known) robust

theorem idle_sound (robust : path.Robust fact) (holds : ∀ ⦃s⦄, Idle fact known s → claim s) :
    (hardware path).Sound (.always claim) (Idle fact known) :=
  ⟨idle_stable lawful robust, holds⟩

end Rules

section Ranges

variable (lawful : path.Lawful) {vaddr len : UInt32}
  (fits : placeOf vaddr + len.toNat ≤ 2 ^ 29)

/-- A byte of a range. -/
def InRange (vaddr len : UInt32) (a : Nat) : Prop :=
  placeOf vaddr ≤ a ∧ a < placeOf vaddr + len.toNat

include fits

/-- A range that does not go round keeps away from the end of the address space. -/
theorem cacheRange_eq (operation : CacheOperation) :
    Cpu.cacheRange operation vaddr len dataCacheLine =
      (CacheLines.addresses vaddr len dataCacheLine).forM (Cpu.cacheLine operation) := by
  refine Cpu.cacheRange_eq operation (k := 4) rfl (by decide) vaddr len ?_
  show vaddr.toNat % 16 + len.toNat + 16 ≤ 2 ^ 32
  omega

include lawful

/-- Maintaining a range, line by line: what the operation makes of each byte of a visited line holds
of the whole range in the end. -/
theorem ensures_cacheRange {operation : CacheOperation} {mark : Memory κ → Nat → Prop}
    (calms : Calm foreign calm known) (robust : path.RobustUnder foreign fact)
    (robustMark : ∀ a, path.RobustUnder foreign fun memory => mark memory a)
    (holds : ∀ ⦃s⦄, Beside calm fact known s → claim s)
    (maintain : ∀ ⦃address memory memory'⦄,
      address ∈ CacheLines.addresses vaddr len dataCacheLine → fact memory →
      path.maintain operation (placeOf address) memory memory' →
        fact memory' ∧ (∀ b, placeOf address / 16 = b / 16 → mark memory' b) ∧
          ∀ b, mark memory b → mark memory' b) :
    (hardware path).Ensures (.always claim) (Beside calm fact known)
      (Cpu.cacheRange operation vaddr len dataCacheLine) fun _ => Beside calm
        (fun memory => fact memory ∧ ∀ a, InRange vaddr len a → mark memory a) known := by
  rw [cacheRange_eq fits]
  -- a byte of the range is marked, or its line is still to be visited
  let visited (rest : List UInt32) (memory : Memory κ) (a : Nat) : Prop :=
    mark memory a ∨ ∃ address ∈ rest, placeOf address / 16 = a / 16
  let invariant (rest : List UInt32) := Beside calm (fun memory => fact memory ∧
    ∀ a, InRange vaddr len a → visited rest memory a) known
  have robust' (rest : List UInt32) : path.RobustUnder foreign fun memory => fact memory ∧
      ∀ a, InRange vaddr len a → visited rest memory a :=
    robust.and (.forall_of fun a _ => (robustMark a).or_const _)
  have sound (rest : List UInt32) : (hardware path).Sound (.always claim) (invariant rest) :=
    beside_sound lawful calms (robust' rest) fun s h => holds (h.mono fun _ h => h.1)
  have loop : (hardware path).Ensures (.always claim)
      (invariant (CacheLines.addresses vaddr len dataCacheLine))
      ((CacheLines.addresses vaddr len dataCacheLine).forM (Cpu.cacheLine operation))
      fun _ => invariant [] := .forM invariant _ (sound []) ?_
  · refine loop.mono (fun s h => h.mono fun memory fact => ⟨fact, fun a member => .inr ?_⟩)
      fun _ s h => h.mono fun memory h => ⟨h.1, fun a member => ?_⟩
    · exact CacheLines.exists_of_mem_range fits member.1 member.2
    · exact (h.2 a member).resolve_right fun ⟨_, member, _⟩ => List.not_mem_nil member
  · intro address rest suffix
    have member : address ∈ CacheLines.addresses vaddr len dataCacheLine :=
      suffix.subset List.mem_cons_self
    refine .perform (sound _) (fun _ => sound _) (fun s h => (sound _).state h) ?_
    rintro s answer t h ⟨memory, changed, rfl⟩
    obtain ⟨fact', here, others⟩ := maintain member h.fact.1 changed
    refine ⟨h.queue, ⟨fact', fun a inside => ?_⟩, h.known⟩
    rcases h.fact.2 a inside with marked | ⟨other, later, line⟩
    · exact .inl (others a marked)
    · rcases List.mem_cons.1 later with rfl | later
      · exact .inl (here a line)
      · exact .inr ⟨other, later, line⟩

/-- Behind writing a range back, all of it is settled. -/
theorem ensures_writeBackRange (calms : Calm foreign calm known)
    (robust : path.RobustUnder foreign fact)
    (holds : ∀ ⦃s⦄, Beside calm fact known s → claim s) :
    (hardware path).Ensures (.always claim) (Beside calm fact known)
      (Cpu.writeBackRange vaddr len) fun _ => Beside calm (fun memory =>
        fact memory ∧ ∀ a, InRange vaddr len a → path.Settled memory a) known := by
  refine ensures_cacheRange lawful fits calms robust RobustUnder.settled holds ?_
  intro address memory memory' _ fact changed
  obtain ⟨gentle, absent, settled⟩ := lawful.writeBack changed
  exact ⟨robust.gentle gentle absent fact, settled, fun b h => gentle.settled b h⟩

/-- Behind invalidating a range, nothing of it is held, and nothing changed outside a region that
has the range and all that is joined with it. -/
theorem ensures_invalidateRange {region : Nat → Prop} {before : Memory κ}
    (closed : path.Closed region) (sub : ∀ a, InRange vaddr len a → region a)
    (holds : ∀ ⦃s⦄, Idle (path.Elsewhere region before) known s → claim s) :
    (hardware path).Ensures (.always claim) (Idle (path.Elsewhere region before) known)
      (Cpu.invalidateDataRange vaddr len) fun _ => Idle (fun memory =>
        path.Elsewhere region before memory ∧ ∀ a, InRange vaddr len a → path.Absent memory a)
        known := by
  refine ensures_cacheRange lawful fits (.idle known) (.elsewhere before fun _ => False.elim)
    RobustUnder.absent holds ?_
  intro address memory memory' member elsewhere changed
  obtain ⟨rdram, here, others, apart⟩ := lawful.invalidate changed
  refine ⟨elsewhere.step (fun b out => apart b fun line => ?_) (fun b _ => by rw [rdram]),
    here, others⟩
  -- a byte outside that were held would be joined with a byte of the range
  by_contra held
  obtain ⟨a, le, lt, same⟩ := CacheLines.exists_mem_range_of_mem fits member
  have joined := lawful.joined_of_held (same.symm.trans line) held
  exact out (closed (sub a ⟨le, lt⟩) joined)

end Ranges

section Pictures

variable (lawful : path.Lawful) {region : Nat → Prop} {before : Memory κ}

include lawful

/-- A store changes nothing outside a region that has all that is joined with its byte. -/
theorem elsewhere_store {store : Nat × UInt8} {memory memory' : Memory κ}
    (inside : ∀ b, path.joined store.1 b → region b)
    (stored : path.store store.1 store.2 memory memory')
    (h : path.Elsewhere region before memory) : path.Elsewhere region before memory' := by
  have apart {b : Nat} (out : ¬ region b) : ¬ path.joined store.1 b :=
    fun joined => out (inside b joined)
  exact h.step (fun b out => (lawful.store_apart stored b (apart out)).1)
    fun b out => (lawful.store_apart stored b (apart out)).2

/-- Behind filling the staging page, the colour is due all over it and nothing of it is outdated,
whatever was held before. -/
theorem ensures_fill {vaddr : UInt32} {color : Color} (calms : Calm foreign calm known)
    (covers : ∀ a, foreign a → region a)
    (own : ∀ k < pageSize.toNat, ¬ foreign (placeOf vaddr + k))
    (sub : ∀ k < pageSize.toNat, ∀ b, path.joined (placeOf vaddr + k) b → region b)
    (holds : ∀ ⦃s⦄, Beside calm (path.Elsewhere region before) known s → claim s) :
    (hardware path).Ensures (.always claim) (Beside calm (path.Elsewhere region before) known)
      (Program.perform (.fillStaging vaddr color)) fun _ => Beside calm (fun memory =>
        path.Elsewhere region before memory ∧ ∀ k, k < pageSize.toNat →
          path.due memory (placeOf vaddr + k) = color.byte k ∧
            path.Fresh memory (placeOf vaddr + k)) known := by
  -- a byte of the page is right, or its store is still to come
  let right (memory : Memory κ) (k : Nat) : Prop :=
    path.due memory (placeOf vaddr + k) = color.byte k ∧ path.Fresh memory (placeOf vaddr + k)
  let filled (stores : List (Nat × UInt8)) (memory : Memory κ) : Prop :=
    path.Elsewhere region before memory ∧ ∀ k, k < pageSize.toNat →
      right memory k ∨ ∃ value, (placeOf vaddr + k, value) ∈ stores
  have robustRight (k : Nat) (lt : k < pageSize.toNat) :
      path.RobustUnder foreign fun memory => right memory k :=
    (RobustUnder.due_eq (own k lt) _).and (.fresh (own k lt))
  have robust (stores : List (Nat × UInt8)) : path.RobustUnder foreign (filled stores) :=
    (RobustUnder.elsewhere before covers).and
      (.forall_of fun k lt => (robustRight k lt).or_const _)
  let invariant (stores : List (Nat × UInt8)) (s : Board κ) : Prop :=
    Beside calm (filled stores) known s ∧
      ∀ store ∈ stores, store ∈ color.pageStores (placeOf vaddr)
  have stable (stores : List (Nat × UInt8)) : (hardware path).Stable (invariant stores) :=
    fun s t moved h => ⟨beside_stable lawful calms (robust stores) moved h.1, h.2⟩
  have final : path.RobustUnder foreign fun memory => path.Elsewhere region before memory ∧
      ∀ k, k < pageSize.toNat → right memory k :=
    (RobustUnder.elsewhere before covers).and (.forall_of robustRight)
  refine .perform (beside_sound lawful calms (.elsewhere before covers) holds)
    (fun _ => beside_sound lawful calms final fun s h => holds (h.mono fun _ h => h.1))
    (fun s h => holds h) ?_
  intro s answer t h responded
  have done : invariant [] t := Stores.induct responded invariant stable ?_ ?_
  · refine done.1.mono fun memory h => ⟨h.1, fun k lt => ?_⟩
    exact (h.2 k lt).resolve_right fun ⟨_, member⟩ => List.not_mem_nil member
  · intro store stores s memory h stored
    obtain ⟨idle, pages⟩ := h
    obtain ⟨l, lt, rfl⟩ := Color.mem_pageStores.1 (pages store List.mem_cons_self)
    refine ⟨⟨idle.queue, ⟨?_, fun k ltk => ?_⟩, idle.known⟩,
      fun later member => pages later (List.mem_cons_of_mem _ member)⟩
    · exact elsewhere_store lawful (sub l lt) stored idle.fact.1
    · -- the byte that is stored is right now, and the others are no worse than before
      by_cases same : k = l
      · subst same
        exact .inl ⟨lawful.store_due stored, lawful.store_fresh stored _ (lawful.joined_self _)⟩
      · have ne : placeOf vaddr + k ≠ placeOf vaddr + l := by omega
        rcases idle.fact.2 k ltk with ⟨due, fresh⟩ | ⟨value, member⟩
        · refine .inl ⟨?_, lawful.fresh_store stored fresh⟩
          exact (lawful.store_other stored _ ne fun _ => fresh).trans due
        · rcases List.mem_cons.1 member with eq | member
          · exact absurd (congrArg Prod.fst eq) ne
          · exact .inr ⟨value, member⟩
  · refine ⟨h.mono fun memory elsewhere => ⟨elsewhere, fun k lt => .inr ⟨color.byte k, ?_⟩⟩,
      fun store member => member⟩
    exact Color.mem_pageStores.2 ⟨k, lt, rfl⟩

/-- A look at a framebuffer of which nothing is outdated shows what is due. -/
theorem ensures_loadFrame {vaddr : UInt32}
    (fresh : ∀ k < Framebuffer.byteSize.toNat, path.Fresh before (placeOf vaddr + k))
    (outside : ∀ k < Framebuffer.byteSize.toNat, ¬ region (placeOf vaddr + k))
    (holds : ∀ ⦃s⦄, Idle (path.Elsewhere region before) known s → claim s) :
    (hardware path).Ensures (.always claim) (Idle (path.Elsewhere region before) known)
      (Program.perform (.loadFrame vaddr)) fun fb s =>
        Framebuffer.LiesAt fb (path.due before) (placeOf vaddr) ∧
          Idle (path.Elsewhere region before) known s := by
  have sound := idle_sound lawful (.elsewhere before fun _ => False.elim) holds
  have sound' (fact : Prop) : (hardware path).Sound (.always claim) fun s =>
      fact ∧ Idle (path.Elsewhere region before) known s :=
    ⟨fun _ _ moved h => ⟨h.1, sound.stable moved h.2⟩, fun s h => holds h.2⟩
  refine .perform sound (fun fb => sound' _) (fun s h => holds h) ?_
  intro s fb t h responded
  -- a byte of the picture is right, or its load is still to come
  let invariant (loads : List (Nat × UInt8)) (s : Board κ) : Prop :=
    Idle (path.Elsewhere region before) known s ∧ ∀ k < Framebuffer.byteSize.toNat,
      path.due before (placeOf vaddr + k) = Framebuffer.byte fb k ∨
        (placeOf vaddr + k, Framebuffer.byte fb k) ∈ loads
  have stable (loads : List (Nat × UInt8)) : (hardware path).Stable (invariant loads) :=
    sound.stable.and fun _ _ _ h => h
  have done : invariant [] t := Loads.induct responded invariant stable ?_ ?_
  · exact ⟨fun k lt => (done.2 k lt).resolve_right List.not_mem_nil, done.1⟩
  · intro load loads s memory h loaded
    obtain ⟨idle, seen⟩ := h
    obtain ⟨gentle, -, value⟩ := lawful.load loaded
    refine ⟨⟨idle.queue, idle.fact.gentle gentle, idle.known⟩, fun k lt => ?_⟩
    rcases seen k lt with right | member
    · exact .inl right
    · rcases List.mem_cons.1 member with rfl | member
      · refine .inl ?_
        rw [← idle.fact.due _ (outside k lt)]
        exact (value (idle.fact.fresh _ (outside k lt) (fresh k lt))).symm
      · exact .inr member
  · refine ⟨h, fun k lt => .inr ?_⟩
    exact List.mem_map.2 ⟨k, List.mem_range.2 lt, rfl⟩

/-- Behind drawing into a region of which nothing is outdated, the stores of the drawing are due,
and nothing is outdated still. -/
theorem ensures_storePixels {vaddr : UInt32} {drawing : Drawing} (closed : path.Closed region)
    (fresh : ∀ a, region a → path.Fresh before a)
    (sub : ∀ k < Framebuffer.byteSize.toNat, region (placeOf vaddr + k))
    (holds : ∀ ⦃s⦄, Idle (path.Elsewhere region before) known s → claim s) :
    (hardware path).Ensures (.always claim)
      (Idle (path.Elsewhere (fun _ => False) before) known)
      (Program.perform (.storePixels vaddr drawing)) fun _ => Idle (fun memory =>
        path.Elsewhere region before memory ∧ (∀ a, region a → path.Fresh memory a) ∧
          path.due memory = Bytes.stored (path.due before)
            (Drawing.stores drawing (placeOf vaddr))) known := by
  -- with the stores still to come, what is due is the same all the way
  let drawn (stores : List (Nat × UInt8)) (memory : Memory κ) : Prop :=
    path.Elsewhere region before memory ∧ (∀ a, region a → path.Fresh memory a) ∧
      Bytes.stored (path.due memory) stores =
        Bytes.stored (path.due before) (Drawing.stores drawing (placeOf vaddr))
  have robust (stores : List (Nat × UInt8)) : path.Robust (drawn stores) := by
    refine (RobustUnder.elsewhere before fun _ => False.elim).and
      ((RobustUnder.forall_of fun a _ => .fresh id).and (.of_gentle ?_))
    intro memory memory' gentle _ h
    rw [funext gentle.due]
    exact h
  let invariant (stores : List (Nat × UInt8)) (s : Board κ) : Prop :=
    Idle (drawn stores) known s ∧ ∀ store ∈ stores, region store.1
  have stable (stores : List (Nat × UInt8)) : (hardware path).Stable (invariant stores) :=
    fun s t moved h => ⟨idle_stable lawful (robust stores) moved h.1, h.2⟩
  have start {s : Board κ} (h : Idle (path.Elsewhere (fun _ => False) before) known s) :
      Idle (path.Elsewhere region before) known s :=
    h.mono fun _ h => h.mono fun _ => False.elim
  refine .perform (idle_sound lawful (.elsewhere before fun _ => id) fun s h => holds (start h))
    (fun _ => idle_sound lawful (robust []) fun s h => holds (h.mono fun _ h => h.1))
    (fun s h => holds (start h)) ?_
  intro s answer t h responded
  have done : invariant [] t := Stores.induct responded invariant stable ?_ ?_
  · exact done.1
  · intro store stores s memory h stored
    obtain ⟨idle, inside⟩ := h
    have here := inside store List.mem_cons_self
    obtain ⟨elsewhere, fresh, eq⟩ := idle.fact
    have due : path.due memory = Function.update (path.due s.memory) store.1 store.2 :=
      lawful.due_store stored fun b joined => fresh b (closed here joined)
    refine ⟨⟨idle.queue, ⟨?_, fun b member => ?_, ?_⟩, idle.known⟩,
      fun later member => inside later (List.mem_cons_of_mem _ member)⟩
    · exact elsewhere_store lawful (fun b => closed here) stored elsewhere
    · exact lawful.fresh_store stored (fresh b member)
    · rw [due]
      exact eq
  · refine ⟨⟨h.queue, ⟨(start h).fact, fun a member => ?_, ?_⟩, h.known⟩, fun store member => ?_⟩
    · exact h.fact.fresh a id (fresh a member)
    · rw [funext fun a => h.fact.due a id]
    · obtain ⟨le, lt⟩ := Drawing.mem_stores member
      obtain ⟨k, eq⟩ := Nat.exists_eq_add_of_le le
      rw [eq]
      exact sub k (by omega)

end Pictures

end Board

end ColdBoot
