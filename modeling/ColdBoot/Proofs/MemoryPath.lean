import ColdBoot.Command
import ColdBoot.Proofs.FrameBytes

/-! # The processor's path to memory

The processor reaches RDRAM through a write-back cache, or, on a machine without one, directly; the
engine and the video interface always see RDRAM itself. A **`MemoryPath`** is the processor's side:
what it holds of a byte, and what loads, stores, cache maintenance and the path's own moves do.

Four notions say how the two sides are related at a byte:

* **`MemoryPath.due`** – the byte that RDRAM has, or will have once everything is written back;
* **`MemoryPath.Settled`** – nothing is still to be written back;
* **`MemoryPath.Fresh`** – no outdated copy is held, so that a load gives the byte that is due;
* **`MemoryPath.Absent`** – no copy is held at all.

**`MemoryPath.Lawful`** is what the proofs need to know of a path. There are two lawful paths: the
**`directPath`** and the **`cachedPath`**. -/

namespace ColdBoot

/-- A byte held on the processor's side. -/
structure HeldByte where
  value : UInt8
  /-- It is still to be written back. -/
  dirty : Bool
  deriving DecidableEq

/-- RDRAM together with what the processor's side holds. -/
structure Memory (κ : Type) where
  cache : κ
  rdram : Bytes

/-- The way from the processor to RDRAM. -/
structure MemoryPath (κ : Type) where
  /-- What is held of a byte. -/
  held : κ → Nat → Option HeldByte
  /-- Two bytes come and go together. -/
  joined : Nat → Nat → Prop
  /-- What the path does by itself. -/
  moves : Memory κ → Memory κ → Prop
  /-- The processor loads a byte. -/
  load : Nat → Memory κ → UInt8 → Memory κ → Prop
  /-- The processor stores a byte. -/
  store : Nat → UInt8 → Memory κ → Memory κ → Prop
  /-- The processor maintains the line that holds a byte. -/
  maintain : CacheOperation → Nat → Memory κ → Memory κ → Prop

namespace MemoryPath

variable {κ : Type} (path : MemoryPath κ)

/-! ### The two sides of a byte -/

/-- The byte that RDRAM has or is going to have. -/
def due (memory : Memory κ) (a : Nat) : UInt8 :=
  match path.held memory.cache a with
  | some ⟨value, true⟩ => value
  | _ => memory.rdram a

/-- Nothing is still to be written back. -/
def Settled (memory : Memory κ) (a : Nat) : Prop :=
  ∀ value, path.held memory.cache a ≠ some ⟨value, true⟩

/-- A copy that is not to be written back is not outdated. -/
def Fresh (memory : Memory κ) (a : Nat) : Prop :=
  ∀ value, path.held memory.cache a = some ⟨value, false⟩ → value = memory.rdram a

/-- Nothing is held. -/
def Absent (memory : Memory κ) (a : Nat) : Prop := path.held memory.cache a = none

variable {path} {memory memory' : Memory κ} {a : Nat}

theorem Absent.settled (absent : path.Absent memory a) : path.Settled memory a := by
  intro value held
  rw [absent] at held
  cases held

theorem Absent.fresh (absent : path.Absent memory a) : path.Fresh memory a := by
  intro value held
  rw [absent] at held
  cases held

/-- Where nothing is to be written back, RDRAM is up to date. -/
theorem Settled.due_eq (settled : path.Settled memory a) : path.due memory a = memory.rdram a := by
  unfold due
  split
  · next value held => exact absurd held (settled value)
  · rfl

variable (path) in
/-- A change that neither the processor nor RDRAM's other users can tell, except that less is
outdated or still to be written back. -/
structure Gentle (memory memory' : Memory κ) : Prop where
  due : ∀ a, path.due memory' a = path.due memory a
  fresh : ∀ a, path.Fresh memory a → path.Fresh memory' a
  settled : ∀ a, path.Settled memory a → path.Settled memory' a

theorem Gentle.refl (memory : Memory κ) : path.Gentle memory memory :=
  ⟨fun _ => rfl, fun _ h => h, fun _ h => h⟩

/-- A gentle change keeps RDRAM where nothing is to be written back. -/
theorem Gentle.rdram (gentle : path.Gentle memory memory') (settled : path.Settled memory a) :
    memory'.rdram a = memory.rdram a := by
  rw [← (gentle.settled a settled).due_eq, gentle.due, settled.due_eq]

variable (path memory memory') in
/-- Bytes of which the same is held and RDRAM has the same are due, fresh and so on alike. -/
theorem same_of_held_eq (held : path.held memory'.cache a = path.held memory.cache a)
    (rdram : memory'.rdram a = memory.rdram a) :
    path.due memory' a = path.due memory a ∧ (path.Fresh memory' a ↔ path.Fresh memory a) ∧
      (path.Settled memory' a ↔ path.Settled memory a) ∧
      (path.Absent memory' a ↔ path.Absent memory a) := by
  simp only [due, Fresh, Settled, Absent, held, rdram, true_and, iff_self]

/-- A change is gentle that leaves both sides of a byte alone, or else brings to RDRAM what was due
and leaves no outdated copy that was not there before. -/
theorem Gentle.of_bytes (h : ∀ a,
    (path.held memory'.cache a = path.held memory.cache a ∧ memory'.rdram a = memory.rdram a) ∨
      (path.Settled memory' a ∧ memory'.rdram a = path.due memory a ∧
        (path.Fresh memory a → path.Fresh memory' a))) : path.Gentle memory memory' := by
  have each (a : Nat) : path.due memory' a = path.due memory a ∧
      (path.Fresh memory a → path.Fresh memory' a) ∧
      (path.Settled memory a → path.Settled memory' a) := by
    rcases h a with ⟨held, rdram⟩ | ⟨settled, rdram, fresh⟩
    · obtain ⟨due, fresh, settled, -⟩ := same_of_held_eq path memory memory' held rdram
      exact ⟨due, fresh.2, settled.2⟩
    · exact ⟨settled.due_eq.trans rdram, fresh, fun _ => settled⟩
  constructor
  · exact fun a => (each a).1
  · exact fun a => (each a).2.1
  · exact fun a => (each a).2.2

/-! ### Laws -/

variable (path) in
/-- What loads, stores and maintenance promise on a path. -/
structure Lawful : Prop where
  joined_self : ∀ a, path.joined a a
  /-- Where something is held, whole lines are. -/
  joined_of_held : ∀ ⦃cache a b⦄, a / 16 = b / 16 → path.held cache b ≠ none → path.joined a b
  moves : ∀ ⦃memory memory'⦄, path.moves memory memory' →
    path.Gentle memory memory' ∧ ∀ a, path.Absent memory a → path.Absent memory' a
  /-- A load gives what is due, unless an outdated copy is held. It may bring a copy in. -/
  load : ∀ ⦃a memory value memory'⦄, path.load a memory value memory' →
    path.Gentle memory memory' ∧
      (∀ b, ¬ path.joined a b → path.Absent memory b → path.Absent memory' b) ∧
      (path.Fresh memory a → value = path.due memory a)
  store_due : ∀ ⦃a value memory memory'⦄, path.store a value memory memory' →
    path.due memory' a = value
  /-- A store into an outdated copy may bring other outdated bytes to RDRAM. -/
  store_other : ∀ ⦃a value memory memory'⦄, path.store a value memory memory' →
    ∀ b ≠ a, (path.joined a b → path.Fresh memory b) → path.due memory' b = path.due memory b
  store_fresh : ∀ ⦃a value memory memory'⦄, path.store a value memory memory' →
    ∀ b, path.joined a b → path.Fresh memory' b
  store_apart : ∀ ⦃a value memory memory'⦄, path.store a value memory memory' →
    ∀ b, ¬ path.joined a b → path.held memory'.cache b = path.held memory.cache b ∧
      memory'.rdram b = memory.rdram b
  writeBack : ∀ ⦃a memory memory'⦄, path.maintain .writeBackData a memory memory' →
    path.Gentle memory memory' ∧ (∀ b, path.Absent memory b → path.Absent memory' b) ∧
      ∀ b, a / 16 = b / 16 → path.Settled memory' b
  invalidate : ∀ ⦃a memory memory'⦄, path.maintain .invalidateData a memory memory' →
    memory'.rdram = memory.rdram ∧ (∀ b, a / 16 = b / 16 → path.Absent memory' b) ∧
      (∀ b, path.Absent memory b → path.Absent memory' b) ∧
      ∀ b, (a / 16 = b / 16 → path.Absent memory b) →
        path.held memory'.cache b = path.held memory.cache b
  instruction : ∀ ⦃a memory memory'⦄, path.maintain .invalidateInstruction a memory memory' →
    memory' = memory

section Stores

variable (lawful : path.Lawful) {value : UInt8} (stored : path.store a value memory memory')

include lawful stored

/-- A store makes nothing outdated. -/
theorem Lawful.fresh_store {b : Nat} (fresh : path.Fresh memory b) : path.Fresh memory' b := by
  by_cases joined : path.joined a b
  · exact lawful.store_fresh stored b joined
  · obtain ⟨held, rdram⟩ := lawful.store_apart stored b joined
    exact (same_of_held_eq path memory memory' held rdram).2.1.2 fresh

/-- Where nothing that is joined with a byte is outdated, storing the byte is all that changes. -/
theorem Lawful.due_store (fresh : ∀ b, path.joined a b → path.Fresh memory b) :
    path.due memory' = Function.update (path.due memory) a value := by
  funext b
  by_cases same : b = a
  · rw [same, Function.update_self]
    exact lawful.store_due stored
  · rw [Function.update_of_ne same]
    exact lawful.store_other stored b same (fresh b)

end Stores

end MemoryPath

/-! ### Without a cache -/

/-- The processor reaches RDRAM directly: nothing is ever held, and maintenance has no effect. -/
def directPath : MemoryPath Unit where
  held _ _ := none
  joined a b := a = b
  moves _ _ := False
  load a memory value memory' := value = memory.rdram a ∧ memory' = memory
  store a value memory memory' :=
    memory' = { memory with rdram := Function.update memory.rdram a value }
  maintain _ _ memory memory' := memory' = memory

theorem directPath_absent (memory : Memory Unit) (a : Nat) : directPath.Absent memory a := rfl

theorem directPath_lawful : directPath.Lawful where
  joined_self _ := rfl
  joined_of_held _ _ _ _ holds := absurd rfl holds
  moves _ _ moved := moved.elim
  load := by
    rintro a memory value memory' ⟨rfl, rfl⟩
    exact ⟨.refl memory', fun _ _ h => h, fun _ => rfl⟩
  store_due := by
    rintro a value memory memory' rfl
    exact Function.update_self ..
  store_other := by
    rintro a value memory memory' rfl b ne -
    exact Function.update_of_ne ne ..
  store_fresh _ _ _ _ _ _ _ := (directPath_absent _ _).fresh
  store_apart := by
    rintro a value memory memory' rfl b apart
    exact ⟨rfl, Function.update_of_ne (Ne.symm apart) ..⟩
  writeBack := by
    rintro a memory memory' rfl
    exact ⟨.refl memory', fun _ h => h, fun _ _ => (directPath_absent _ _).settled⟩
  invalidate := by
    rintro a memory memory' rfl
    exact ⟨rfl, fun _ _ => rfl, fun _ h => h, fun _ _ => rfl⟩
  instruction _ _ _ same := same

/-! ### With a cache -/

/-- A cache line, with its bytes by their places in RDRAM. -/
structure CacheLine where
  bytes : Bytes
  dirty : Bool

/-- The lines that are held, by number: line `n` has the sixteen bytes from `16 n` on. -/
abbrev DataCache := Nat → Option CacheLine

namespace DataCache

/-- What a cache holds of a byte. -/
def held (cache : DataCache) (a : Nat) : Option HeldByte :=
  (cache (a / 16)).map fun line => ⟨line.bytes a, line.dirty⟩

/-- RDRAM with a line's bytes written into it. -/
def writtenBack (rdram : Bytes) (n : Nat) (line : CacheLine) : Bytes := fun a =>
  if a / 16 = n then line.bytes a else rdram a

/-- The line of a number, filled from RDRAM when it is not held. -/
def filled (memory : Memory DataCache) (n : Nat) : CacheLine :=
  (memory.cache n).getD ⟨memory.rdram, false⟩

/-- A line stops being dirty, written to RDRAM if it was, and is kept or not. -/
def cleaned (memory : Memory DataCache) (n : Nat) (line : CacheLine) (kept : Bool) :
    Memory DataCache where
  cache := Function.update memory.cache n (if kept then some { line with dirty := false } else none)
  rdram := if line.dirty then writtenBack memory.rdram n line else memory.rdram

end DataCache

open DataCache in
/-- The processor reaches RDRAM through a write-back cache with lines of sixteen bytes. Any line may
be evicted at any time; a load or a store brings its line in. -/
def cachedPath : MemoryPath DataCache where
  held := held
  joined a b := a / 16 = b / 16
  moves memory memory' := ∃ n line,
    memory.cache n = some line ∧ memory' = cleaned memory n line false
  load a memory value memory' := value = (filled memory (a / 16)).bytes a ∧
    memory' = { memory with
      cache := Function.update memory.cache (a / 16) (some (filled memory (a / 16))) }
  store a value memory memory' := memory' = { memory with
    cache := Function.update memory.cache (a / 16)
      (some ⟨Function.update (filled memory (a / 16)).bytes a value, true⟩) }
  maintain
    | .writeBackData, a, memory, memory' =>
        (∃ line, memory.cache (a / 16) = some line ∧ memory' = cleaned memory (a / 16) line true) ∨
        (memory.cache (a / 16) = none ∧ memory' = memory)
    | .invalidateData, a, memory, memory' =>
        memory' = { memory with cache := Function.update memory.cache (a / 16) none }
    | .invalidateInstruction, _, memory, memory' => memory' = memory

namespace DataCache

open MemoryPath

variable {memory : Memory DataCache} {cache : DataCache} {n a : Nat} {line : CacheLine}

theorem cachedPath_held : cachedPath.held = held := rfl

theorem held_update_of_ne {left : Option CacheLine} (ne : a / 16 ≠ n) :
    held (Function.update cache n left) a = held cache a := by
  rw [held, held, Function.update_of_ne ne]

theorem held_update_of_eq {left : Option CacheLine} (eq : a / 16 = n) :
    held (Function.update cache n left) a =
      left.map fun line => ⟨line.bytes a, line.dirty⟩ := by
  rw [held, eq, Function.update_self]

theorem held_of_some (present : cache (a / 16) = some line) :
    held cache a = some ⟨line.bytes a, line.dirty⟩ := by
  rw [held, present]
  rfl

theorem held_of_none (absent : cache (a / 16) = none) : held cache a = none := by
  rw [held, absent]
  rfl

/-- A byte of a line that is brought in: what was held of it, or else what RDRAM has. -/
theorem filled_cases (memory : Memory DataCache) (a : Nat) :
    (held memory.cache a =
        some ⟨(filled memory (a / 16)).bytes a, (filled memory (a / 16)).dirty⟩) ∨
      (held memory.cache a = none ∧ filled memory (a / 16) = ⟨memory.rdram, false⟩) := by
  cases present : memory.cache (a / 16) with
  | some line =>
    rw [held_of_some present, filled, present]
    exact .inl rfl
  | none =>
    rw [filled, present]
    exact .inr ⟨held_of_none present, rfl⟩

/-- Writing a line back changes nothing that is due, whether the line is kept or not. -/
theorem cleaned_gentle (present : memory.cache n = some line) (kept : Bool) :
    cachedPath.Gentle memory (cleaned memory n line kept) ∧
      (∀ a, cachedPath.Absent memory a → cachedPath.Absent (cleaned memory n line kept) a) ∧
      ∀ a, n = a / 16 → cachedPath.Settled (cleaned memory n line kept) a := by
  have other {a : Nat} (ne : a / 16 ≠ n) :
      DataCache.held (cleaned memory n line kept).cache a = DataCache.held memory.cache a ∧
        (cleaned memory n line kept).rdram a = memory.rdram a := by
    refine ⟨held_update_of_ne ne, ?_⟩
    show (if line.dirty then writtenBack memory.rdram n line else memory.rdram) a = _
    cases line.dirty with
    | false => rfl
    | true => exact if_neg ne
  have before {a : Nat} (eq : a / 16 = n) :
      DataCache.held memory.cache a = some ⟨line.bytes a, line.dirty⟩ :=
    held_of_some (by rw [eq]; exact present)
  have held {a : Nat} (eq : a / 16 = n) : held (cleaned memory n line kept).cache a =
      if kept then some ⟨line.bytes a, false⟩ else none := by
    rw [cleaned, held_update_of_eq eq]
    cases kept <;> rfl
  have settled {a : Nat} (eq : a / 16 = n) :
      cachedPath.Settled (cleaned memory n line kept) a := by
    intro value h
    rw [cachedPath_held, held eq] at h
    cases kept <;> cases h
  have rdram {a : Nat} (eq : a / 16 = n) :
      (cleaned memory n line kept).rdram a = cachedPath.due memory a := by
    show (if line.dirty then writtenBack memory.rdram n line else memory.rdram) a = _
    rw [due, cachedPath_held, before eq]
    cases line.dirty with
    | false => rfl
    | true => exact if_pos eq
  -- a copy that is kept is what RDRAM has now, unless the line was clean and outdated already
  have fresh {a : Nat} (eq : a / 16 = n) (fresh : cachedPath.Fresh memory a) :
      cachedPath.Fresh (cleaned memory n line kept) a := by
    intro value h
    rw [cachedPath_held, held eq] at h
    rw [rdram eq, due, cachedPath_held, before eq]
    cases kept with
    | false => cases h
    | true =>
      cases h
      cases dirty : line.dirty with
      | true => rfl
      | false =>
        apply fresh (line.bytes a)
        rw [cachedPath_held, before eq, dirty]
  refine ⟨.of_bytes fun a => ?_, fun a absent => ?_, fun a eq => settled eq.symm⟩
  · by_cases eq : a / 16 = n
    · exact .inr ⟨settled eq, rdram eq, fresh eq⟩
    · exact .inl (other eq)
  · by_cases eq : a / 16 = n
    · have absent : DataCache.held memory.cache a = none := absent
      rw [before eq] at absent
      cases absent
    · exact (other eq).1.trans absent

/-- Bringing a line in changes nothing that is due, and a load gives its copy. -/
theorem load_gentle (memory : Memory DataCache) (a : Nat) {memory' : Memory DataCache}
    (eq : memory' = { memory with
      cache := Function.update memory.cache (a / 16) (some (filled memory (a / 16))) }) :
    cachedPath.Gentle memory memory' ∧
      ∀ b, a / 16 ≠ b / 16 → cachedPath.Absent memory b → cachedPath.Absent memory' b := by
  have rdram : memory'.rdram = memory.rdram := by rw [eq]
  have other {b : Nat} (ne : a / 16 ≠ b / 16) : held memory'.cache b = held memory.cache b := by
    rw [eq]
    exact held_update_of_ne (Ne.symm ne)
  -- a byte of the line that is brought in was held like that, or is a copy of RDRAM now
  have held {b : Nat} (same : a / 16 = b / 16) :
      held memory'.cache b = DataCache.held memory.cache b ∨
        (DataCache.held memory.cache b = none ∧
          DataCache.held memory'.cache b = some ⟨memory.rdram b, false⟩) := by
    rw [eq, same, held_update_of_eq rfl]
    rcases filled_cases memory b with h | ⟨h, copy⟩
    · rw [h]
      exact .inl rfl
    · rw [copy]
      exact .inr ⟨h, rfl⟩
  refine ⟨.of_bytes fun b => ?_, fun b ne absent => (other ne).trans absent⟩
  by_cases same : a / 16 = b / 16
  · rcases held same with h | ⟨unheld, h⟩
    · exact .inl ⟨h, congrFun rdram b⟩
    · have absent : cachedPath.Absent memory b := unheld
      refine .inr ⟨fun value dirty => ?_, ?_, fun _ value copy => ?_⟩
      · rw [cachedPath_held, h] at dirty
        cases dirty
      · rw [absent.settled.due_eq, rdram]
      · rw [cachedPath_held, h] at copy
        cases copy
        rw [rdram]
  · exact .inl ⟨other same, congrFun rdram b⟩

end DataCache

open DataCache in
theorem cachedPath_lawful : cachedPath.Lawful where
  joined_self _ := rfl
  joined_of_held _ _ _ same _ := same
  moves := by
    rintro memory memory' ⟨n, line, present, rfl⟩
    obtain ⟨gentle, absent, -⟩ := cleaned_gentle present false
    exact ⟨gentle, absent⟩
  load := by
    rintro a memory value memory' ⟨rfl, eq⟩
    obtain ⟨gentle, absent⟩ := load_gentle memory a eq
    refine ⟨gentle, absent, fun fresh => ?_⟩
    -- a dirty copy is what is due, a clean one is what RDRAM has unless it is outdated
    rcases filled_cases memory a with held | ⟨held, copy⟩
    · rw [MemoryPath.due, cachedPath_held, held]
      cases dirty : (filled memory (a / 16)).dirty with
      | true => rfl
      | false =>
        rw [dirty] at held
        exact fresh _ held
    · rw [MemoryPath.due, cachedPath_held, held, copy]
  store_due := by
    rintro a value memory memory' rfl
    rw [MemoryPath.due, cachedPath_held, held_update_of_eq rfl]
    exact Function.update_self ..
  store_other := by
    rintro a value memory memory' rfl b ne fresh
    by_cases same : b / 16 = a / 16
    · -- the whole line is dirty now, so its other bytes are due as they are held
      rw [MemoryPath.due, MemoryPath.due, cachedPath_held, held_update_of_eq same, ← same]
      show Function.update (filled memory (b / 16)).bytes a value b = _
      rw [Function.update_of_ne ne]
      rcases filled_cases memory b with held | ⟨held, copy⟩
      · rw [held]
        cases dirty : (filled memory (b / 16)).dirty with
        | true => rfl
        | false =>
          rw [dirty] at held
          exact fresh same.symm _ held
      · rw [held, copy]
    · rw [MemoryPath.due, MemoryPath.due, cachedPath_held, held_update_of_ne same]
  store_fresh := by
    rintro a value memory memory' rfl b same copy held
    -- nothing in a dirty line is a clean copy
    rw [cachedPath_held, held_update_of_eq (Eq.symm same)] at held
    cases held
  store_apart := by
    rintro a value memory memory' rfl b apart
    exact ⟨held_update_of_ne (Ne.symm apart), rfl⟩
  writeBack := by
    rintro a memory memory' (⟨line, present, rfl⟩ | ⟨unheld, rfl⟩)
    · exact cleaned_gentle present true
    · refine ⟨.refl memory', fun _ h => h, fun b same => MemoryPath.Absent.settled ?_⟩
      exact held_of_none (by rw [← same]; exact unheld)
  invalidate := by
    rintro a memory memory' rfl
    refine ⟨rfl, fun b same => ?_, fun b absent => ?_, fun b apart => ?_⟩
    · exact held_update_of_eq same.symm
    · by_cases same : a / 16 = b / 16
      · exact held_update_of_eq same.symm
      · exact (held_update_of_ne (Ne.symm same)).trans absent
    · by_cases same : a / 16 = b / 16
      · exact (held_update_of_eq same.symm).trans (apart same).symm
      · exact held_update_of_ne (Ne.symm same)
  instruction _ _ _ same := same

end ColdBoot
