import ColdBoot.Proofs.MemoryPath
import ColdBoot.Proofs.TransferEngine
import ColdBoot.Proofs.VideoSession

/-! # The board under the video output

The signal processor's engine, RDRAM, the processor's path to it, and the one register of the video
interface that says where the picture lies. Engine and path move by themselves at any time, also
between two bytes of one command. Other registers may answer anything, and writing them has no
effect on memory.

* **`Board.hardware`** – the board with a given path, as hardware for programs;
* **`Board.queueLaws`** – its queue is seen as programs expect, and **`Board.ensures_waitIdle`** – a
  wait for the engine ends with an idle engine;
* **`Board.Stores.induct`** – an invariant of every store is one of a whole command. -/

namespace ColdBoot

open Relation

/-- The board: engine, memory, and the place that the video interface shows. -/
structure Board (κ : Type) where
  engine : TransferEngine
  memory : Memory κ
  origin : UInt32

/-- The loads that read a picture. -/
def Framebuffer.loads (fb : Framebuffer) (base : Nat) : List (Nat × UInt8) :=
  (List.range byteSize.toNat).map fun k => (base + k, fb.byte k)

namespace Board

variable {κ : Type} (path : MemoryPath κ)

/-- What the board does by itself. -/
inductive Moves : Board κ → Board κ → Prop where
  | engine {s : Board κ} {engine : TransferEngine} {rdram : Bytes}
      (moved : s.engine.Moves s.memory.rdram engine rdram) :
      Moves s { s with engine, memory := { s.memory with rdram } }
  | memory {s : Board κ} {memory : Memory κ} (moved : path.moves s.memory memory) :
      Moves s { s with memory }

/-- The processor stores bytes, one after another. -/
inductive Stores : Board κ → List (Nat × UInt8) → Board κ → Prop where
  | nil (s : Board κ) : Stores s [] s
  | cons {s met t : Board κ} {store : Nat × UInt8} {stores : List (Nat × UInt8)}
      {memory : Memory κ} (moved : ReflTransGen (Moves path) s met)
      (stored : path.store store.1 store.2 met.memory memory)
      (rest : Stores { met with memory } stores t) : Stores s (store :: stores) t

/-- The processor loads bytes, one after another. -/
inductive Loads : Board κ → List (Nat × UInt8) → Board κ → Prop where
  | nil (s : Board κ) : Loads s [] s
  | cons {s met t : Board κ} {load : Nat × UInt8} {loads : List (Nat × UInt8)}
      {memory : Memory κ} (moved : ReflTransGen (Moves path) s met)
      (loaded : path.load load.1 met.memory load.2 memory)
      (rest : Loads { met with memory } loads t) : Loads s (load :: loads) t

/-- The board behind stores that go past the processor's side. -/
def stored (s : Board κ) (stores : List (Nat × UInt8)) : Board κ :=
  { s with memory := { s.memory with rdram := s.memory.rdram.stored stores } }

/-- The board behind the write of a register. -/
def write (s : Board κ) (register : Register) (value : UInt32) : Board κ where
  engine := s.engine.write register value
  memory := s.memory
  origin := if register = ViRegister.origin then value else s.origin

/-- What commands do. -/
def responds : Board κ → (command : Command) → command.Answer → Board κ → Prop
  | s, .read register, word, t => t = s ∧
      (register = SpRegister.dmaBusy → testBit word 0 = decide (0 < s.engine.queue.length)) ∧
      (register = SpRegister.dmaFull → testBit word 0 = decide (2 ≤ s.engine.queue.length))
  | s, .write register value, _, t => t = s.write register value
  | s, .cache operation vaddr, _, t => ∃ memory,
      path.maintain operation (placeOf vaddr) s.memory memory ∧ t = { s with memory }
  | s, .storeDoubleword vaddr word, _, t =>
      let stores := doublewordStores word (placeOf vaddr)
      if inUncachedWindow vaddr then t = s.stored stores else Stores path s stores t
  | s, .loadFrame vaddr, fb, t => Loads path s (fb.loads (placeOf vaddr)) t
  | s, .storePixels vaddr drawing, _, t => Stores path s (Drawing.stores drawing (placeOf vaddr)) t
  | s, .fillStaging vaddr color, _, t => Stores path s (color.pageStores (placeOf vaddr)) t
  | s, _, _, t => t = s

/-- The board as hardware. -/
def hardware : Hardware (Board κ) := ⟨Moves path, responds path⟩

variable {path}

/-! ### Bytes one after another -/

/-- What holds of a list of stores and the board before them, and is carried on by each store,
holds behind the last one. -/
theorem Stores.induct {s t : Board κ} {stores : List (Nat × UInt8)} (h : Stores path s stores t)
    (invariant : List (Nat × UInt8) → Board κ → Prop)
    (stable : ∀ stores, (hardware path).Stable (invariant stores))
    (carry : ∀ store stores s memory, invariant (store :: stores) s →
      path.store store.1 store.2 s.memory memory → invariant stores { s with memory })
    (start : invariant stores s) : invariant [] t := by
  -- the board may have moved in front of each store, which a stable invariant does not notice
  induction h with
  | nil s => exact start
  | cons moved stored _ ih =>
    exact ih (carry _ _ _ _ ((stable _).movesTo moved start) stored)

/-- The same for loads. -/
theorem Loads.induct {s t : Board κ} {loads : List (Nat × UInt8)} (h : Loads path s loads t)
    (invariant : List (Nat × UInt8) → Board κ → Prop)
    (stable : ∀ loads, (hardware path).Stable (invariant loads))
    (carry : ∀ load loads s memory, invariant (load :: loads) s →
      path.load load.1 s.memory load.2 memory → invariant loads { s with memory })
    (start : invariant loads s) : invariant [] t := by
  induction h with
  | nil s => exact start
  | cons moved loaded _ ih =>
    exact ih (carry _ _ _ _ ((stable _).movesTo moved start) loaded)

/-- With nothing in front of RDRAM, stores that go past the processor's side are like any others. -/
theorem stores_stored (s : Board Unit) (stores : List (Nat × UInt8)) :
    Stores directPath s stores (s.stored stores) := by
  induction stores generalizing s with
  | nil => exact .nil s
  | cons store stores ih => exact .cons .refl rfl (ih _)

theorem stores_of_storeDoubleword {s t : Board Unit} {vaddr : UInt32} {word : UInt64}
    (responded : (hardware directPath).responds s (.storeDoubleword vaddr word) () t) :
    Stores directPath s (doublewordStores word (placeOf vaddr)) t := by
  by_cases past : inUncachedWindow vaddr
  · obtain rfl : t = s.stored (doublewordStores word (placeOf vaddr)) := (if_pos past).mp responded
    exact stores_stored s _
  · exact (if_neg past).mp responded

/-! ### Accesses that are aside -/

/-- What is aside leaves the board as it is. -/
theorem eq_of_isAside {s t : Board κ} {command : Command} {answer : command.Answer}
    (aside : command.IsAside) (responded : (hardware path).responds s command answer t) :
    t = s := by
  cases command with
  | read register => exact responded.1
  | write register value =>
    obtain rfl : t = s.write register value := responded
    rw [write, s.engine.write_of_block_ne value aside.1, if_neg aside.2]
  | getStatus | setStatus | getCause | setFence | getFence => exact responded
  | cache | storeDoubleword | loadFrame | storePixels | fillStaging => exact aside.elim

/-- So it keeps whatever may be asserted. -/
theorem keeps_aside {claim assertion : Board κ → Prop}
    (sound : (hardware path).Sound (.always claim) assertion) :
    (hardware path).Keeps (.always claim) Command.IsAside assertion where
  toSound := sound
  access := fun _ _ _ h => sound.state h
  responds := by
    intro s command answer t aside h responded
    rw [eq_of_isAside aside responded]
    exact h

/-! ### The queue -/

/-- Outstanding transfers. -/
def outstanding (s : Board κ) : Nat := s.engine.queue.length

variable (path) in
theorem outstanding_le_stable (n : Nat) :
    (hardware path).Stable fun s : Board κ => s.outstanding ≤ n := by
  intro s t moved h
  cases moved with
  | engine moved => exact Nat.le_trans moved.length_le h
  | memory moved => exact h

/-- **What starts no transfer** does nothing to the queue that the engine may not do by itself. -/
theorem keeps_queue (fact : List Transfer → Prop)
    (stable : (hardware path).Stable fun s => fact s.engine.queue) :
    (hardware path).Keeps .none (fun command => ¬ command.IsStart) fun s => fact s.engine.queue where
  stable := stable
  state _ _ := trivial
  access _ _ _ _ := trivial
  responds := by
    intro s command answer t other h responded
    have same {t : Board κ} (eq : t = s) : fact t.engine.queue := by rwa [eq]
    -- the engine has time to work on its queue between the bytes of a command
    have stores {stores : List (Nat × UInt8)} (done : Stores path s stores t) :
        fact t.engine.queue := done.induct _ (fun _ => stable) (fun _ _ _ _ h _ => h) h
    cases command with
    | read register => exact same responded.1
    | write register value =>
      obtain rfl : t = s.write register value := responded
      exact (s.engine.queue_write other).symm ▸ h
    | cache operation vaddr =>
      obtain ⟨memory, -, rfl⟩ := responded
      exact h
    | storeDoubleword vaddr word =>
      by_cases past : inUncachedWindow vaddr
      · obtain rfl : t = s.stored (doublewordStores word (placeOf vaddr)) := (if_pos past).mp responded
        exact h
      · exact stores ((if_neg past).mp responded)
    | loadFrame vaddr =>
      exact Loads.induct responded _ (fun _ => stable) (fun _ _ _ _ h _ => h) h
    | storePixels vaddr drawing => exact stores responded
    | fillStaging vaddr color => exact stores responded
    | getStatus | setStatus | getCause | setFence | getFence => exact same responded

variable (path) in
/-- The board shows its queue as programs expect. -/
theorem queueLaws : (hardware path).QueueLaws (outstanding (κ := κ)) where
  moves s _ moved := outstanding_le_stable path s.outstanding moved (Nat.le_refl _)
  busy _ _ _ responded := responded.2.1 rfl
  full _ _ _ responded := responded.2.2 rfl
  starts := by
    intro s command answer t start responded
    cases command with
    | write register value =>
      obtain rfl : t = s.write register value := responded
      rcases start with rfl | rfl
      · exact s.engine.length_start_le .fromRdram value
      · exact s.engine.length_start_le .toRdram value
    | _ => exact start.elim
  others := by
    intro s command answer t other responded
    have keeps := keeps_queue (fun queue => queue.length ≤ s.outstanding)
      (outstanding_le_stable path s.outstanding)
    exact keeps.responds other (Nat.le_refl _) responded

/-! ### Waiting for the engine -/

section Waiting

variable {claim assertion : Board κ → Prop}
  (sound : (hardware path).Sound (.always claim) assertion)

include sound

/-- An idle engine stays idle. -/
theorem sound_and_idle :
    (hardware path).Sound (.always claim) fun s => assertion s ∧ s.engine.queue = [] := by
  constructor
  · apply sound.stable.and
    intro s t moved idle
    cases moved with
    | engine moved => exact absurd idle moved.not_idle
    | memory moved => exact idle
  · exact fun s h => sound.state h.1

/-- Behind a wait the engine is idle. -/
theorem ensures_waitIdle : (hardware path).Ensures (.always claim) assertion Sp.engine.waitIdle
    fun _ s => assertion s ∧ s.engine.queue = [] := by
  refine ((queueLaws path).ensures_waitIdle (keeps_aside sound)).mono (fun _ h => h) ?_
  rintro _ s ⟨h, drained⟩
  exact ⟨h, List.length_eq_zero_iff.1 (Nat.le_zero.1 drained)⟩

end Waiting

end Board

end ColdBoot
