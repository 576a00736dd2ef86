import ColdBoot.Proofs.Board
import ColdBoot.Proofs.Finishing

/-! # Boards that answer

Nothing on the board blocks for ever: a path that carries out every load, store and maintenance
makes the board answer every command, and an engine left alone comes to the end of its queue. So
finishable programs have executions that return, and what is proved of all executions is about some.

* **`MemoryPath.Total`** – whatever the processor asks of the path can happen;
* **`Board.exists_drained`** – the engine can come to the end of its queue;
* **`Board.live`** – the board is live. -/

namespace ColdBoot

open Hardware MemoryPath Relation

/-! ### Total paths -/

/-- Loads, stores and maintenance can always happen. -/
structure MemoryPath.Total {κ : Type} (path : MemoryPath κ) : Prop where
  load : ∀ a memory, ∃ value memory', path.load a memory value memory'
  store : ∀ a value memory, ∃ memory', path.store a value memory memory'
  maintain : ∀ operation a memory, ∃ memory', path.maintain operation a memory memory'

theorem directPath_total : directPath.Total where
  load _ memory := ⟨_, memory, rfl, rfl⟩
  store _ _ _ := ⟨_, rfl⟩
  maintain _ _ memory := ⟨memory, rfl⟩

theorem cachedPath_total : cachedPath.Total where
  load _ _ := ⟨_, _, rfl, rfl⟩
  store _ _ _ := ⟨_, rfl⟩
  maintain operation a memory := by
    cases operation with
    | invalidateInstruction => exact ⟨memory, rfl⟩
    | invalidateData => exact ⟨_, rfl⟩
    | writeBackData =>
      cases present : memory.cache (a / 16) with
      | none => exact ⟨memory, .inr ⟨present, rfl⟩⟩
      | some line => exact ⟨_, .inl ⟨line, present, rfl⟩⟩

namespace Board

variable {κ : Type} {path : MemoryPath κ}

/-! ### The engine comes to its end -/

variable (path) in
/-- The active transfer can be carried out. -/
theorem exists_retired {s : Board κ} {transfer : Transfer} {rest : List Transfer}
    (active : s.engine.queue = transfer :: rest) :
    ∃ met, (hardware path).MovesTo s met ∧ met.engine.queue = rest := by
  obtain ⟨direction, bytes⟩ := transfer
  induction bytes generalizing s with
  | nil => exact ⟨_, .single (.engine (.retire active)), rfl⟩
  | cons byte bytes ih =>
    cases direction with
    | fromRdram =>
      obtain ⟨met, moved, queue⟩ := ih (s := { s with engine := { s.engine with
        queue := ⟨.fromRdram, bytes⟩ :: rest
        dmem := Function.update s.engine.dmem byte.mem (s.memory.rdram byte.dram) } }) rfl
      exact ⟨met, .head (.engine (.load active)) moved, queue⟩
    | toRdram =>
      obtain ⟨met, moved, queue⟩ := ih (s := { s with
        engine := { s.engine with queue := ⟨.toRdram, bytes⟩ :: rest }
        memory := { s.memory with
          rdram := Function.update s.memory.rdram byte.dram (s.engine.dmem byte.mem) } }) rfl
      exact ⟨met, .head (.engine (.store active)) moved, queue⟩

variable (path) in
/-- So can the whole queue. -/
theorem exists_drained (s : Board κ) :
    ∃ met, (hardware path).MovesTo s met ∧ met.engine.queue = [] := by
  generalize eq : s.engine.queue = queue
  induction queue generalizing s with
  | nil => exact ⟨s, .refl, eq⟩
  | cons transfer rest ih =>
    obtain ⟨between, moved, queue⟩ := exists_retired path eq
    obtain ⟨met, further, drained⟩ := ih between queue
    exact ⟨met, moved.trans further, drained⟩

/-! ### Commands are carried out -/

section Answers

variable (total : path.Total)

include total

theorem exists_stores (s : Board κ) (stores : List (Nat × UInt8)) :
    ∃ t, Stores path s stores t := by
  induction stores generalizing s with
  | nil => exact ⟨s, .nil s⟩
  | cons store stores ih =>
    obtain ⟨memory, stored⟩ := total.store store.1 store.2 s.memory
    obtain ⟨t, rest⟩ := ih { s with memory }
    exact ⟨t, .cons .refl stored rest⟩

/-- Each of some places is loaded once, so the loaded bytes are those of one memory. -/
theorem exists_loads (s : Board κ) (places : List Nat) (once : places.Nodup) :
    ∃ (seen : Bytes) (t : Board κ), Loads path s (places.map fun a => (a, seen a)) t := by
  induction places generalizing s with
  | nil => exact ⟨fun _ => 0, s, .nil s⟩
  | cons a places ih =>
    obtain ⟨value, memory, loaded⟩ := total.load a s.memory
    obtain ⟨fresh, once⟩ := List.nodup_cons.1 once
    obtain ⟨seen, t, rest⟩ := ih { s with memory } once
    -- the byte seen here is not among the later ones, which therefore stay as they are
    refine ⟨Function.update seen a value, t, ?_⟩
    have others : (places.map fun b => (b, Function.update seen a value b)) =
        places.map fun b => (b, seen b) := by
      refine List.map_congr_left fun b member => ?_
      rw [Function.update_of_ne fun eq : b = a => fresh (eq ▸ member)]
    rw [List.map_cons, others, Function.update_self]
    exact .cons .refl loaded rest

/-- A framebuffer can be looked at. -/
theorem exists_loadFrame (s : Board κ) (base : Nat) :
    ∃ (fb : Framebuffer) (t : Board κ), Loads path s (fb.loads base) t := by
  let places := (List.range Framebuffer.byteSize.toNat).map (base + ·)
  have once : places.Nodup :=
    List.Pairwise.map _ (fun _ _ ne eq => ne (Nat.add_left_cancel eq)) List.nodup_range
  obtain ⟨seen, t, loads⟩ := exists_loads total s places once
  refine ⟨.ofBytes seen base, t, ?_⟩
  have same : Framebuffer.loads (.ofBytes seen base) base = places.map fun a => (a, seen a) := by
    rw [List.map_map]
    refine List.map_congr_left fun k member => ?_
    rw [← Framebuffer.ofBytes_liesAt seen base k (List.mem_range.1 member)]
    rfl
  rw [same]
  exact loads

omit total in
variable (path) in
/-- The engine's two bits can be shown as they are. -/
theorem exists_word (s : Board κ) (register : Register) :
    ∃ word : UInt32, (hardware path).responds s (.read register) word s := by
  let bit : Bool := (register = SpRegister.dmaBusy ∧ 0 < s.engine.queue.length) ∨
    (register = SpRegister.dmaFull ∧ 2 ≤ s.engine.queue.length)
  have shown : testBit (if bit then 1 else 0) 0 = bit := by
    cases bit <;> decide
  have ne : SpRegister.dmaBusy ≠ SpRegister.dmaFull := by decide
  refine ⟨if bit then 1 else 0, rfl, ?_, ?_⟩
  · rintro rfl
    rw [shown]
    simp [bit, ne]
  · rintro rfl
    rw [shown]
    simp [bit, ne.symm]

/-- **The board is live.** -/
theorem live : (hardware path).Live where
  answers s command := by
    cases command with
    | read register =>
      obtain ⟨word, responded⟩ := exists_word path s register
      exact ⟨word, s, responded⟩
    | write register value => exact ⟨(), s.write register value, rfl⟩
    | cache operation vaddr =>
      obtain ⟨memory, maintained⟩ := total.maintain operation (placeOf vaddr) s.memory
      exact ⟨(), _, memory, maintained, rfl⟩
    | loadFrame vaddr => exact exists_loadFrame total s (placeOf vaddr)
    | storePixels vaddr drawing =>
      obtain ⟨t, stores⟩ := exists_stores total s (Drawing.stores drawing (placeOf vaddr))
      exact ⟨(), t, stores⟩
    | fillStaging vaddr color =>
      obtain ⟨t, stores⟩ := exists_stores total s (color.pageStores (placeOf vaddr))
      exact ⟨(), t, stores⟩
    | getStatus => exact ⟨(0 : Flags), s, rfl⟩
    | getCause => exact ⟨(0 : UInt32), s, rfl⟩
    | getFence => exact ⟨true, s, rfl⟩
    | storeDoubleword vaddr word =>
      by_cases past : inUncachedWindow vaddr
      · exact ⟨(), _, (if_pos past).mpr rfl⟩
      · obtain ⟨t, stores⟩ := exists_stores total s (doublewordStores word (placeOf vaddr))
        exact ⟨(), t, (if_neg past).mpr stores⟩
    | setStatus | setFence => exact ⟨(), s, rfl⟩
  waits s command accepted wait := by
    obtain ⟨met, moved, idle⟩ := exists_drained path s
    have clear (register : Register) :
        (hardware path).responds met (.read register) (0 : UInt32) met := by
      refine ⟨rfl, fun _ => ?_, fun _ => ?_⟩ <;> rw [idle] <;> decide
    cases wait with
    | idle => exact ⟨met, (0 : UInt32), met, moved, clear _, by decide⟩
    | slot => exact ⟨met, (0 : UInt32), met, moved, clear _, by decide⟩
    | fence => exact ⟨s, true, s, .refl, rfl, rfl⟩

end Answers

end Board

/-! ### A memory map, a board, a program's choices and a console -/

namespace FrameMemory

/-- Picture memory in the second megabyte. -/
def secondMegabyte : FrameMemory := ⟨0x80100000, 0x80140000, 0x80180000⟩

theorem place_secondMegabyte (index : Fin 2) :
    secondMegabyte.place index = 2 ^ 20 + index.val * 2 ^ 18 := by
  revert index
  decide

theorem secondMegabyte_apart : secondMegabyte.Apart where
  fits index := by
    have : index.val < 2 := index.isLt
    rw [place_secondMegabyte]
    show _ + 153600 ≤ _
    omega
  apart a := by
    rw [InFrame, InFrame, place_secondMegabyte, place_secondMegabyte]
    show _ ∧ a < _ + 153600 → ¬ _
    simp only [Fin.val_zero, Fin.val_one]
    omega
  stagingFits := by decide
  stagingApart index a := by
    have : index.val < 2 := index.isLt
    have place : secondMegabyte.stagingPlace = 2 ^ 20 + 2 ^ 19 := by decide
    rw [InFrame, InStaging, place_secondMegabyte, place]
    show _ → ¬ (_ ∧ a < _ + 153600)
    omega

theorem secondMegabyte_aligned : secondMegabyte.Aligned := ⟨by decide, by decide⟩

end FrameMemory

/-- A board with empty memories, and some transfers outstanding. -/
def Board.blank {κ : Type} (cache : κ) (queue : List Transfer) : Board κ where
  engine := { memAddr := 0, dramAddr := 0, queue, started := [], dmem := fun _ => 0 }
  memory := { cache, rdram := fun _ => 0 }
  origin := 0

namespace Board

variable {κ : Type}

theorem stored_black (cache : κ) (queue : List Transfer) (base : Nat) :
    (blank cache queue).stored (Color.pageStores ⟨0⟩ base) = blank cache queue := by
  rw [blank, stored, Bytes.stored_black]

end Board

/-- A silent program, with the queue in use or not. -/
def Config.silent (dmaQueue : Bool) : Config := ⟨dmaQueue, false, none, .off⟩

namespace Console

/-- A silent boot, with picture memory in the second megabyte. -/
def silentBoot : Program Console :=
  boot (.silent true) .secondMegabyte .generalException (.ofTarget 0x80000400) ⟨0x0001⟩

/-- A draw function that leaves a framebuffer as it is cleared. -/
def leaveClear (_ : Unit) : DrawFunction Unit := fun _ _ => .ok ([], ())

/-- A draw function that leaves a dot of the frame's number. -/
def dot (_ : Unit) : DrawFunction Unit := fun _ number =>
  .ok ([⟨⟨0, by decide⟩, number.toUInt16⟩], ())

theorem finishable_silentBoot : silentBoot.Finishable fun console =>
    console.video.memory = .secondMegabyte :=
  finishable_boot FrameMemory.secondMegabyte_aligned _ _ _

variable {console : Console} (eq : console.video.memory = .secondMegabyte) (count : Nat)

include eq

theorem finishes_run_leaveClear : (run (.silent true) console leaveClear () count).Finishes :=
  finishable_run FrameMemory.secondMegabyte_aligned (fun _ _ _ => ⟨[], (), rfl⟩) () count eq

end Console

end ColdBoot
