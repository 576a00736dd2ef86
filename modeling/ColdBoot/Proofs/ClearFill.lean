import ColdBoot.Proofs.FrameSession
import ColdBoot.Proofs.LiveBoard

/-! # A clear is a fill

On a board without a cache, what the processor stores is in RDRAM at once, and the engine's copies
are all that happens later. Behind any session the signal processor has the pattern of the current
colour, so the transfers of a clear, whenever they are carried out, leave the target in that colour.

* **`Video.Filled`** – one framebuffer in one colour, and nothing else changed;
* **`Video.clearTarget_fills`** – behind every session a clear fills its target. -/

namespace ColdBoot

open Hardware MemoryPath

/-- Without a cache every region is made of whole lines. -/
theorem FrameMemory.whole_directPath (memory : FrameMemory) : memory.Whole directPath where
  staging _ _ inside same := same ▸ inside
  frame _ _ _ inside same := same ▸ inside

namespace Video

open Board

variable {memory : FrameMemory} {config : Config} {platform : Platform} {color : Color}
  {operations : List Operation} {video : Video} {s t u : Board Unit}
  {moments later : List (Moment (Board Unit))}

/-- From one board to another, a framebuffer has been filled with a colour by the transfers of the
clear plan, in their order, and nothing else has happened to RDRAM. -/
structure Filled (memory : FrameMemory) (index : Fin 2) (color : Color) (s t : Board Unit) :
    Prop where
  picture : Framebuffer.ofBytes t.memory.rdram (memory.place index) = .uniform color
  elsewhere : ∀ a, ¬ memory.InFrame index a → t.memory.rdram a = s.memory.rdram a
  idle : t.engine.queue = []
  started : t.engine.started = s.engine.started ++ clearTransfers memory index

/-- The transfers of a clear: 38 of them, a page each but for the last, one behind the other. -/
theorem clearTransfers_eq (memory : FrameMemory) (index : Fin 2) :
    clearTransfers memory index = (List.range 38).map fun i =>
      .linear .toRdram 0 (memory.place index + i * 4096) (min 4096 (153600 - i * 4096)) := by
  rw [clearTransfers, clearChunks_eq, List.map_map]
  refine List.map_congr_left fun i member => ?_
  show chunkTransfer _ (frameChunk i) = _
  rw [chunkTransfer, toNat_offset_frameChunk (List.mem_range.1 member), toNat_len_frameChunk]

/-- From a board at rest a clear fills the target. -/
theorem filled_of_atRest (apart : video.memory.Apart) (rest : AtRest directPath video color t)
    (execution : (hardware directPath).Execution (video.clearTarget config) t later
      (.returned ()) u) :
    Filled video.memory video.rendering color t u := by
  have whole := video.memory.whole_directPath
  have returns : (hardware directPath).Execution (Operation.clear.program config video) t
      (later ++ []) (.returned video) u :=
    execution.bind ⟨.done video, .rest .refl⟩
  obtain ⟨-, sheltered, behind⟩ :=
    ensures_operation directPath_lawful apart whole rest .clear rfl returns
  obtain ⟨-, idle, started, -, picture⟩ := behind video rfl
  exact ⟨picture.ofBytes_eq, sheltered.kept, idle.queue, started⟩

/-- **A clear is a fill.** Bring the video output up on a board without a cache, with whatever
transfers outstanding that do not go to the staging page, and go on with any operations. Then the
signal processor has the pattern of the current colour, and a clear that returns has filled its
target: every pixel has the colour, no other byte of RDRAM has changed, no transfer is outstanding,
and the 38 transfers of the clear plan were started, in their order, and no others. -/
theorem clearTarget_fills (apart : memory.Apart)
    (own : ∀ a, memory.InStaging a → ¬ Leftover s a)
    (history : (hardware directPath).Execution (session config memory platform color operations) s
      moments (.returned video) t) :
    HasPattern (currentColor color operations) t.engine.dmem ∧
      (clearTransfers memory video.rendering).length = 38 ∧
      ∀ later u, (hardware directPath).Execution (video.clearTarget config) t later
        (.returned ()) u →
        Filled memory video.rendering (currentColor color operations) t u := by
  obtain ⟨eq, rest⟩ := atRest_of_session directPath_lawful apart memory.whole_directPath own history
  have same : video.memory = memory := by rw [eq, behind_memory]; rfl
  refine ⟨rest.known.1, ?_, fun later u execution => ?_⟩
  · rw [clearTransfers_eq, List.length_map, List.length_range]
  · rw [← same] at apart ⊢
    exact filled_of_atRest apart rest execution

/-- A session on a board that begins with a transfer out of instruction memory, and a clear. -/
theorem clearTarget_fills_leftover : ∃ moments video t later u,
    (hardware directPath).Execution
      (session (.silent true) .secondMegabyte .ntsc ⟨1⟩ [.clear, .setColor ⟨0xF801⟩, .swap])
      (.blank () [.linear .toRdram 4096 0 64]) moments (.returned video) t ∧
    (hardware directPath).Execution (video.clearTarget (.silent true)) t later (.returned ()) u ∧
    Filled .secondMegabyte 0 ⟨0xF801⟩ t u := by
  have own (a : Nat) (inside : FrameMemory.secondMegabyte.InStaging a) :
      ¬ Leftover (.blank () [.linear .toRdram 4096 0 64]) a := by
    rintro ⟨byte, ⟨transfer, member, -, copied⟩, rfl⟩
    obtain rfl := List.mem_singleton.1 member
    obtain ⟨i, lt, rfl⟩ := Transfer.mem_linear.1 copied
    have : 0x180000 ≤ 0 + i := inside.1
    omega
  obtain ⟨moments, video, t, eq, history⟩ :=
    (live directPath_total).exists_execution
      (finishable_session FrameMemory.secondMegabyte_aligned .ntsc ⟨1⟩
        [.clear, .setColor ⟨0xF801⟩, .swap])
      (.blank () [.linear .toRdram 4096 0 64])
  have same : video.memory = .secondMegabyte := by rw [eq]; rfl
  have target : video.rendering = 0 := by rw [eq]; rfl
  have finishes : (video.clearTarget (.silent true)).Finishes := by
    apply finishable_clearFramebuffer
    rw [same]
    exact FrameMemory.secondMegabyte_aligned.frames _
  obtain ⟨later, _, u, -, execution⟩ := (live directPath_total).exists_execution finishes t
  obtain ⟨-, -, fills⟩ := clearTarget_fills FrameMemory.secondMegabyte_apart own history
  rw [← target]
  exact ⟨moments, video, t, later, u, history, execution, fills later u execution⟩

end Video

end ColdBoot
