import ColdBoot.Proofs.FrameSession
import ColdBoot.Proofs.LiveBoard
import ColdBoot.Proofs.Rectangle

/-! # Coherence of the frame path

On a board with a write-back cache the processor and the engine may see different bytes at one
place. The frame path keeps them from doing so where it counts, whatever the cache holds at the
beginning, whenever lines are evicted and whenever transfers are carried out. Alignment is what
makes it work: the staging page and the framebuffers are made of whole cache lines.

* **`FrameMemory.Aligned.whole`** – aligned frame memory is made of whole lines;
* **`Video.Coherent`** – coherence behind a session, and during whatever operation comes next;
* **`Video.session_coherent`** – every session is coherent from its first access on. -/

namespace ColdBoot

open Hardware MemoryPath

/-- Aligned frame memory is made of whole cache lines. -/
theorem FrameMemory.Aligned.whole {memory : FrameMemory} (aligned : memory.Aligned) :
    memory.Whole cachedPath where
  staging a b inside same := by
    have same : a / 16 = b / 16 := same
    have place : memory.stagingPlace % 16 = 0 := by
      have := aligned.staging
      rw [stagingPlace, placeOf, PhysAddr.toNat_ofAddress]
      omega
    have le : memory.stagingPlace ≤ a := inside.1
    have lt : a < memory.stagingPlace + 4096 := inside.2
    show _ ≤ b ∧ b < _ + 4096
    omega
  frame index a b inside same := by
    have same : a / 16 = b / 16 := same
    have place : memory.place index % 16 = 0 := by
      have := aligned.frames index
      rw [FrameMemory.place, placeOf, PhysAddr.toNat_ofAddress]
      omega
    have le : memory.place index ≤ a := inside.1
    have lt : a < memory.place index + 153600 := inside.2
    show _ ≤ b ∧ b < _ + 153600
    omega

namespace Video

open Board

/-- **Coherence** of a board between two operations, and of every operation that comes next.

Every load of the pattern finds in RDRAM the bytes that the staging page was filled with; while a
clear is being carried out, and behind it, nothing is held of its target that could hide the new
picture or be written over it; and outside the bytes that an operation works on, what is due stays
due, so no dirty byte is lost. -/
structure Coherent (config : Config) (video : Video) (color : Color) (s : Board DataCache) :
    Prop where
  /-- The engine is idle with the current pattern, and no framebuffer byte is outdated. -/
  rest : AtRest cachedPath video color s
  /-- The video interface sees what the processor has drawn. -/
  shown : ∀ a, video.memory.InFrame video.displaying a →
    s.memory.rdram a = cachedPath.due s.memory a
  /-- Wherever an operation is cut off. -/
  during : ∀ (operation : Operation) moments ending t,
    (hardware cachedPath).Execution (operation.program config video) s moments ending t →
    (∀ moment ∈ moments, Sheltered cachedPath video.memory (operation.colorAfter color)
      (operation.target video) (operation.region video) s.memory moment.state) ∧
    Sheltered cachedPath video.memory (operation.colorAfter color) (operation.target video)
      (operation.region video) s.memory t
  /-- When an operation returns. -/
  behind : ∀ (operation : Operation) moments video' t,
    (hardware cachedPath).Execution (operation.program config video) s moments (.returned video')
      t →
    video' = operation.next video ∧ AtRest cachedPath video' (operation.colorAfter color) t ∧
      operation.Effect video cachedPath color s t

variable {memory : FrameMemory} {config : Config} {platform : Platform} {color : Color}
  {s : Board DataCache}

theorem Coherent.of_atRest {video : Video} (apart : video.memory.Apart)
    (aligned : video.memory.Aligned) (rest : AtRest cachedPath video color s) :
    Coherent config video color s where
  rest := rest
  shown a inside := (rest.fact.shown a inside).due_eq.symm
  during operation moments ending t execution := by
    obtain ⟨guarded, final, -⟩ :=
      ensures_operation cachedPath_lawful apart aligned.whole rest operation rfl execution
    exact ⟨guarded, final⟩
  behind operation moments video' t execution := by
    obtain ⟨-, -, returns⟩ :=
      ensures_operation cachedPath_lawful apart aligned.whole rest operation rfl execution
    obtain ⟨rfl, behind⟩ := returns video' rfl
    exact ⟨rfl, behind⟩

/-- **The frame path is coherent.** Bring the video output up on a board with a write-back cache,
whatever the cache holds and whatever transfers are outstanding that do not go to the staging page.
All the way up the work is sheltered, and in the end both framebuffers have the colour in RDRAM.
Behind every session the board is coherent, and so it is during and behind the next operation. -/
theorem session_coherent (apart : memory.Apart) (aligned : memory.Aligned)
    (own : ∀ a, memory.InStaging a → ¬ Leftover s a) :
    (∀ moments ending t,
      (hardware cachedPath).Execution (bringUp config memory platform color) s moments ending t →
      (∀ moment ∈ moments, ComingUp cachedPath memory color s moment.state) ∧
        ComingUp cachedPath memory color s t ∧
        ∀ video, ending = .returned video →
          ∀ index, (Framebuffer.uniform color).LiesAt t.memory.rdram (memory.place index)) ∧
      ∀ operations moments video t,
        (hardware cachedPath).Execution (session config memory platform color operations) s moments
          (.returned video) t →
        Coherent config video (currentColor color operations) t := by
  have whole := aligned.whole
  refine ⟨fun moments ending t execution => ?_, fun operations moments video t execution => ?_⟩
  · obtain ⟨guarded, final, returns⟩ :=
      ensures_bringUp cachedPath_lawful apart whole platform s own rfl execution
    refine ⟨guarded, final, fun video returned index k lt => ?_⟩
    obtain ⟨-, -, -, cleared⟩ := returns video returned
    obtain ⟨due, -, settled⟩ := cleared index k lt
    rw [← settled.due_eq, due, Framebuffer.byte_uniform color lt]
  · obtain ⟨eq, rest⟩ := atRest_of_session cachedPath_lawful apart whole own execution
    have same : video.memory = memory := by rw [eq, behind_memory]; rfl
    rw [← same] at apart aligned
    exact .of_atRest apart aligned rest

/-- A session on a board whose cache holds every line, and holds it dirty. -/
theorem session_coherent_dirty : ∃ moments video t,
    (hardware cachedPath).Execution
      (session (.silent false) .secondMegabyte .mpal ⟨0x7BDF⟩
        [.draw fun _ => Drawing.point 3 4 ⟨1⟩, .swap, .clear])
      (.blank (fun _ => some ⟨fun _ => 0xFF, true⟩) []) moments (.returned video) t ∧
    Coherent (.silent false) video ⟨0x7BDF⟩ t := by
  obtain ⟨moments, video, t, -, execution⟩ :=
    (live cachedPath_total).exists_execution
      (finishable_session FrameMemory.secondMegabyte_aligned .mpal
        ⟨0x7BDF⟩ [.draw fun _ => Drawing.point 3 4 ⟨1⟩, .swap, .clear])
      (.blank (fun _ => some ⟨fun _ => 0xFF, true⟩) [])
  refine ⟨moments, video, t, execution, ?_⟩
  exact (session_coherent FrameMemory.secondMegabyte_apart FrameMemory.secondMegabyte_aligned
    fun a _ => not_leftover rfl a).2 _ moments video t execution

end Video

end ColdBoot
