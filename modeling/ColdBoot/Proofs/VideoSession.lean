import ColdBoot.Proofs.Footprint
import Mathlib.Data.Nat.Bitwise

/-! # Sessions of the video output

Where picture memory lies, what a program does with the video output between bringing it up and
switching off, and which value the video output has afterwards.

* **`FrameMemory.Apart`** – the staging page and the framebuffers share no byte of RDRAM;
* **`Video.Operation`** – one thing a program does with a video output;
* **`Video.session`** – bringing up, followed by any operations;
* **`Video.currentColor`** – the clear colour behind such a history. -/

namespace ColdBoot

/-! ### Places in RDRAM -/

/-- Place in RDRAM of the byte at an address. -/
abbrev placeOf (vaddr : UInt32) : Nat := (PhysAddr.ofAddress vaddr).word.toNat

namespace FrameMemory

variable (memory : FrameMemory)

/-- First byte of a framebuffer. -/
def place (index : Fin 2) : Nat := placeOf (memory.framebuffer index)

/-- First byte of the staging page. -/
def stagingPlace : Nat := placeOf memory.staging

/-- A byte of a framebuffer. -/
def InFrame (index : Fin 2) (a : Nat) : Prop :=
  memory.place index ≤ a ∧ a < memory.place index + Framebuffer.byteSize.toNat

/-- A byte of the staging page. -/
def InStaging (a : Nat) : Prop :=
  memory.stagingPlace ≤ a ∧ a < memory.stagingPlace + pageSize.toNat

/-- The framebuffers share no byte, and neither goes round at the end of physical space. -/
structure FramesApart : Prop where
  fits : ∀ index, memory.place index + Framebuffer.byteSize.toNat ≤ 2 ^ 29
  apart : ∀ a, memory.InFrame 0 a → ¬ memory.InFrame 1 a

/-- Nor do they share one with the staging page, which does not go round either. -/
structure Apart : Prop extends memory.FramesApart where
  stagingFits : memory.stagingPlace + pageSize.toNat ≤ 2 ^ 29
  stagingApart : ∀ index a, memory.InStaging a → ¬ memory.InFrame index a

/-- The framebuffers lie on 64 bytes and the staging page on 16, as their types demand. -/
structure Aligned : Prop where
  frames : ∀ index, (memory.framebuffer index).toNat % 64 = 0
  staging : memory.staging.toNat % 16 = 0

variable {memory}

theorem FramesApart.of_ne (apart : memory.FramesApart) {i j : Fin 2} (ne : i ≠ j) {a : Nat}
    (h : memory.InFrame i a) : ¬ memory.InFrame j a := by
  intro h'
  match i, j with
  | 0, 0 => exact ne rfl
  | 0, 1 => exact apart.apart a h h'
  | 1, 0 => exact apart.apart a h' h
  | 1, 1 => exact ne rfl

end FrameMemory

/-! ### Platforms -/

/-- The scales and the control word of every platform can be computed, and the control word is one
that turns the output on. -/
theorem Platform.exists_values (platform : Platform) :
    ∃ x y ctrl, platform.profile.xScale = .ok x ∧ platform.profile.yScale = .ok y ∧
      platform.profile.ctrl .resampleOnly = .ok ctrl ∧ ctrl ≠ 0 := by
  cases platform <;> exact ⟨_, _, _, rfl, rfl, rfl, by decide⟩

/-! ### Operations -/

namespace Video

/-- One thing that a program does with a video output. -/
inductive Operation where
  /-- Clear the rendered framebuffer. -/
  | clear
  /-- Draw into the rendered framebuffer, after a look at it. -/
  | draw (function : Framebuffer → Drawing)
  /-- Change the clear colour. -/
  | setColor (color : Color)
  /-- Show the rendered framebuffer. -/
  | swap
  /-- Wait for vertical blank. -/
  | wait
  /-- Lower the vblank flag. -/
  | finish
  /-- Look at the vblank flag. -/
  | look
  /-- Do the interrupt's half of the vertical blank. -/
  | signal

namespace Operation

/-- An operation as a program; it gives back the video output behind it. -/
def program (config : Config) (video : Video) : Operation → Program Video
  | .clear => do
      video.clearTarget config
      return video
  | .draw function => do
      let before ← Program.perform (.loadFrame video.target)
      Program.perform (.storePixels video.target (function before))
      return video
  | .setColor color => do
      video.setClearColor color
      return video
  | .swap => video.swapBuffers
  | .wait => do
      vblankWait
      return video
  | .finish => do
      vblankEnd
      return video
  | .look => do
      let _ ← vblankTriggered
      return video
  | .signal => do
      Interrupt.vblank
      return video

/-- The video output behind an operation: only a swap changes which framebuffer is displayed. -/
def next (video : Video) : Operation → Video
  | .swap => { video with displaying := video.rendering }
  | _ => video

/-- The clear colour behind an operation, if it was `color` before. -/
def colorAfter (color : Color) : Operation → Color
  | .setColor new => new
  | _ => color

theorem next_of_ne_swap {operation : Operation} (ne : operation ≠ .swap) (video : Video) :
    operation.next video = video := by
  cases operation with
  | swap => exact absurd rfl ne
  | _ => rfl

@[simp] theorem next_memory (operation : Operation) (video : Video) :
    (operation.next video).memory = video.memory := by
  cases operation <;> rfl

/-- An operation that neither starts a transfer nor touches memory. -/
def IsAside : Operation → Prop
  | .wait | .finish | .look | .signal => True
  | _ => False

theorem IsAside.next_eq {operation : Operation} (h : operation.IsAside) (video : Video) :
    operation.next video = video := by
  apply next_of_ne_swap
  rintro rfl
  exact h

/-- All that such an operation does is aside. -/
theorem IsAside.exists_part {operation : Operation} (h : operation.IsAside) (config : Config)
    (video : Video) : ∃ part : Program Unit, part.Accesses Command.IsAside ∧
      operation.program config video = (part >>= fun _ => .done video) := by
  cases operation with
  | wait => exact ⟨_, Fence.accesses_wait, rfl⟩
  | finish => exact ⟨_, .perform (.setFence false) trivial, rfl⟩
  | look =>
    refine ⟨Program.perform .getFence >>= fun _ => .done (), ?_, rfl⟩
    exact Program.Accesses.bind (.perform _ trivial) fun _ => .done ()
  | signal =>
    refine ⟨Interrupt.vblank, ?_, rfl⟩
    exact Program.Accesses.bind (.perform _ trivial) fun _ => .write ⟨nofun, nofun⟩
  | clear | draw | setColor | swap => exact h.elim

end Operation

/-- Operations, one behind the other. -/
def perform (config : Config) : List Operation → Video → Program Video
  | [], video => return video
  | operation :: rest, video => do
      let video ← operation.program config video
      perform config rest video

/-- Bring the video output up and go on with any operations. -/
def session (config : Config) (memory : FrameMemory) (platform : Platform) (color : Color)
    (operations : List Operation) : Program Video := do
  let video ← bringUp config memory platform color
  perform config operations video

/-- The clear colour behind a session: the last one that was set, or else the first one. -/
def currentColor (color : Color) (operations : List Operation) : Color :=
  operations.foldl Operation.colorAfter color

/-- The video output when it has been brought up. -/
def initial (memory : FrameMemory) (platform : Platform) : Video :=
  ⟨memory, ⟨0, Nat.zero_lt_two⟩, platform⟩

/-- Bringing up, as far as nothing is shown: the output is blanked, the flag lowered, the colour
loaded, and both framebuffers are cleared. -/
def prepare (config : Config) (memory : FrameMemory) (platform : Platform) (color : Color) :
    Program Unit := do
  Program.write ViRegister.ctrl 0
  Fence.clear
  (initial memory platform).setClearColor color
  clearFramebuffer config (initial memory platform) ⟨0, Nat.zero_lt_two⟩
  clearFramebuffer config (initial memory platform) ⟨1, Nat.one_lt_two⟩
  (timingRecord platform).emit config.logFilter

/-- Bringing up is preparing, and then showing the first framebuffer. -/
theorem bringUp_eq (config : Config) (memory : FrameMemory) (platform : Platform) (color : Color) :
    bringUp config memory platform color = (do
      prepare config memory platform color
      (initial memory platform).writeTiming platform.profile
      return initial memory platform) := by
  simp only [bringUp, prepare, bind_assoc]
  rfl

/-- The video output behind a list of operations. -/
def behind (video : Video) (operations : List Operation) : Video :=
  operations.foldl Operation.next video

theorem rendering_ne (video : Video) : video.rendering ≠ video.displaying := by
  unfold rendering
  generalize video.displaying = index
  revert index
  decide

/-- There are two framebuffers, so the two indices add up to one. -/
theorem rendering_eq (video : Video) : video.rendering.val = 1 - video.displaying.val := by
  unfold rendering
  generalize video.displaying = index
  revert index
  decide

@[simp] theorem behind_memory (video : Video) (operations : List Operation) :
    (video.behind operations).memory = video.memory := by
  induction operations generalizing video with
  | nil => rfl
  | cons operation rest ih => exact (ih _).trans (operation.next_memory video)

/-! ### From operations to sessions -/

section Sessions

variable {σ : Type} {hw : Hardware σ} {guard : Hardware.Guard σ} {config : Config}
  {boundary : Video → Color → σ → Prop}

/-- What every operation carries from its start to its end holds behind any list of operations. -/
theorem ensures_perform
    (sound : ∀ video color, hw.Sound guard (boundary video color))
    (step : ∀ (operation : Operation) video color,
      hw.Ensures guard (boundary video color) (operation.program config video) fun video' s =>
        video' = operation.next video ∧ boundary video' (operation.colorAfter color) s)
    (operations : List Operation) (video : Video) (color : Color) :
    hw.Ensures guard (boundary video color) (perform config operations video) fun video' s =>
      video' = video.behind operations ∧ boundary video' (currentColor color operations) s := by
  -- an operation returns the video output that the rest goes on with
  induction operations generalizing video color with
  | nil => exact .done (sound video color) fun _ h => ⟨rfl, h⟩
  | cons operation rest ih =>
    refine .bind (step operation video color) fun video' => .of_fact ?_
    rintro rfl
    exact ih _ _

/-- What holds when the video output has been brought up, and what every operation carries on, holds
behind every session. -/
theorem ensures_session {before : σ → Prop} {memory : FrameMemory} {platform : Platform}
    {color : Color} (sound : ∀ video color, hw.Sound guard (boundary video color))
    (start : hw.Ensures guard before (bringUp config memory platform color) fun video s =>
      video = initial memory platform ∧ boundary video color s)
    (step : ∀ (operation : Operation) video color,
      hw.Ensures guard (boundary video color) (operation.program config video) fun video' s =>
        video' = operation.next video ∧ boundary video' (operation.colorAfter color) s)
    (operations : List Operation) :
    hw.Ensures guard before (session config memory platform color operations) fun video s =>
      video = (initial memory platform).behind operations ∧
        boundary video (currentColor color operations) s := by
  refine .bind start fun video => .of_fact ?_
  rintro rfl
  exact ensures_perform sound step operations _ color

end Sessions

end Video

end ColdBoot
