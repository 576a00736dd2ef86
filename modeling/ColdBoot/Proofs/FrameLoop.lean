import ColdBoot.Proofs.BootSequence
import ColdBoot.Proofs.FirstPicture

/-! # The frame loop on the board

A frame clears the rendered framebuffer, so the draw function always finds the colour of the boot,
whatever an earlier frame has left there. Behind the boot the board is at rest with that colour, and
every frame leads from rest to rest; so what is known of one frame is known of all of them.

* **`Console.atRest_of_boot`** – the board behind the boot;
* **`Console.Shows`** – what a frame does to the board and to the console;
* **`Console.shows_of_frame`** – one frame, from a board at rest;
* **`Console.reached_of_frames`** – any number of frames;
* **`Console.frame_end_to_end`** – each frame behind the boot. -/

namespace ColdBoot

open Hardware MemoryPath Program

/-- An access to a picture: a look at a framebuffer, or pixels stored into one. -/
def Command.IsPicture : Command → Prop
  | .loadFrame _ | .storePixels _ _ => True
  | _ => False

instance : DecidablePred Command.IsPicture
  | .loadFrame _ | .storePixels _ _ => instDecidableTrue
  | .getStatus | .setStatus _ | .getCause | .cache _ _ | .read _ | .write _ _
  | .storeDoubleword _ _ | .setFence _ | .getFence | .fillStaging _ _ => instDecidableFalse

/-- Notes are aside. -/
theorem Command.IsNote.isAside {command : Command} (h : command.IsNote) : command.IsAside := by
  cases command with
  | read => trivial
  | write register value =>
    refine ⟨fun sp => ?_, fun origin => ?_⟩
    · rw [Command.IsNote, sp] at h
      rcases h with ram | viewer
      · cases ram
      · cases viewer
    · rw [Command.IsNote, origin] at h
      rcases h with ram | viewer
      · cases ram
      · cases viewer
  | _ => exact h.elim

theorem Command.IsAside.not_isPicture (command : Command) (h : command.IsAside) :
    ¬ command.IsPicture := by
  cases command with
  | loadFrame | storePixels => exact h.elim
  | _ => exact id

theorem Command.IsTransfer.not_isPicture (command : Command) (h : command.IsTransfer) :
    ¬ command.IsPicture := by
  cases command with
  | loadFrame | storePixels => exact h.elim
  | _ => exact id

namespace Video

/-- A clear leaves pictures to the signal processor. -/
theorem apart_clearTarget (config : Config) (video : Video) :
    (video.clearTarget config).Accesses fun command => ¬ command.IsPicture :=
  (paced_clearFramebuffer config video _).accesses Command.IsTransfer.not_isPicture
    fun command h => Command.IsAside.not_isPicture command h.isAside

/-- A swap only writes back what the processor still holds of them. -/
theorem apart_swapBuffers (video : Video) :
    video.swapBuffers.Accesses fun command => ¬ command.IsPicture := by
  have cache (command : Command) (h : command.IsCache) : ¬ command.IsPicture := by
    cases command with
    | cache => exact id
    | _ => exact h.elim
  exact accesses_swapBuffers cache (fun _ => id) video

end Video

/-- The accesses to pictures among some moments. -/
def picturesIn {σ : Type} (moments : List (Moment σ)) : List Event :=
  (moments.map Moment.event).filter (·.command.IsPicture)

section

variable {σ : Type}

@[simp] theorem picturesIn_append (first second : List (Moment σ)) :
    picturesIn (first ++ second) = picturesIn first ++ picturesIn second := by
  rw [picturesIn, List.map_append, List.filter_append]
  rfl

theorem picturesIn_eq_nil {α : Type} {hw : Hardware σ} {program : Program α} {s t : σ}
    {moments : List (Moment σ)} {ending : Ending α} {K : Command → Prop}
    (accesses : program.Accesses K) (away : ∀ command, K command → ¬ command.IsPicture)
    (execution : hw.Execution program s moments ending t) : picturesIn moments = [] := by
  refine List.filter_eq_nil_iff.2 fun event member => ?_
  simpa using away _ (accesses.of_runs execution.run event member)

/-- One access that is made. -/
theorem Hardware.Execution.of_perform {hw : Hardware σ} {command : Command} {answer : command.Answer}
    {s t : σ} {moments : List (Moment σ)}
    (execution : hw.Execution (Program.perform command) s moments (.returned answer) t) :
    ∃ met, moments = [⟨met, ⟨command, answer⟩⟩] := by
  obtain ⟨met, given, behind, rest, rfl, -, -, execution⟩ := execution.of_step
  obtain ⟨rfl, rfl, -⟩ := execution.of_done
  exact ⟨met, rfl⟩

end

namespace Console

variable {κ : Type} {path : MemoryPath κ} (lawful : path.Lawful) {config : Config} {color : Color}
  {slot : VectorSlot} {entry : Trampoline} {s t : Board κ} {moments : List (Moment (Board κ))}

/-! ### Behind the boot -/

/-- A console that has shown `n` frames. -/
structure Reached (memory : FrameMemory) (n : Nat) (console : Console) : Prop where
  memory_eq : console.video.memory = memory
  displaying_eq : console.video.displaying = Fin.ofNat 2 n
  frameCount_eq : console.frameCount = UInt32.ofNat n

theorem patchVector_starts_nothing :
    (patchVector config slot entry).Accesses fun command => ¬ command.IsStart := by
  have quiet {program : Program Unit} (h : program.Accesses Command.IsAside) :
      program.Accesses fun command => ¬ command.IsStart := h.mono fun _ h => h.not_isStart
  have notes := (Beacon.writes_mark config .entry).mono fun _ h => h.isAside nofun nofun
  have mask : Cpu.disableInterrupts.Accesses Command.IsAside :=
    .step trivial fun _ => .step trivial fun _ => .done _
  refine (quiet notes).bind fun _ => (mask.mono fun _ h => h.not_isStart).bind fun _ => ?_
  have lines : (Lines.disable Lines.all).Accesses Command.IsAside := .write ⟨nofun, nofun⟩
  refine (quiet lines).bind fun _ => ?_
  exact (Accesses.perform _ id).bind fun _ => .perform _ id

theorem aside_arm : (arm config).Accesses Command.IsAside := by
  have status : (Cpu.modifyStatus Interrupts.armedStatus).Accesses Command.IsAside :=
    .step trivial fun _ => .step trivial fun _ => .done _
  refine Accesses.bind (.write ⟨nofun, nofun⟩) fun _ => status.bind fun _ => ?_
  refine (LogRecord.accesses_emit _ _).bind fun _ => ?_
  exact (Beacon.writes_mark _ _).mono fun _ h => h.isAside nofun nofun

section Rest

include lawful

/-- What the board does by itself leaves it at rest. -/
theorem atRest_sound (video : Video) (color : Color) :
    (Board.hardware path).Sound (.always fun _ => True) (Board.AtRest path video color) :=
  Board.idle_sound lawful Board.FramesAtRest.robust fun _ _ => trivial

/-- **Behind the boot** the board is at rest with the boot's colour, if no transfer that was
outstanding goes to the staging page. -/
theorem atRest_of_boot {memory : FrameMemory} (apart : memory.Apart) (whole : memory.Whole path)
    {console : Console} (own : ∀ a, memory.InStaging a → ¬ Video.Leftover s a)
    (booted : (Board.hardware path).Execution (boot config memory slot entry color) s moments
      (.returned console) t) :
    Reached memory 0 console ∧ Board.AtRest path console.video color t := by
  rw [boot_eq] at booted
  obtain ⟨_, _, _, patched, -, patching, booted⟩ := booted.of_bind
  obtain ⟨_, _, ⟨params, video⟩, up, -, bringing, booted⟩ := booted.of_bind
  obtain ⟨_, _, _, armed, -, arming, resting⟩ := booted.of_bind
  obtain ⟨-, rfl, last⟩ := resting.of_done
  obtain ⟨_, _, ⟨params', platform⟩, surveyed, -, surveying, bringing⟩ := bringing.of_bind
  obtain ⟨_, _, video', shown, -, raising, marking⟩ := bringing.of_bind
  obtain ⟨_, _, _, _, -, beaming, done⟩ := marking.of_bind
  obtain ⟨-, eq, further⟩ := done.of_done
  obtain ⟨rfl, rfl⟩ := Prod.mk.inj eq
  have surveyed_own (a : Nat) (inside : memory.InStaging a) : ¬ Video.Leftover surveyed a := by
    intro left
    have aside := (notes_survey config entry).mono fun _ h => h.isAside
    refine own a inside (Video.leftover_of_no_start patchVector_starts_nothing patching ?_)
    exact Video.leftover_of_no_start (aside.mono fun _ h => h.not_isStart) surveying left
  obtain ⟨-, -, returned⟩ :=
    Video.ensures_bringUp lawful apart whole platform surveyed surveyed_own rfl raising
  obtain ⟨rfl, rest, -⟩ := returned _ rfl
  -- the beacon and the arming are aside, and so is what the board does by itself
  have sound := atRest_sound lawful (Video.initial memory platform) color
  have beacon := (Beacon.writes_mark config .video).mono fun _ h => h.isAside nofun nofun
  obtain ⟨-, -, returned⟩ := (Board.keeps_aside sound).ensures beacon rest beaming
  have rest := sound.stable.movesTo further (returned _ rfl)
  obtain ⟨-, -, returned⟩ := (Board.keeps_aside sound).ensures aside_arm rest arming
  exact ⟨⟨rfl, rfl, rfl⟩, sound.stable.movesTo last (returned _ rfl)⟩

/-! ### One frame -/

/-- What a frame does, from one board to another: the draw function is called once, with the frame's
number, on the framebuffer that is not displayed, which it finds clear; that framebuffer is shown
then, as it was left, and the other one is as before. -/
structure Shows {ρ : Type} (memory : FrameMemory) (color : Color) (n : Nat)
    (function : DrawFunction ρ) (moments : List (Moment (Board κ))) (s t : Board κ) (result : ρ) :
    Prop where
  /-- The only accesses to pictures are a look at the clear framebuffer, for the draw function, and
  the stores of its drawing. -/
  drawn : ∃ drawing,
    function (.uniform color) (.ofNat n) = .ok (drawing, result) ∧
    picturesIn moments =
      [⟨.loadFrame (memory.framebuffer (Fin.ofNat 2 (n + 1))), Framebuffer.uniform color⟩,
        ⟨.storePixels (memory.framebuffer (Fin.ofNat 2 (n + 1))) drawing, ()⟩] ∧
    Framebuffer.ofBytes t.memory.rdram (memory.place (Fin.ofNat 2 (n + 1))) =
      (Framebuffer.uniform color).paint drawing
  /-- The video interface scans that framebuffer out. -/
  origin : t.origin = (PhysAddr.ofAddress (memory.framebuffer (Fin.ofNat 2 (n + 1)))).word
  /-- The last access lowers the vblank flag. -/
  lowered : ∃ front met, moments = front ++ [⟨met, ⟨.setFence false, ()⟩⟩]
  /-- The other framebuffer is as before. -/
  kept : Framebuffer.ofBytes t.memory.rdram (memory.place (Fin.ofNat 2 n)) =
    Framebuffer.ofBytes s.memory.rdram (memory.place (Fin.ofNat 2 n))

section Parts

variable {video : Video} (apart : video.memory.Apart) (whole : video.memory.Whole path)
  (rest : Board.AtRest path video color s)

include rest

/-- What is aside leaves the board at rest, and changes nothing that is due. -/
theorem elsewhere_of_aside {α : Type} {program : Program α} {value : α}
    (aside : program.Accesses Command.IsAside)
    (execution : (Board.hardware path).Execution program s moments (.returned value) t) :
    Board.AtRest path video color t ∧ path.Elsewhere (fun _ => False) s.memory t.memory := by
  let fact (m : Memory κ) : Prop := path.Elsewhere (fun _ => False) s.memory m ∧
    Board.FramesAtRest path video.memory video.displaying color m
  let known (dmem : Bytes) (_ : List Transfer) (origin : UInt32) : Prop :=
    Board.HasPattern color dmem ∧
      origin = (PhysAddr.ofAddress (video.memory.framebuffer video.displaying)).word
  have robust : path.Robust fact :=
    (RobustUnder.elsewhere _ fun _ => id).and Board.FramesAtRest.robust
  have sound : (Board.hardware path).Sound (.always fun _ => True) (Board.Idle fact known) :=
    Board.idle_sound lawful robust fun _ _ => trivial
  obtain ⟨-, -, returned⟩ := (Board.keeps_aside sound).ensures aside
    ⟨rest.queue, ⟨.refl s.memory, rest.fact⟩, rest.known⟩ execution
  have there := returned value rfl
  exact ⟨there.mono fun _ h => h.2, there.fact.1⟩

/-- A look at the target that shows one colour finds it. -/
theorem eq_uniform_of_look
    (lies : (Framebuffer.uniform color).LiesAt (path.due s.memory)
      (video.memory.place video.rendering)) {before : Framebuffer}
    (execution : (Board.hardware path).Execution (Program.perform (.loadFrame video.target)) s moments
      (.returned before) t) : before = .uniform color := by
  have look : (Board.hardware path).Ensures (.always fun _ => True)
      (Board.Idle (path.Elsewhere (fun _ => False) s.memory) fun _ _ _ => True)
      (Program.perform (.loadFrame video.target)) fun fb t =>
        Framebuffer.LiesAt fb (path.due s.memory) (placeOf video.target) ∧
          Board.Idle (path.Elsewhere (fun _ => False) s.memory) (fun _ _ _ => True) t :=
    Board.ensures_loadFrame lawful
      (fun k lt => rest.fact.fresh _ ⟨_, FrameMemory.inFrame_add lt⟩) (fun _ _ => id)
      fun _ _ => trivial
  obtain ⟨-, -, returned⟩ := look ⟨rest.queue, .refl s.memory, trivial⟩ execution
  exact (Eq.symm (returned before rfl).1.ofBytes_eq).trans lies.ofBytes_eq

/-- A draw function that finds the target clear, and stops, has left. -/
theorem left_of_draw {ρ : Type} {function : DrawFunction ρ} {number : UInt32} {reason : Stop}
    (lies : (Framebuffer.uniform color).LiesAt (path.due s.memory)
      (video.memory.place video.rendering))
    (execution : (Board.hardware path).Execution (draw function video.target number) s moments
      (.stopped reason) t) : function (.uniform color) number = .error reason := by
  obtain ⟨_, _, before, seen, -, look, execution⟩ :=
    execution.of_bind_stopped (.perform (.loadFrame video.target))
  obtain rfl := eq_uniform_of_look lawful rest lies look
  cases eq : function (.uniform color) number with
  | error other =>
    rw [eq] at execution
    rcases execution.of_stop with same | same <;> cases same
    rfl
  | ok drawn =>
    rw [eq] at execution
    have stores : (do
        Program.perform (.storePixels video.target drawn.1)
        return drawn.2 : Program ρ).Finishes :=
      .bind (.perform (.storePixels _ _)) fun _ => .done trivial
    exact absurd rfl (stores.not_stopped execution.run reason)

include apart whole

/-- A clear leaves the clear colour in the target, and nothing else has changed. -/
theorem lies_of_clearTarget (execution : (Board.hardware path).Execution (video.clearTarget config) s
      moments (.returned ()) t) :
    Board.AtRest path video color t ∧
      (Framebuffer.uniform color).LiesAt (path.due t.memory) (video.memory.place video.rendering) ∧
      ∀ a, ¬ video.memory.InFrame video.rendering a → path.due t.memory a = path.due s.memory a := by
  have returns : (Board.hardware path).Execution (Video.Operation.clear.program config video) s
      (moments ++ []) (.returned video) t := execution.bind ⟨.done video, .rest .refl⟩
  obtain ⟨-, sheltered, returned⟩ := Video.ensures_clear lawful apart whole rest rfl returns
  obtain ⟨-, rest, -, absent, lies⟩ := returned video rfl
  refine ⟨rest, fun k lt => ?_, sheltered.kept⟩
  rw [(absent _ (FrameMemory.inFrame_add lt)).settled.due_eq]
  exact lies k lt

variable {ρ : Type} {function : DrawFunction ρ} {number : UInt32}

/-- A draw function that finds the target clear leaves its drawing there, and nothing else has
changed. -/
theorem exists_drawing_of_draw
    (lies : (Framebuffer.uniform color).LiesAt (path.due s.memory)
      (video.memory.place video.rendering)) {result : ρ}
    (execution : (Board.hardware path).Execution (draw function video.target number) s moments
      (.returned result) t) :
    ∃ drawing, function (.uniform color) number = .ok (drawing, result) ∧
      picturesIn moments = [⟨.loadFrame video.target, Framebuffer.uniform color⟩,
        ⟨.storePixels video.target drawing, ()⟩] ∧
      Board.AtRest path video color t ∧
      ((Framebuffer.uniform color).paint drawing).LiesAt (path.due t.memory)
        (video.memory.place video.rendering) ∧
      ∀ a, ¬ video.memory.InFrame video.rendering a → path.due t.memory a = path.due s.memory a := by
  obtain ⟨looking, _, before, seen, rfl, look, execution⟩ := execution.of_bind
  obtain rfl : before = .uniform color := eq_uniform_of_look lawful rest lies look
  cases eq : function (.uniform color) number with
  | error reason =>
    rw [eq] at execution
    rcases execution.of_stop with eq | eq <;> cases eq
  | ok drawn =>
    obtain ⟨drawing, result'⟩ := drawn
    rw [eq] at execution
    obtain ⟨storing, _, _, stored, rfl, store, done⟩ := execution.of_bind
    obtain ⟨rfl, rfl, moved⟩ := done.of_done
    -- the same accesses are an operation of the video output
    have operation : (Board.hardware path).Execution
        ((Video.Operation.draw fun _ => drawing).program (.silent true) video) s
        (looking ++ (storing ++ [])) (.returned video) t :=
      look.bind (store.bind ⟨.done video, .rest moved⟩)
    obtain ⟨-, sheltered, returned⟩ := Video.ensures_drawing lawful apart whole rest
      (fun _ => drawing) (fun _ => False) rfl operation
    obtain ⟨-, rest, -, fb, found, painted⟩ := returned video rfl
    obtain rfl : fb = .uniform color := (Eq.symm found.ofBytes_eq).trans lies.ofBytes_eq
    obtain ⟨_, rfl⟩ := look.of_perform
    obtain ⟨_, rfl⟩ := store.of_perform
    exact ⟨drawing, rfl, rfl, rest, painted, sheltered.kept⟩

omit whole in
/-- Behind a swap RDRAM has what is due in both framebuffers, and what is due is the same. -/
theorem settled_of_swapBuffers {video' : Video}
    (swapping : (Board.hardware path).Execution video.swapBuffers s moments (.returned video') t) :
    video' = { video with displaying := video.rendering } ∧
      Board.AtRest path { video with displaying := video.rendering } color t ∧
      path.Elsewhere (fun _ => False) s.memory t.memory := by
  have operation : (Board.hardware path).Execution
      (Video.Operation.swap.program (.silent true) video) s moments (.returned video') t := swapping
  obtain ⟨-, -, returned⟩ := Video.ensures_swap lawful apart rest
    (fun _ => False) (fun _ => False) rfl operation
  obtain ⟨rfl, rest', -⟩ := returned _ rfl
  obtain ⟨-, -, returned⟩ := Video.ensures_swapBuffers lawful video rfl
    (apart.fits _) color (fun _ => False) (fun _ => False) (Video.start_of_eq rest rfl) swapping
  exact ⟨rfl, rest', (returned _ rfl).2.fact.1⟩

end Parts

section Frame

variable {memory : FrameMemory} (apart : memory.Apart) (whole : memory.Whole path) {n : Nat}
  {console console' : Console} {ρ : Type} {function : DrawFunction ρ} {result : ρ}

include lawful apart whole

/-- **A frame** from a board at rest: the next one starts at rest again. -/
theorem shows_of_frame (reached : Reached memory n console)
    (rest : Board.AtRest path console.video color s)
    (execution : (Board.hardware path).Execution (console.frame config function) s moments
      (.returned (console', result)) t) :
    Reached memory (n + 1) console' ∧ Board.AtRest path console'.video color t ∧
      Shows memory color n function moments s t result := by
  obtain ⟨rfl, displaying, number⟩ := reached
  have rendering : console.video.rendering = Fin.ofNat 2 (n + 1) := by
    rw [Video.rendering, displaying]
    exact Fin.ext (by simp [Fin.val_add])
  have ne := console.video.rendering_ne
  obtain ⟨clearing, _, _, cleared, rfl, clears, execution⟩ := execution.of_bind
  obtain ⟨drawing, _, _, drawn, rfl, draws, execution⟩ := execution.of_bind
  obtain ⟨waiting, _, _, woken, rfl, waits, execution⟩ := execution.of_bind
  obtain ⟨swapping, _, video, shown, rfl, swaps, closing⟩ := execution.of_bind
  obtain ⟨lowering, _, _, _, rfl, lowers, done⟩ := closing.of_bind
  have closes : (do
      Video.vblankEnd
      return ({ console with video, frameCount := console.frameCount + 1 }, result) :
        Program (Console × ρ)).Accesses Command.IsAside :=
    Accesses.bind (.perform _ trivial) fun _ => .done _
  -- part by part: the clear, the draw function, the wait, the swap, and the end
  obtain ⟨rest₁, clear, keptByClear⟩ := lies_of_clearTarget lawful apart whole rest clears
  obtain ⟨stores, drew, pictures, rest₂, painted, keptByDraw⟩ :=
    exists_drawing_of_draw lawful apart whole rest₁ clear draws
  obtain ⟨rest₃, keptByWait⟩ := elsewhere_of_aside lawful rest₂ Fence.accesses_wait waits
  obtain ⟨rfl, rest₄, keptBySwap⟩ := settled_of_swapBuffers lawful apart rest₃ swaps
  obtain ⟨rfl, eq, -⟩ := done.of_done
  obtain ⟨rfl, rfl⟩ := Prod.mk.inj eq
  obtain ⟨rest₅, keptByEnd⟩ := elsewhere_of_aside lawful rest₄ closes closing
  have kept := keptByWait.trans (keptBySwap.trans keptByEnd)
  have target : console.video.target =
      console.video.memory.framebuffer (Fin.ofNat 2 (n + 1)) := congrArg _ rendering
  have only : picturesIn (clearing ++ (drawing ++ (waiting ++ (swapping ++ (lowering ++ []))))) =
      [⟨.loadFrame console.video.target, Framebuffer.uniform color⟩,
        ⟨.storePixels console.video.target stores, ()⟩] := by
    have noClear := picturesIn_eq_nil (Video.apart_clearTarget config _) (fun _ => id) clears
    have noWait := picturesIn_eq_nil Fence.accesses_wait Command.IsAside.not_isPicture waits
    have noSwap := picturesIn_eq_nil (Video.apart_swapBuffers _) (fun _ => id) swaps
    have noEnd := picturesIn_eq_nil closes Command.IsAside.not_isPicture closing
    simp only [picturesIn_append] at noEnd ⊢
    simp only [noClear, pictures, noWait, noSwap, noEnd, List.nil_append, List.append_nil]
  rw [number] at drew
  rw [target] at only
  refine ⟨⟨rfl, rendering, ?_⟩, rest₅, ⟨stores, drew, only, ?_⟩, ?_, ?_, ?_⟩
  · show console.frameCount + 1 = UInt32.ofNat (n + 1)
    rw [number]
    simp
  · rw [← rendering]
    refine Framebuffer.LiesAt.ofBytes_eq fun k lt => ?_
    have inside : console.video.memory.InFrame console.video.rendering _ :=
      FrameMemory.inFrame_add lt
    rw [← (rest₅.fact.shown _ inside).due_eq, kept.due _ id]
    exact painted k lt
  · rw [← rendering]
    exact rest₅.known.2
  · obtain ⟨met, rfl⟩ := lowers.of_perform
    exact ⟨clearing ++ (drawing ++ (waiting ++ swapping)), met, by simp⟩
  · rw [← displaying]
    refine Framebuffer.LiesAt.ofBytes_eq fun k lt => ?_
    have inside : console.video.memory.InFrame console.video.displaying _ :=
      FrameMemory.inFrame_add lt
    have outside := apart.toFramesApart.of_ne (Ne.symm ne) inside
    have still := (keptBySwap.trans keptByEnd).settled _ id (rest₃.fact.shown _ inside)
    rw [← still.due_eq, kept.due _ id, keptByDraw _ outside, keptByClear _ outside,
      (rest.fact.shown _ inside).due_eq]
    exact Framebuffer.ofBytes_liesAt _ _ k lt

/-- **Frames** from a board at rest, however many. -/
theorem reached_of_frames {σ : Type} {function : σ → DrawFunction σ} {count : Nat} {state state' : σ}
    (reached : Reached memory n console) (rest : Board.AtRest path console.video color s)
    (execution : (Board.hardware path).Execution (frames config function count console state) s
      moments (.returned (console', state')) t) :
    Reached memory (n + count) console' ∧ Board.AtRest path console'.video color t := by
  induction count generalizing n console state s moments with
  | zero =>
    obtain ⟨-, eq, moved⟩ := execution.of_done
    obtain ⟨rfl, rfl⟩ := Prod.mk.inj eq
    exact ⟨reached, (atRest_sound lawful console'.video color).stable.movesTo moved rest⟩
  | succ count ih =>
    obtain ⟨_, _, ⟨between, state⟩, _, -, first, others⟩ := execution.of_bind
    obtain ⟨reached, rest, -⟩ := shows_of_frame lawful apart whole reached rest first
    obtain ⟨reached, rest⟩ := ih reached rest others
    rw [Nat.add_right_comm, Nat.add_assoc] at reached
    exact ⟨reached, rest⟩

/-- Where a frame stops, its draw function has left: nothing else in a frame can break off. -/
theorem left_of_frame (aligned : memory.Aligned) (reached : Reached memory n console)
    (rest : Board.AtRest path console.video color s) {reason : Stop}
    (execution : (Board.hardware path).Execution (console.frame config function) s moments
      (.stopped reason) t) : function (.uniform color) (.ofNat n) = .error reason := by
  obtain ⟨rfl, -, number⟩ := reached
  have clears : (console.video.clearTarget config).Finishes :=
    Video.finishable_clearFramebuffer (aligned.frames _)
  obtain ⟨_, _, _, cleared, -, clears, execution⟩ := execution.of_bind_stopped clears
  obtain ⟨rest, clear, -⟩ := lies_of_clearTarget lawful apart whole rest clears
  -- behind the draw function there are a wait, a swap and the end, none of which stops
  have shows (result : ρ) : (do
      Video.vblankWait
      let video ← console.video.swapBuffers
      Video.vblankEnd
      return ({ console with video, frameCount := console.frameCount + 1 }, result) :
        Program (Console × ρ)).Finishes := by
    have waits : Video.vblankWait.Finishes :=
      (Idle.finishable_spin .fence).bind fun _ => .done trivial
    refine waits.bind fun _ => Video.finishable_swapBuffers.bind fun _ => ?_
    exact .bind (.perform (.setFence false)) fun _ => .done trivial
  rw [← number]
  rcases execution.bind_cases with ⟨early, stopped, lifted⟩ | ⟨_, _, result, _, -, -, stopped⟩
  · cases early with
    | stopped => cases lifted; exact left_of_draw lawful rest clear stopped
    | returned | cut => cases lifted
  · exact absurd rfl ((shows result).not_stopped stopped.run reason)

/-- **Frame by frame.** Boot a console on a board with any memory, whatever its path to it holds, and
with any transfers outstanding that do not go to the staging page, and let it show `n` frames. Then
the next frame is frame `n`: it breaks off only where its draw function leaves, and when it returns,
it has called the draw function once, with the frame's number, on the framebuffer that was not
displayed, all of it in the boot's colour, and shows what the function has left there. -/
theorem frame_end_to_end {σ : Type} (aligned : memory.Aligned)
    (own : ∀ a, memory.InStaging a → ¬ Video.Leftover s a) {booted shown : Board κ}
    {booting showing : List (Moment (Board κ))}
    (boots : (Board.hardware path).Execution (boot config memory slot entry color) s booting
      (.returned console) booted)
    (function : σ → DrawFunction σ) {state state' : σ}
    (frames : (Board.hardware path).Execution (frames config function n console state) booted
      showing (.returned (console', state')) shown) :
    Reached memory n console' ∧
      (∀ moments t reason, (Board.hardware path).Execution
          (console'.frame config (function state')) shown moments (.stopped reason) t →
        function state' (.uniform color) (.ofNat n) = .error reason) ∧
      ∀ moments t console'' state'', (Board.hardware path).Execution
          (console'.frame config (function state')) shown moments
          (.returned (console'', state'')) t →
        Reached memory (n + 1) console'' ∧
          Shows memory color n (function state') moments shown t state'' := by
  obtain ⟨reached, rest⟩ := atRest_of_boot lawful apart whole own boots
  obtain ⟨reached, rest⟩ := reached_of_frames lawful apart whole reached rest frames
  rw [Nat.zero_add] at reached
  refine ⟨reached, fun moments t reason execution => ?_, fun moments t _ _ execution => ?_⟩
  · exact left_of_frame lawful apart whole aligned reached rest execution
  · obtain ⟨reached, -, shows⟩ := shows_of_frame lawful apart whole reached rest execution
    exact ⟨reached, shows⟩

end Frame

end Rest

/-- The third frame, behind a cache that holds nothing but dirty lines: it draws over the dot that
the first frame has left. -/
theorem frame_end_to_end_third : ∃ console booting booted showing shown console' moments t console'',
    (Board.hardware cachedPath).Execution silentBoot
      (.blank (fun _ => some ⟨fun _ => 0xFF, true⟩) []) booting (.returned console) booted ∧
    (Board.hardware cachedPath).Execution (frames (.silent true) dot 2 console ()) booted showing
      (.returned (console', ())) shown ∧
    (Board.hardware cachedPath).Execution (console'.frame (.silent true) (dot ())) shown moments
      (.returned (console'', ())) t ∧
    Reached .secondMegabyte 3 console'' ∧
    Shows .secondMegabyte ⟨0x0001⟩ 2 (dot ()) moments shown t () := by
  have apart := FrameMemory.secondMegabyte_apart
  have aligned := FrameMemory.secondMegabyte_aligned
  have live := Board.live cachedPath_total
  have returns (state : Unit) (before : Framebuffer) (number : UInt32) :
      ∃ drawing result, dot state before number = .ok (drawing, result) := ⟨_, _, rfl⟩
  obtain ⟨booting, console, booted, eq, boots⟩ := live.exists_execution finishable_silentBoot
    (.blank (fun _ => some ⟨fun _ => 0xFF, true⟩) [])
  obtain ⟨showing, ⟨console', _⟩, shown, -, frames⟩ := live.exists_execution
    (finishable_frames aligned returns 2 () eq) booted
  obtain ⟨reached, -, shows⟩ :=
    frame_end_to_end cachedPath_lawful apart aligned.whole aligned
      (fun a _ => Video.not_leftover rfl a) boots dot frames
  obtain ⟨moments, ⟨console'', _⟩, t, -, frame⟩ := live.exists_execution
    (finishable_frame aligned (returns ()) reached.memory_eq) shown
  obtain ⟨reached, shows⟩ := shows moments t console'' () frame
  exact ⟨console, booting, booted, showing, shown, console', moments, t, console'', boots, frames,
    frame, reached, shows⟩

end Console

end ColdBoot
