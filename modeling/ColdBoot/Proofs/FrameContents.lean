import ColdBoot.Proofs.ClearFill
import ColdBoot.Proofs.Twins

/-! # What a video output leaves behind

What frame memory and the signal processor hold in the end can be told from what was asked of the
video output: neither the times at which transfers are carried out nor the use of the queue has a
part in it, nor anything that was in any memory before.

* **`Video.Scene`** – a video output, its clear colour and its two pictures, and what calls make of
  them;
* **`Video.laidOut_of_lifetime`** – behind its life the board has the scene that its calls make. -/

namespace ColdBoot

open Hardware MemoryPath

/-- Two boards have the same pictures, staging page and pattern. -/
structure FrameMemory.SameFrames (memory : FrameMemory) (s t : Board Unit) : Prop where
  pictures : ∀ index, Framebuffer.ofBytes s.memory.rdram (memory.place index) =
    Framebuffer.ofBytes t.memory.rdram (memory.place index)
  staging : ∀ k < pageSize.toNat,
    s.memory.rdram (memory.stagingPlace + k) = t.memory.rdram (memory.stagingPlace + k)
  pattern : ∀ k < pageSize.toNat, s.engine.dmem k = t.engine.dmem k

namespace Video

open Board

/-- A video output, its clear colour, and the pictures in its framebuffers. -/
structure Scene where
  video : Video
  color : Color
  pictures : Fin 2 → Framebuffer

namespace Scene

/-- The scene of a video output that has been brought up. -/
def fresh (memory : FrameMemory) (platform : Platform) (color : Color) : Scene where
  video := initial memory platform
  color := color
  pictures _ := .uniform color

/-- The picture in the rendered framebuffer. -/
def target (scene : Scene) : Framebuffer := scene.pictures scene.video.rendering

/-- The pictures behind an operation. -/
def picturesAfter (scene : Scene) : Operation → Fin 2 → Framebuffer
  | .clear => Function.update scene.pictures scene.video.rendering (.uniform scene.color)
  | .draw function =>
      Function.update scene.pictures scene.video.rendering
        (scene.target.paint (function scene.target))
  | _ => scene.pictures

/-- The scene behind an operation. -/
def operate (scene : Scene) (operation : Operation) : Scene where
  video := operation.next scene.video
  color := operation.colorAfter scene.color
  pictures := scene.picturesAfter operation

/-- The scene behind a call. -/
def after (memory : FrameMemory) (scene : Scene) : Call → Scene
  | .restart platform color => fresh memory platform color
  | .operate operation => scene.operate operation

/-- The scene behind a life. -/
def behind (memory : FrameMemory) (platform : Platform) (color : Color) (calls : List Call) :
    Scene :=
  calls.foldl (after memory) (fresh memory platform color)

/-- A board at rest that has a scene. -/
structure LaidOut (scene : Scene) (s : Board Unit) : Prop where
  rest : AtRest directPath scene.video scene.color s
  pictures : ∀ index, (scene.pictures index).LiesAt s.memory.rdram (scene.video.memory.place index)

variable {scene : Scene} {memory : FrameMemory} {config : Config} {s t : Board Unit}

/-- Boards with one scene have the same pictures, staging page and pattern. -/
theorem LaidOut.sameFrames (first : scene.LaidOut s) (second : scene.LaidOut t) :
    scene.video.memory.SameFrames s t where
  pictures index := (first.pictures index).ofBytes_eq.trans (second.pictures index).ofBytes_eq.symm
  staging k lt := (first.rest.fact.staged k lt).trans (second.rest.fact.staged k lt).symm
  pattern k lt := (first.rest.known.1 k lt).trans (second.rest.known.1 k lt).symm

/-- Nothing moves on a board at rest. -/
theorem sound_laidOut (scene : Scene) : (hardware directPath).Sound .none scene.LaidOut where
  stable s t moved h := by
    cases moved with
    | engine moved => exact absurd h.rest.queue moved.not_idle
    | memory moved => exact moved.elim
  state _ _ := trivial

/-- **An operation** makes of a scene what it should. -/
theorem ensures_operation (apart : scene.video.memory.Apart) (operation : Operation) :
    (hardware directPath).Ensures .none scene.LaidOut (operation.program config scene.video)
      fun video t => video = (scene.operate operation).video ∧
        (scene.operate operation).LaidOut t := by
  intro s moments ending t start execution
  refine ⟨fun _ _ => trivial, trivial, fun video returned => ?_⟩
  obtain ⟨-, sheltered, behind⟩ := Video.ensures_operation directPath_lawful apart
    scene.video.memory.whole_directPath start.rest operation rfl execution
  obtain ⟨rfl, rest, effect⟩ := behind video returned
  -- a picture that the operation does not work on stays
  have stays {index : Fin 2} (outside : ∀ a, scene.video.memory.InFrame index a →
      ¬ operation.region scene.video a) :
      (scene.pictures index).LiesAt t.memory.rdram (scene.video.memory.place index) := by
    intro k lt
    exact (sheltered.kept _ (outside _ (FrameMemory.inFrame_add lt))).trans
      (start.pictures index k lt)
  -- and a new one takes the place of the rendered one only
  have replaced {picture : Framebuffer}
      (lies : picture.LiesAt t.memory.rdram (scene.video.memory.place scene.video.rendering))
      (others : ∀ a, operation.region scene.video a →
        scene.video.memory.InFrame scene.video.rendering a) (index : Fin 2) :
      (Function.update scene.pictures scene.video.rendering picture index).LiesAt t.memory.rdram
        (scene.video.memory.place index) := by
    by_cases rendered : index = scene.video.rendering
    · subst rendered
      rwa [Function.update_self]
    · rw [Function.update_of_ne rendered]
      exact stays fun a inside worked => apart.of_ne rendered inside (others a worked)
  refine ⟨rfl, rest, fun index => ?_⟩
  cases operation with
  | clear => exact replaced effect.2.2 (fun _ => id) index
  | draw function =>
    obtain ⟨-, fb, seen, painted⟩ := effect
    obtain rfl : fb = scene.target :=
      seen.ofBytes_eq.symm.trans (start.pictures scene.video.rendering).ofBytes_eq
    exact replaced painted (fun _ => id) index
  | setColor new => exact stays fun a inside staging => apart.stagingApart index a staging inside
  | swap | wait | finish | look | signal => exact stays fun _ _ => id

/-- **Bringing up** makes the same scene of everything. -/
theorem ensures_bringUp (apart : memory.Apart) (platform : Platform) (color : Color)
    (own : ∀ a, memory.InStaging a → ¬ Leftover s a) :
    (hardware directPath).Ensures .none (fun s' => s' = s) (bringUp config memory platform color)
      fun video t => video = initial memory platform ∧ (fresh memory platform color).LaidOut t := by
  refine (Video.ensures_bringUp directPath_lawful apart memory.whole_directPath platform s
    own).unguarded.mono (fun _ h => h) ?_
  rintro _ t ⟨rfl, rest, -, cleared⟩
  exact ⟨rfl, rest, fun index => (cleared index).liesAt⟩

theorem after_memory (eq : scene.video.memory = memory) (call : Call) :
    (scene.after memory call).video.memory = memory := by
  cases call with
  | restart platform color => rfl
  | operate operation => exact (operation.next_memory scene.video).trans eq

theorem behind_memory (memory : FrameMemory) (platform : Platform) (color : Color)
    (calls : List Call) : (behind memory platform color calls).video.memory = memory := by
  have all (scene : Scene) (eq : scene.video.memory = memory) :
      (calls.foldl (after memory) scene).video.memory = memory := by
    induction calls generalizing scene with
    | nil => exact eq
    | cons call rest ih => exact ih _ (after_memory eq call)
  exact all _ rfl

theorem ensures_call (apart : memory.Apart) (eq : scene.video.memory = memory) (call : Call) :
    (hardware directPath).Ensures .none scene.LaidOut (call.program config memory scene.video)
      fun video t => video = (scene.after memory call).video ∧
        (scene.after memory call).LaidOut t := by
  subst eq
  cases call with
  | restart platform color =>
    refine .of_each fun s start => ensures_bringUp apart platform color fun a _ => ?_
    exact not_leftover start.rest.queue a
  | operate operation => exact ensures_operation apart operation

theorem ensures_callAll (apart : memory.Apart) (calls : List Call)
    (eq : scene.video.memory = memory) :
    (hardware directPath).Ensures .none scene.LaidOut (callAll config memory calls scene.video)
      fun video t => video = (calls.foldl (after memory) scene).video ∧
        (calls.foldl (after memory) scene).LaidOut t := by
  induction calls generalizing scene with
  | nil => exact .done (sound_laidOut scene) fun _ h => ⟨rfl, h⟩
  | cons call rest ih =>
    refine .bind (ensures_call apart eq call) fun video => .of_fact ?_
    rintro rfl
    exact ih (after_memory eq call)

end Scene

/-- **Behind the life of a video output** that returns, frame memory and the signal processor hold
what the calls make, if no transfer that is outstanding at first goes to the staging page. -/
theorem laidOut_of_lifetime {config : Config} {memory : FrameMemory} (apart : memory.Apart)
    {platform : Platform} {color : Color} {calls : List Call} {s t : Board Unit}
    (own : ∀ a, memory.InStaging a → ¬ Leftover s a) {moments : List (Moment (Board Unit))}
    {video : Video} (execution : (hardware directPath).Execution
      (lifetime config memory platform color calls) s moments (.returned video) t) :
    (Scene.behind memory platform color calls).LaidOut t := by
  have whole : (hardware directPath).Ensures .none (fun s' => s' = s)
      (lifetime config memory platform color calls) fun _ t =>
        (Scene.behind memory platform color calls).LaidOut t := by
    refine .bind (Scene.ensures_bringUp apart platform color own) fun video => .of_fact ?_
    rintro rfl
    exact (Scene.ensures_callAll apart calls rfl).mono (fun _ h => h) fun _ _ h => h.2
  exact (whole rfl execution).2.2 video rfl

end Video

end ColdBoot
