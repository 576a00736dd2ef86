import ColdBoot.Proofs.Mirrors
import ColdBoot.Proofs.VblankService

/-! # When vertical blanks come

A program that sees the vblank flag in its waits only, and neither the cause word nor the pending
lines, is **`Program.Oblivious`**: it can be delayed by a vertical blank, and nothing else. Exceptions
may come between any of its accesses, often or rarely; whatever their placement, it makes the same
accesses to everything else, comes to the same end, and leaves the devices in the same state.

* **`Chassis.Agrees`** – two machines that differ in nothing that such a program notices;
* **`Program.Oblivious.alike`** – two executions of one program from machines that agree;
* **`Console.oblivious_live`** – whatever is done with a console is oblivious;
* **`Console.same_pictures`** – any number of frames under any two placements of vertical blanks. -/

namespace ColdBoot

open Hardware Program

/-! ### Machines that agree -/

namespace Command

/-- An access that is answered without the vblank flag, the cause word and the pending lines. -/
def IsBlind : Command → Prop
  | .getCause | .getFence => False
  | .read register => register ≠ MiRegister.intr
  | _ => True

variable {command : Command}

theorem IsStatus.isBlind (h : command.IsStatus) : command.IsBlind := by
  cases command with
  | getStatus | setStatus => trivial
  | _ => exact h.elim

theorem IsCache.isBlind (h : command.IsCache) : command.IsBlind := by
  cases command with
  | cache => trivial
  | _ => exact h.elim

theorem IsTransfer.isBlind (h : command.IsTransfer) : command.IsBlind := by
  cases command with
  | read register =>
    rintro rfl
    cases h
  | write | cache | fillStaging => trivial
  | _ => exact h.elim

end Command

namespace Chassis

variable {δ α : Type} {devices : Devices δ} {s s' t t' : Chassis δ}

/-- Two machines agree but for the flag, the cause word and the pending lines. -/
structure Agrees (s t : Chassis δ) : Prop where
  status_eq : s.controls.status = t.controls.status
  lines_eq : s.controls.lines = t.controls.lines
  devices_eq : s.devices = t.devices

theorem Agrees.refl (s : Chassis δ) : s.Agrees s := ⟨rfl, rfl, rfl⟩

theorem Agrees.symm (h : s.Agrees t) : t.Agrees s :=
  ⟨h.status_eq.symm, h.lines_eq.symm, h.devices_eq.symm⟩

theorem Agrees.trans {u : Chassis δ} (h : s.Agrees t) (h' : t.Agrees u) : s.Agrees u :=
  ⟨h.status_eq.trans h'.status_eq, h.lines_eq.trans h'.lines_eq, h.devices_eq.trans h'.devices_eq⟩

/-- The service of a vertical blank goes unnoticed. -/
theorem agrees_of_movesTo {gate : Controls → Prop} (moved : (hardware devices gate).MovesTo s t) :
    s.Agrees t := by
  induction moved with
  | refl => exact .refl s
  | tail _ step ih =>
    obtain ⟨-, excepts⟩ := step
    obtain ⟨cause, pending, rfl⟩ := excepts.eq_serviced
    exact ih.trans ⟨rfl, rfl, rfl⟩

/-- The devices of machines that agree answer alike. -/
theorem Agrees.ask (h : s.Agrees s') (command : Command) :
    (s.ask devices command).1 = (s'.ask devices command).1 ∧
      (s.ask devices command).2.Agrees (s'.ask devices command).2 := by
  obtain ⟨status, lines, same⟩ := h
  exact ⟨by rw [Chassis.ask, same]; rfl, status, lines, by rw [Chassis.ask, same]; rfl⟩

/-- **Machines that agree answer alike**, and still agree behind it. -/
theorem Agrees.respond (h : s.Agrees s') {command : Command} (blind : command.IsBlind) :
    (s.respond devices command).1 = (s'.respond devices command).1 ∧
      (s.respond devices command).2.Agrees (s'.respond devices command).2 := by
  cases command with
  | getStatus => exact ⟨h.status_eq, h⟩
  | setStatus status => exact ⟨rfl, rfl, h.lines_eq, h.devices_eq⟩
  | setFence signaled => exact ⟨rfl, h.status_eq, h.lines_eq, h.devices_eq⟩
  | getCause | getFence => exact blind.elim
  | read register =>
    rw [Chassis.respond, Chassis.respond, if_neg blind, if_neg blind]
    split
    · exact ⟨h.lines_eq, h⟩
    · exact h.ask _
  | write register value =>
    rw [Chassis.respond, Chassis.respond]
    split
    · next mask =>
      subst mask
      exact ⟨rfl, h.status_eq, congrArg (LineMask.apply · value) h.lines_eq, h.devices_eq⟩
    · split
      · exact ⟨rfl, h.status_eq, h.lines_eq, h.devices_eq⟩
      · exact h.ask _
  | cache | storeDoubleword | loadFrame | storePixels | fillStaging => exact h.ask _

end Chassis

/-! ### Programs that do not notice -/

namespace Program

variable {α β : Type}

/-- A program that sees the vblank flag in its waits only, and neither the cause word nor the pending
lines. -/
inductive Oblivious : Program α → Prop where
  | done (value : α) : Oblivious (.done value)
  | stop (reason : Stop) : Oblivious (.stop reason)
  | step {command : Command} {next : command.Answer → Program α} (blind : command.IsBlind)
      (rest : ∀ answer, Oblivious (next answer)) : Oblivious (.step command next)
  | await {command : Command} {accepted : command.Answer → Bool}
      {next : command.Answer → Program α} (blind : command.IsBlind)
      (rest : ∀ answer, Oblivious (next answer)) : Oblivious (.await command accepted next)
  /-- A wait for the flag goes on once the flag is up. -/
  | poll {next : Bool → Program α} (rest : Oblivious (next true)) :
      Oblivious (.await .getFence id next)

theorem Accesses.oblivious {program : Program α} (h : program.Accesses Command.IsBlind) :
    program.Oblivious := by
  induction h with
  | done value => exact .done value
  | stop reason => exact .stop reason
  | step blind _ ih => exact .step blind ih
  | await blind _ ih => exact .await blind ih

theorem Oblivious.bind {program : Program α} {f : α → Program β} (h : program.Oblivious)
    (rest : ∀ value, (f value).Oblivious) : (program >>= f).Oblivious := by
  induction h with
  | done value => exact rest value
  | stop reason => exact .stop reason
  | step blind _ ih => exact .step blind ih
  | await blind _ ih => exact .await blind ih
  | poll _ ih => exact .poll ih

end Program

/-- The accesses among some moments that do not look at the vblank flag. -/
def unpolled {σ : Type} (moments : List (Moment σ)) : List Event :=
  (moments.map Moment.event).filter (·.command ≠ .getFence)

/-- Moments with the same accesses in front. -/
theorem unpolled_of_eq {σ : Type} {moments rest : List (Moment σ)} {asked : List Event}
    (eq : moments.map Moment.event = asked ++ rest.map Moment.event) :
    unpolled moments = asked.filter (·.command ≠ .getFence) ++ unpolled rest := by
  rw [unpolled, eq, List.filter_append]
  rfl

namespace Chassis

variable {δ α : Type} {devices : Devices δ} {gate gate' : Controls → Prop} {s s' t t' : Chassis δ}
  {moments moments' : List (Moment (Chassis δ))} {ending ending' : Ending α}

/-- Two executions cannot be told apart: they end alike, make the same accesses but for looks at the
flag, and leave machines that agree. -/
structure Alike (ending ending' : Ending α) (moments moments' : List (Moment (Chassis δ)))
    (t t' : Chassis δ) : Prop where
  ending_eq : ending = ending'
  unpolled_eq : unpolled moments = unpolled moments'
  agrees : t.Agrees t'

/-- The same accesses in front, met on either side and answered alike. -/
theorem Alike.behind {rest rest' : List (Moment (Chassis δ))} {asked : List Event}
    (alike : Alike ending ending' rest rest' t t')
    (eq : moments.map Moment.event = asked ++ rest.map Moment.event)
    (eq' : moments'.map Moment.event = asked ++ rest'.map Moment.event) :
    Alike ending ending' moments moments' t t' where
  ending_eq := alike.ending_eq
  unpolled_eq := by rw [unpolled_of_eq eq, unpolled_of_eq eq', alike.unpolled_eq]
  agrees := alike.agrees

/-- One more access in front, met on either side and answered alike. -/
theorem Alike.cons {met met' : Chassis δ} (event : Event)
    (rest : Alike ending ending' moments moments' t t') :
    Alike ending ending' (⟨met, event⟩ :: moments) (⟨met', event⟩ :: moments') t t' := by
  have front (met : Chassis δ) (moments : List (Moment (Chassis δ))) :
      (⟨met, event⟩ :: moments).map Moment.event = [event] ++ moments.map Moment.event := rfl
  exact rest.behind (front met moments) (front met' moments')

/-- Machines that agree go on agreeing, whenever vertical blanks are served on either side. -/
theorem Agrees.of_movesTo (start : s.Agrees s') {met met' : Chassis δ}
    (moved : (hardware devices gate).MovesTo s met)
    (moved' : (hardware devices gate').MovesTo s' met') : met.Agrees met' :=
  (agrees_of_movesTo moved).symm.trans (start.trans (agrees_of_movesTo moved'))

/-- **Machines that agree are mirrors**, but for looks at the flag, the cause word and the pending
lines. -/
theorem mirrors_agrees : (hardware devices gate).Mirrors (hardware devices gate') Command.IsBlind
    (fun _ _ => True) Agrees where
  moves _ _ _ _ start moved moved' := start.of_movesTo moved moved'
  responds := by
    intro s s' command answer answer' t t' blind start _ _ responded responded'
    have alike : (s.respond devices command).1 = (s'.respond devices command).1 ∧
        (s.respond devices command).2.Agrees (s'.respond devices command).2 := start.respond blind
    rw [show s.respond devices command = (answer, t) from responded,
      show s'.respond devices command = (answer', t') from responded'] at alike
    exact alike

/-- A wait for the flag looks at nothing but the flag. -/
theorem exists_of_poll {next : Bool → Program α} (complete : ending ≠ .cut)
    (execution : (hardware devices gate).Execution (.await .getFence id next) s moments ending t) :
    ∃ met rest, unpolled moments = unpolled rest ∧ (hardware devices gate).MovesTo s met ∧
      (hardware devices gate).Execution (next true) met rest ending t := by
  obtain ⟨answers, answer, met, rest, -, taken, -, eq, moved, further⟩ :=
    execution.exists_of_wait (fun _ _ _ responded => (Prod.mk.inj responded).2.symm) complete
  obtain rfl : answer = true := taken
  have polls : (answers.map (Event.mk .getFence)).filter (·.command ≠ .getFence) = [] := by
    rw [List.filter_eq_nil_iff]
    intro event member
    obtain ⟨answer, -, rfl⟩ := List.mem_map.1 member
    simp
  refine ⟨met, rest, ?_, moved, further⟩
  rw [unpolled_of_eq eq, polls, List.nil_append]

end Chassis

/-- **An oblivious program** comes to the same end on machines that agree, with the same accesses on
the way, wherever vertical blanks come. -/
theorem Program.Oblivious.alike {δ α : Type} {devices : Devices δ} {gate gate' : Controls → Prop}
    {program : Program α} (h : program.Oblivious) {s s' t t' : Chassis δ}
    {moments moments' : List (Moment (Chassis δ))} {ending ending' : Ending α}
    (start : s.Agrees s') (complete : ending ≠ .cut) (complete' : ending' ≠ .cut)
    (first : (Chassis.hardware devices gate).Execution program s moments ending t)
    (second : (Chassis.hardware devices gate').Execution program s' moments' ending' t') :
    Chassis.Alike ending ending' moments moments' t t' := by
  have mirrors : (Chassis.hardware devices gate).Mirrors (Chassis.hardware devices gate')
      Command.IsBlind (fun _ _ => True) Chassis.Agrees := Chassis.mirrors_agrees
  induction h generalizing s s' moments moments' with
  | done value =>
    obtain ⟨rfl, moved, ends⟩ := first.done_cases
    obtain ⟨rfl, moved', ends'⟩ := second.done_cases
    exact ⟨(ends.resolve_right complete).trans (ends'.resolve_right complete').symm, rfl,
      start.of_movesTo moved moved'⟩
  | stop reason =>
    obtain ⟨rfl, moved, ends⟩ := first.stop_cases
    obtain ⟨rfl, moved', ends'⟩ := second.stop_cases
    exact ⟨(ends.resolve_right complete).trans (ends'.resolve_right complete').symm, rfl,
      start.of_movesTo moved moved'⟩
  | step blind _ ih =>
    rcases first.step_cases with cut | ⟨_, answer, _, _, rfl, moved, responded, further⟩
    · exact absurd cut complete
    rcases second.step_cases with cut | ⟨_, _, _, _, rfl, moved', responded', further'⟩
    · exact absurd cut complete'
    obtain ⟨rfl, agrees⟩ := mirrors.responds blind (start.of_movesTo moved moved') trivial trivial
      responded responded'
    exact (ih answer agrees further further').cons _
  | await blind _ ih =>
    obtain ⟨_, answer, _, _, _, _, -, eq, -, eq', -, agrees, further, further'⟩ :=
      mirrors.exists_of_await blind start (fun _ _ => trivial) (fun _ _ => trivial) complete
        complete' first second
    exact (ih answer agrees further further').behind eq eq'
  | poll _ ih =>
    obtain ⟨_, _, same, moved, further⟩ := Chassis.exists_of_poll complete first
    obtain ⟨_, _, same', moved', further'⟩ := Chassis.exists_of_poll complete' second
    obtain ⟨ending_eq, unpolled_eq, final⟩ := ih (start.of_movesTo moved moved') further further'
    exact ⟨ending_eq, same.trans (unpolled_eq.trans same'.symm), final⟩

/-! ### A console does not notice -/

theorem Video.blind_clearTarget (config : Config) (video : Video) :
    (video.clearTarget config).Accesses Command.IsBlind :=
  (paced_clearFramebuffer config video _).accesses (fun _ h => h.isBlind) fun _ h => h.isBlind

theorem Video.blind_setClearColor (video : Video) (color : Color) :
    (video.setClearColor color).Accesses Command.IsBlind :=
  (paced_setClearColor video color).accesses (fun _ h => h.isBlind) fun _ h => h.isBlind

theorem Video.blind_swapBuffers (video : Video) : video.swapBuffers.Accesses Command.IsBlind :=
  accesses_swapBuffers (fun _ h => h.isBlind) (fun _ => trivial) video

theorem Pi.blind_transfer (descriptor : PiDescriptor) (direction : Direction) :
    (Pi.transfer descriptor direction).Accesses Command.IsBlind := by
  have writes (command : Command) (h : command.WritesTo .pi) : command.IsBlind := by
    cases command with
    | write => trivial
    | _ => exact h.elim
  have look : (Command.read PiRegister.status).IsBlind := by
    show PiRegister.status ≠ MiRegister.intr
    decide
  exact (Pi.paced_transfer writes look descriptor direction).accesses (fun _ => id)
    fun _ h => h.isBlind

/-- A wait for vertical blank does not tell when it has come. -/
theorem Video.oblivious_vblankWait : vblankWait.Oblivious := by
  have status {program : Program Unit} (h : program.Accesses Command.IsStatus) : program.Oblivious :=
    (h.mono fun _ h => h.isBlind).oblivious
  have poll : (Program.repeatUntil .getFence id).Oblivious := .poll (.done true)
  have spin : (Idle.spin .getFence id).Oblivious :=
    (status Idle.accesses_enter).bind fun _ => poll.bind fun answer =>
      (status Idle.accesses_leave).bind fun _ => .done answer
  exact spin.bind fun _ => .done ()

namespace Console

variable {ρ σ : Type}

theorem blind_draw (function : DrawFunction ρ) (vaddr number : UInt32) :
    (draw function vaddr number).Accesses Command.IsBlind :=
  accesses_draw (fun _ => trivial) (fun _ _ => trivial) function vaddr number

theorem oblivious_frame (config : Config) (console : Console) (function : DrawFunction ρ) :
    (console.frame config function).Oblivious := by
  refine (Video.blind_clearTarget config _).oblivious.bind fun _ => ?_
  refine (blind_draw function _ _).oblivious.bind fun _ => ?_
  refine Video.oblivious_vblankWait.bind fun _ => ?_
  refine (Video.blind_swapBuffers _).oblivious.bind fun _ => ?_
  have lowers : Video.vblankEnd.Accesses Command.IsBlind := .perform _ trivial
  exact lowers.oblivious.bind fun _ => .done _

theorem oblivious_activity (config : Config) (activity : Activity σ) (console : Console)
    (state : σ) : (activity.program config console state).Oblivious := by
  cases activity with
  | frame function => exact oblivious_frame config console (function state)
  | transfer descriptor direction =>
    exact (Pi.blind_transfer descriptor direction).oblivious.bind fun _ => .done _
  | clear => exact (Video.blind_clearTarget config _).oblivious.bind fun _ => .done _
  | setColor color => exact (Video.blind_setClearColor _ color).oblivious.bind fun _ => .done _
  | swap => exact (Video.blind_swapBuffers _).oblivious.bind fun _ => .done _

/-- **Whatever is done with a console**, it does not notice when vertical blanks come. -/
theorem oblivious_live (config : Config) (activities : List (Activity σ)) (console : Console)
    (state : σ) : (live config activities console state).Oblivious := by
  induction activities generalizing console state with
  | nil => exact .done _
  | cons activity rest ih =>
    exact (oblivious_activity config activity console state).bind fun found => ih found.1 found.2

/-! ### Calls of a draw function -/

/-- A draw function that also keeps its calls, each with the framebuffer as it was found, and the
frame's number. -/
def noting (function : σ → DrawFunction σ) (noted : σ × List (Framebuffer × UInt32)) :
    DrawFunction (σ × List (Framebuffer × UInt32)) := fun before number =>
  (function noted.1 before number).map fun drawn =>
    (drawn.1, drawn.2, noted.2 ++ [(before, number)])

section

variable (function : σ → DrawFunction σ) (state : σ) (calls : List (Framebuffer × UInt32))

theorem draw_eq_noting (vaddr number : UInt32) :
    draw (function state) vaddr number =
      Prod.fst <$> draw (noting function (state, calls)) vaddr number := by
  rw [draw, draw, map_bind]
  refine bind_congr fun before => ?_
  rw [noting]
  cases function state before number with
  | error reason => rfl
  | ok drawn => rfl

theorem frame_eq_noting (config : Config) (console : Console) :
    console.frame config (function state) =
      Prod.map id Prod.fst <$> console.frame config (noting function (state, calls)) := by
  rw [frame, frame, draw_eq_noting function state calls]
  simp only [map_bind, bind_map_left]
  rfl

/-- What is kept of the calls does not change what is done. -/
theorem frames_eq_noting (config : Config) (count : Nat) (console : Console) :
    frames config function count console state =
      Prod.map id Prod.fst <$> frames config (noting function) count console (state, calls) := by
  induction count generalizing console state calls with
  | zero => rfl
  | succ count ih =>
    rw [frames, frames, frame_eq_noting function state calls, map_bind, bind_map_left]
    exact bind_congr fun found => ih found.2.1 found.2.2 found.1

end

/-! ### Frames -/

theorem oblivious_frames (config : Config) (function : σ → DrawFunction σ) (count : Nat)
    (console : Console) (state : σ) : (frames config function count console state).Oblivious := by
  rw [frames_eq_live]
  exact oblivious_live config _ console state

/-- **Vertical blanks decide when a picture is shown, never which.** Let any number of frames be
shown twice, from the same machine with any devices, and let vertical blanks come between any two
accesses, one way here and another way there. If both times all frames are shown, the console and the
draw function's state end alike; the draw function is called for the same frames, on framebuffers
that it finds alike; all accesses but the looks at the flag are the same, with the same answers and
in the same order; and the devices, memory among them, the status word and the enabled lines end
alike. -/
theorem same_pictures {δ : Type} {devices : Devices δ} {gate gate' : Controls → Prop}
    {config : Config} {function : σ → DrawFunction σ} {count : Nat} {console : Console} {state : σ}
    {s t t' : Chassis δ} {moments moments' : List (Moment (Chassis δ))}
    {result result' : Console × σ}
    (first : (Chassis.hardware devices gate).Execution (frames config function count console state)
      s moments (.returned result) t)
    (second : (Chassis.hardware devices gate').Execution (frames config function count console state)
      s moments' (.returned result') t') :
    result = result' ∧ unpolled moments = unpolled moments' ∧ t.Agrees t' ∧
      ∃ calls,
        (Chassis.hardware devices gate).Execution
          (frames config (noting function) count console (state, [])) s moments
          (.returned (result.1, result.2, calls)) t ∧
        (Chassis.hardware devices gate').Execution
          (frames config (noting function) count console (state, [])) s moments'
          (.returned (result'.1, result'.2, calls)) t' := by
  rw [frames_eq_noting function state []] at first second
  obtain ⟨noted, rfl, once⟩ := first.of_map
  obtain ⟨noted', rfl, again⟩ := second.of_map
  obtain ⟨same, unpolled_eq, agrees⟩ :=
    (oblivious_frames config (noting function) count console (state, [])).alike (.refl s) (by nofun)
      (by nofun) once again
  obtain rfl : noted = noted' := Ending.returned.inj same
  exact ⟨rfl, unpolled_eq, agrees, noted.2.2, once, again⟩

/-- Two frames behind a silent boot, and the same two with a vertical blank in front of them. -/
theorem same_pictures_early : ∃ console booting booted early result result' moments moments' t t',
    (Chassis.hardware PromptBoard.respond Controls.Interruptible).Execution silentBoot crowded
      booting (.returned console) booted ∧
    booted.Excepts PromptBoard.respond early ∧
    (Chassis.hardware PromptBoard.respond Controls.Interruptible).Execution
      (frames (.silent true) dot 2 console ()) booted moments (.returned result) t ∧
    (Chassis.hardware PromptBoard.respond Controls.Interruptible).Execution
      (frames (.silent true) dot 2 console ()) early moments' (.returned result') t' ∧
    result = result' ∧ unpolled moments = unpolled moments' ∧ t.Agrees t' := by
  obtain ⟨booting, console, booted, boots, memory, armed, only⟩ := exists_boot_crowded
  have finishable : (frames (.silent true) dot 2 console ()).Finishes :=
    finishable_frames FrameMemory.secondMegabyte_aligned (fun _ _ _ => ⟨_, (), rfl⟩) 2 () memory
  have shows (s : Chassis PromptBoard) (armed : CpuStatus.Armed s.controls.status)
      (only : s.controls.lines.inter Lines.all = InterruptSource.vi.line) :
      ∃ moments result t, True ∧
        (Chassis.hardware PromptBoard.respond Controls.Interruptible).Execution
          (frames (.silent true) dot 2 console ()) s moments (.returned result) t := by
    refine Chassis.exists_execution PromptBoard.respond_idle armed only ?_ finishable
    rw [frames_eq_live]
    exact staysSteady_live armed _ _ console ()
  obtain ⟨moments, result, t, -, first⟩ := shows booted armed only
  -- the flag, the cause and the pending lines are all that the one in front changes
  have excepts : booted.Excepts PromptBoard.respond
      (booted.raise Chassis.deviceInterrupt InterruptSource.vi.line).serviced :=
    Chassis.excepts_of_only only
  obtain ⟨moments', result', t', -, second⟩ :=
    shows (booted.raise Chassis.deviceInterrupt InterruptSource.vi.line).serviced armed only
  have delayed : (Chassis.hardware PromptBoard.respond Controls.Interruptible).Execution
      (frames (.silent true) dot 2 console ()) booted moments' (.returned result') t' :=
    second.of_movesTo (.single ⟨armed.ie, excepts⟩)
  obtain ⟨same, unpolled_eq, agrees, -⟩ := same_pictures first delayed
  exact ⟨console, booting, booted, _, result, result', moments, moments', t, t', boots, excepts,
    first, second, same, unpolled_eq, agrees⟩

end Console

end ColdBoot
