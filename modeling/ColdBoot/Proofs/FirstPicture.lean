import ColdBoot.Handoff
import ColdBoot.Proofs.ClearFill
import ColdBoot.Proofs.Emission
import ColdBoot.Proofs.FrameCoherence

/-! # The first picture

The video interface shows whatever framebuffer memory and its registers happen to hold, so the
control word, whose write turns it on, has to come last. Here the order of the writes meets what the
signal processor has done in the meantime: when the control word is written, both framebuffers have
the clear colour in RDRAM, the engine is idle, and every other register of the picture has the value
that the platform asks for.

* **`Platform.ofWord`** – the platform that the loader's word selects;
* **`Register.held`** – what registers hold behind a list of commands;
* **`Video.first_picture_is_clear`** – the state in which the output is turned on. -/

namespace ColdBoot

open Hardware MemoryPath Program

/-! ### The platform -/

namespace Platform

/-- The platform that the loader's word selects, unless another one is pinned: words without a
meaning stand for NTSC. -/
def ofWord (config : Config) (word : UInt32) : Platform :=
  config.pinnedPlatform.getD
    (if word = 0 then .pal else if word = 1 then .ntsc else if word = 2 then .mpal else .ntsc)

/-- Detection may print a record, and finds that platform. -/
theorem exists_detect (config : Config) (params : BootParams) (word : UInt32) :
    ∃ log : Program Unit, log.Accesses (Command.WritesTo .viewer) ∧
      detect config { params with tvType := .ofCode word } =
        log >>= fun _ => .done (ofWord config word) := by
  have silently {platform : Platform} :
      ∃ log : Program Unit, log.Accesses (Command.WritesTo .viewer) ∧
        (.done platform : Program Platform) = log >>= fun _ => .done platform :=
    ⟨.done (), .done (), rfl⟩
  unfold detect ofWord TvType.ofCode
  cases config.pinnedPlatform with
  | some platform => exact silently
  | none =>
    by_cases pal : word = 0
    · simpa [pal, ofTvType] using silently
    · by_cases ntsc : word = 1
      · simpa [ntsc, ofTvType] using silently
      · by_cases mpal : word = 2
        · simpa [mpal, ofTvType] using silently
        · simp only [pal, ntsc, mpal, if_false, ofTvType, Option.getD_none]
          exact ⟨_, LogRecord.writes_emit _ _, rfl⟩

end Platform

/-! ### Registers -/

namespace Register

/-- What registers hold behind a command. -/
def heldAfter (prior : Register → UInt32) : Command → Register → UInt32
  | .write register value => Function.update prior register value
  | _ => prior

/-- What registers hold behind a list of commands. -/
def held (prior : Register → UInt32) (commands : List Command) : Register → UInt32 :=
  commands.foldl heldAfter prior

@[simp] theorem held_cons (prior : Register → UInt32) (command : Command) (rest : List Command) :
    held prior (command :: rest) = held (heldAfter prior command) rest := rfl

/-- A register that is not written keeps its value. -/
theorem held_of_not_written (prior : Register → UInt32) (values : List (Register × UInt32))
    {register : Register} (h : register ∉ values.map Prod.fst) :
    held prior (Video.writes values) register = prior register := by
  induction values generalizing prior with
  | nil => rfl
  | cons value rest ih =>
    rw [List.map_cons, List.mem_cons, not_or] at h
    have later := ih (Function.update prior value.1 value.2) h.2
    rw [Function.update_of_ne h.1] at later
    exact later

/-- Registers that are written once each have the values that are written. -/
theorem held_writes (prior : Register → UInt32) {values : List (Register × UInt32)}
    (once : (values.map Prod.fst).Nodup) {value : Register × UInt32} (member : value ∈ values) :
    held prior (Video.writes values) value.1 = value.2 := by
  induction values generalizing prior with
  | nil => cases member
  | cons first rest ih =>
    rw [List.map_cons, List.nodup_cons] at once
    rcases List.mem_cons.1 member with rfl | member
    · have later := held_of_not_written (Function.update prior value.1 value.2) rest once.1
      rw [Function.update_self] at later
      exact later
    · exact ih (Function.update prior first.1 first.2) once.2 member

/-- A command on another block is nothing to a register. -/
theorem heldAfter_of_not_on (prior : Register → UInt32) {command : Command} {register : Register}
    (h : ¬ command.IsOn register.block) : heldAfter prior command register = prior register := by
  cases command with
  | write other value =>
    have ne : register ≠ other := by
      rintro rfl
      exact h rfl
    exact Function.update_of_ne ne _ _
  | _ => rfl

theorem heldAfter_congr {prior other : Register → UInt32} (command : Command) {register : Register}
    (same : other register = prior register) :
    heldAfter other command register = heldAfter prior command register := by
  cases command with
  | write place value =>
    by_cases eq : register = place
    · subst eq
      simp [heldAfter]
    · simp [heldAfter, Function.update_of_ne eq, same]
  | _ => exact same

/-- Only commands on its own block matter to a register. -/
theorem held_filter (commands : List Command) {prior other : Register → UInt32}
    {register : Register} (same : other register = prior register) :
    held other commands register =
      held prior (commands.filter (Command.IsOn register.block ·)) register := by
  induction commands generalizing prior other with
  | nil => exact same
  | cons command rest ih =>
    rw [held_cons, List.filter_cons]
    by_cases on : command.IsOn register.block
    · rw [if_pos (by simpa using on), held_cons]
      exact ih (heldAfter_congr command same)
    · rw [if_neg (by simpa using on)]
      exact ih ((heldAfter_of_not_on other on).trans same)

/-- A register holds what was written last on its block, if that was written to it. -/
theorem held_of_last (prior : Register → UInt32) {commands front : List Command}
    {register : Register} {value : UInt32}
    (h : commands.filter (Command.IsOn register.block ·) = front ++ [.write register value]) :
    held prior commands register = value := by
  rw [held_filter commands rfl, h, held, List.foldl_append]
  exact Function.update_self _ _ _

end Register

/-! ### Turning the output on -/

namespace Video

open Board

/-- The registers of the picture. -/
def pictureRegisters : List Register :=
  [ViRegister.origin, ViRegister.width, ViRegister.vIntr, ViRegister.vCurrent, ViRegister.burst,
    ViRegister.vSync, ViRegister.hSync, ViRegister.hSyncLeap, ViRegister.hVideo, ViRegister.vVideo,
    ViRegister.vBurst, ViRegister.xScale, ViRegister.yScale]

theorem pictureValues_fst (memory : FrameMemory) (profile : TimingProfile) (x y : UInt32) :
    (pictureValues memory profile x y).map Prod.fst = pictureRegisters := rfl

theorem block_of_mem_pictureRegisters {register : Register} (h : register ∈ pictureRegisters) :
    register.block = .vi := by
  revert register
  decide

section

variable {κ : Type} {path : MemoryPath κ} (lawful : path.Lawful) {memory : FrameMemory}
  (apart : memory.Apart) (whole : memory.Whole path) {config : Config} {color : Color}
  {platform : Platform} {s t : Board κ} {moments : List (Moment (Board κ))} {video : Video}

/-- The board on which the output is turned on: the engine is idle, both framebuffers have the clear
colour in RDRAM, and the first one is the one that is scanned out. -/
structure Presentable (memory : FrameMemory) (color : Color) (s : Board κ) : Prop where
  idle : s.engine.queue = []
  clear : ∀ index, Framebuffer.ofBytes s.memory.rdram (memory.place index) = .uniform color
  origin : s.origin = (PhysAddr.ofAddress (memory.framebuffer 0)).word

omit lawful apart whole in
theorem presentable_of_ready {s t : Board κ} {started : List Transfer}
    (h : Idle (ReadyToShow path memory color s)
      (Tally (HasPattern color) started (PhysAddr.ofAddress (memory.framebuffer 0)).word) t) :
    Presentable memory color t where
  idle := h.queue
  clear index := (h.fact.2.2 index).liesAt.ofBytes_eq
  origin := h.known.2.2

include lawful

omit apart whole in
/-- Once the first framebuffer is scanned out, the board is presentable until all registers have been
written. -/
theorem presentable_of_writeTiming {ready : Board κ}
    (h : Idle (ReadyToShow path memory color s)
      (Tally (HasPattern color) (startedWith memory s) s.origin) ready)
    (execution : (hardware path).Execution
      ((initial memory platform).writeTiming platform.profile) ready moments (.returned ()) t) :
    ∀ moment ∈ moments, ∀ word, moment.event.command = .write ViRegister.ctrl word →
      Presentable memory color moment.state := by
  obtain ⟨rest, aside, eq⟩ :=
    accesses_writeTiming_rest (initial memory platform) platform.profile
  rw [eq] at execution
  obtain ⟨first, later, _, shown, rfl, showing, others⟩ := execution.of_bind
  intro moment member word written
  rcases List.mem_append.1 member with member | member
  · -- the first write is not the one that turns the output on
    have alone : (Program.write ViRegister.origin (PhysAddr.ofAddress
        ((initial memory platform).memory.framebuffer (initial memory platform).displaying)).word
        ).Accesses fun command => ∃ value, command = .write ViRegister.origin value :=
      .perform _ ⟨_, rfl⟩
    obtain ⟨value, same⟩ :=
      alone.of_runs showing.run moment.event (List.mem_map_of_mem member)
    rw [written] at same
    cases same
  · -- behind it the first framebuffer is scanned out, and the rest changes nothing on the board
    let lit := Idle (ReadyToShow path memory color s) (Tally (HasPattern color)
      (startedWith memory s) (PhysAddr.ofAddress (memory.framebuffer 0)).word)
    have lighting : (hardware path).Ensures (.always (ComingUp path memory color s))
        (Idle (ReadyToShow path memory color s)
          (Tally (HasPattern color) (startedWith memory s) s.origin))
        (Program.write ViRegister.origin (PhysAddr.ofAddress (memory.framebuffer 0)).word)
        fun _ => lit :=
      ensures_writeOrigin _ (ready_sound lawful s _) (ready_sound lawful s _)
        fun _ _ _ known => ⟨known.1, known.2.1, rfl⟩
    obtain ⟨-, -, returned⟩ := lighting h showing
    have sound : (hardware path).Sound (.always lit) lit :=
      idle_sound lawful (ReadyToShow.robust s) fun _ h => h
    obtain ⟨guarded, -, -⟩ := (keeps_aside sound).ensures aside (returned _ rfl) others
    exact presentable_of_ready (guarded moment member)

include apart whole

/-- **The output is turned on last.** Bringing up ends with the write of the control word, on a
presentable board, and before it the video interface is told to show nothing, and then the registers
of the picture. -/
theorem exists_last_of_bringUp (own : ∀ a, memory.InStaging a → ¬ Leftover s a)
    (execution : (hardware path).Execution (bringUp config memory platform color) s moments
      (.returned video) t) :
    ∃ front last x y ctrl, moments = front ++ [last] ∧
      last.event.command = .write ViRegister.ctrl ctrl ∧ ctrl ≠ 0 ∧
      platform.profile.xScale = .ok x ∧ platform.profile.yScale = .ok y ∧
      platform.profile.ctrl .resampleOnly = .ok ctrl ∧
      commandsIn (Command.IsOn .vi) (front.map Moment.event) =
        .write ViRegister.ctrl 0 :: writes (pictureValues memory platform.profile x y) ∧
      Presentable memory color last.state := by
  obtain ⟨x, y, ctrl, eqX, eqY, eqCtrl, ne⟩ := platform.exists_values
  rw [bringUp_eq] at execution
  obtain ⟨before, rest, _, ready, rfl, preparing, showing⟩ := execution.of_bind
  obtain ⟨timing, nothing, _, u, rfl, writing, returning⟩ := showing.of_bind
  obtain ⟨rfl, -, -⟩ := returning.of_done
  have written := emits_writeTiming memory platform eqX eqY eqCtrl writing.run
  -- the registers of the picture are all that is accessed behind the preparation
  have all := (writes_writeTiming (initial memory platform) platform.profile).commandsIn_eq
    (K := Command.IsOn .vi) (fun _ => Command.WritesTo.isOn) writing.run
  have commands : timing.map (fun moment => moment.event.command) =
      writes (pictureValues memory platform.profile x y) ++ [.write ViRegister.ctrl ctrl] := by
    rw [← written, all, List.map_map]
    rfl
  obtain ⟨picture, lasts, rfl, -, eqLast⟩ := List.map_eq_append_iff.1 commands
  obtain ⟨last, rfl, turnedOn⟩ := List.map_eq_singleton_iff.1 eqLast
  have presentable := presentable_of_writeTiming lawful
    ((ensures_prepare lawful apart whole platform s own rfl preparing).2.2 _ rfl) writing last
    (List.mem_append_right _ (List.mem_singleton_self last)) ctrl turnedOn
  refine ⟨before ++ picture, last, x, y, ctrl, by simp, turnedOn, ne, eqX, eqY, eqCtrl, ?_,
    presentable⟩
  have blank := emits_prepare_blank config memory platform color preparing.run
  have only : commandsIn (Command.IsOn .vi) [last.event] = [.write ViRegister.ctrl ctrl] := by
    rw [commandsIn_cons, if_pos (by rw [turnedOn]; rfl), turnedOn, commandsIn_nil]
  rw [List.map_append, commandsIn_append, List.map_singleton, only] at written
  rw [List.map_append, commandsIn_append, blank, List.append_cancel_right written]
  rfl

omit lawful apart whole in
/-- Without a start nothing more is left over. -/
theorem leftover_of_no_start {α : Type} {program : Program α}
    (quiet : program.Accesses fun command => ¬ command.IsStart) {value : α}
    (execution : (hardware path).Execution program s moments (.returned value) t) {a : Nat}
    (h : Leftover t a) : Leftover s a := by
  -- what is outstanding was so from the beginning
  let old (queue : List Transfer) : Prop := ∀ byte,
    (∃ transfer ∈ queue, transfer.direction = .toRdram ∧ byte ∈ transfer.bytes) →
      s.engine.Pending .toRdram byte
  have stable : (hardware path).Stable fun met => old met.engine.queue := by
    intro met later moved h
    cases moved with
    | engine moved => exact fun byte pending => h byte (moved.copies.1 .toRdram byte pending)
    | memory moved => exact h
  obtain ⟨-, -, returned⟩ := (keeps_queue old stable).ensures quiet (fun _ pending => pending) execution
  obtain ⟨byte, pending, place⟩ := h
  exact ⟨byte, returned value rfl byte pending, place⟩

/-- **The first picture is clear.** Detect the platform from the loader's word and bring the video
output up, on a board with any memory, any contents of its cache, and any transfers outstanding that
do not go to the staging page. If that returns, then
* the last access turns the output on, by the platform's control word, which is not zero;
* before it, the video interface is told to show nothing, first of all, and then each register of
  the picture, and nothing else; so that whatever the registers held at first, they now hold the
  values of the platform;
* the board that is met then is presentable: both framebuffers have the clear colour in RDRAM, the
  engine is idle, and the first framebuffer is scanned out. -/
theorem first_picture_is_clear (params : BootParams) (word : UInt32)
    (own : ∀ a, memory.InStaging a → ¬ Leftover s a)
    (execution : (hardware path).Execution (do
      let platform ← Platform.detect config { params with tvType := .ofCode word }
      bringUp config memory platform color) s moments (.returned video) t) :
    let profile := (Platform.ofWord config word).profile
    ∃ front last x y ctrl, moments = front ++ [last] ∧
      profile.xScale = .ok x ∧ profile.yScale = .ok y ∧
      profile.ctrl .resampleOnly = .ok ctrl ∧ ctrl ≠ 0 ∧
      last.event.command = .write ViRegister.ctrl ctrl ∧
      commandsIn (Command.IsOn .vi) (front.map Moment.event) =
        .write ViRegister.ctrl 0 :: writes (pictureValues memory profile x y) ∧
      (∀ value ∈ pictureValues memory profile x y, value.1 ≠ ViRegister.ctrl ∧ ∀ prior,
        Register.held prior (front.map fun moment => moment.event.command) value.1 = value.2) ∧
      Presentable memory color last.state := by
  intro profile
  obtain ⟨log, viewer, eq⟩ := Platform.exists_detect config params word
  rw [eq, bind_assoc] at execution
  obtain ⟨logging, work, _, u, rfl, printing, working⟩ := execution.of_bind
  have own' (a : Nat) (inside : memory.InStaging a) : ¬ Leftover u a := fun left =>
    own a inside (leftover_of_no_start (viewer.mono fun _ h => (h.isAside nofun nofun).not_isStart)
      printing left)
  obtain ⟨front, last, x, y, ctrl, rfl, turnedOn, ne, eqX, eqY, eqCtrl, commands, presentable⟩ :=
    exists_last_of_bringUp lawful apart whole own' working
  have silent : log.Emits (Command.IsOn .vi) [] :=
    viewer.emits_nil fun _ viewer vi => nomatch viewer.block_eq vi
  have behind : commandsIn (Command.IsOn .vi) ((logging ++ front).map Moment.event) =
      .write ViRegister.ctrl 0 :: writes (pictureValues memory profile x y) := by
    rw [List.map_append, commandsIn_append, silent printing.run, commands]
    rfl
  refine ⟨logging ++ front, last, x, y, ctrl, by simp, eqX, eqY, eqCtrl, ne, turnedOn, behind, ?_,
    presentable⟩
  intro value member
  have register : value.1 ∈ pictureRegisters := by
    rw [← pictureValues_fst memory profile x y]
    exact List.mem_map_of_mem member
  constructor
  · intro eq
    rw [eq] at register
    exact absurd register (by decide)
  · intro prior
    have once : ((pictureValues memory profile x y).map Prod.fst).Nodup := by
      rw [pictureValues_fst]
      decide
    -- whatever else was written, to registers of other blocks, is no matter
    have filtered : ((logging ++ front).map fun moment => moment.event.command).filter
        (Command.IsOn value.1.block ·) =
          .write ViRegister.ctrl 0 :: writes (pictureValues memory profile x y) := by
      rw [block_of_mem_pictureRegisters register, ← behind, commandsIn, List.map_map]
      rfl
    rw [Register.held_filter _ rfl, filtered, Register.held_cons]
    exact Register.held_writes _ once member

end

/-- A loader's word without a meaning, on a board whose cache holds nothing but dirty lines. -/
theorem first_picture_is_clear_dirty : ∃ front last video t,
    (hardware cachedPath).Execution (do
      let platform ← Platform.detect (.silent true) { BootParams.stock with tvType := .ofCode 7 }
      bringUp (.silent true) .secondMegabyte platform ⟨0x7BDF⟩)
      (.blank (fun _ => some ⟨fun _ => 0xFF, true⟩) []) (front ++ [last]) (.returned video) t ∧
    (∃ word, last.event.command = .write ViRegister.ctrl word) ∧
    Presentable .secondMegabyte ⟨0x7BDF⟩ last.state := by
  have finishes : (do
      let platform ← Platform.detect (.silent true) { BootParams.stock with tvType := .ofCode 7 }
      bringUp (.silent true) .secondMegabyte platform ⟨0x7BDF⟩).Finishes :=
    (Platform.finishable_detect _ _).bind fun _ =>
      (finishable_bringUp FrameMemory.secondMegabyte_aligned _ _).mono
        fun _ _ => trivial
  obtain ⟨moments, video, t, -, execution⟩ := (live cachedPath_total).exists_execution finishes
    (.blank (fun _ => some ⟨fun _ => 0xFF, true⟩) [])
  obtain ⟨front, last, x, y, ctrl, rfl, -, -, -, -, turnedOn, -, -, presentable⟩ :=
    first_picture_is_clear cachedPath_lawful FrameMemory.secondMegabyte_apart
      FrameMemory.secondMegabyte_aligned.whole BootParams.stock 7 (fun a _ => not_leftover rfl a)
      execution
  exact ⟨front, last, video, t, execution, ⟨ctrl, turnedOn⟩, presentable⟩

end Video

end ColdBoot
