import ColdBoot.Proofs.ConsoleLife
import ColdBoot.Proofs.FirstPicture

/-! # What the boot beacon tells

The beacon's words are written on the way from the handoff into the loop. This is about single
accesses on that way, given the history in front of them.

* **`Beacon.Means`** – what the word of a stage stands for, told by what has been done by then;
* **`Beacon.Honest`** – an access is honest if it writes no word out of order and none before it is
true, and if it does not begin a step before the word of the step in front of it is in place;
* **`Beacon.ensures_mark`**, **`Beacon.ensures_access`**, **`Beacon.ensures_notes`** – how stages and
claims are carried along, with one rule for each kind of access. -/

namespace ColdBoot

open Hardware Program

namespace Command

/-- A write of one of the beacon's two words. -/
def IsBeacon : Command → Prop
  | .write register _ => register = BeaconRegister.magic ∨ register = BeaconRegister.stage
  | _ => False

instance : DecidablePred IsBeacon
  | .write register _ =>
      inferInstanceAs (Decidable (register = BeaconRegister.magic ∨ register = BeaconRegister.stage))
  | .getStatus | .setStatus _ | .getCause | .cache _ _ | .read _ | .storeDoubleword _ _
  | .setFence _ | .getFence | .loadFrame _ | .storePixels _ _ | .fillStaging _ _ =>
      instDecidableFalse

/-- The stages that are to be told before a command: it belongs to patching the vector, to bringing
the picture up, or to letting the video interrupt through. -/
def needs : Command → List BootStage
  | .setStatus status => if status.contains CpuStatus.ie then [.entry, .video] else [.entry]
  | .storeDoubleword _ _ => [.entry]
  | .write register value =>
      match register.block with
      | .mi => if value = LineMask.clearing Lines.all then [.entry] else [.entry, .video]
      | .sp | .vi => [.trampoline]
      | _ => []
  | .cache operation _ =>
      if operation = .invalidateInstruction then [.entry] else [.trampoline]
  | .fillStaging _ _ | .setFence _ => [.trampoline]
  | _ => []

/-- A note that is not the beacon's. -/
def IsPlainNote (command : Command) : Prop := command.IsNote ∧ ¬ command.IsBeacon

variable {command : Command}

/-- What writes to another block is no beacon. -/
theorem WritesTo.not_isBeacon {block : RegisterBlock} (h : command.WritesTo block)
    (other : block ≠ .ram) : ¬ command.IsBeacon := by
  cases command with
  | write register value =>
    obtain rfl : register.block = block := h
    rintro (rfl | rfl)
    · exact other rfl
    · exact other rfl
  | _ => exact id

theorem IsNote.not_writesTo_sp (h : command.IsNote) : ¬ command.WritesTo .sp :=
  have off : ¬ command.IsOn .sp := h.not_isOn nofun nofun
  fun writes => off writes.isOn

/-- A note begins no step. -/
theorem IsNote.needs_eq (h : command.IsNote) : command.needs = [] := by
  cases command with
  | write register value => rcases h with h | h <;> simp [needs, h]
  | read => rfl
  | _ => exact h.elim

/-- No command needs more than these stages. -/
theorem needs_subset_route (command : Command) : command.needs ⊆ [.entry, .trampoline, .video] := by
  cases command with
  | write register value =>
    cases eq : register.block <;> simp only [needs, eq] <;> (try split) <;> simp
  | setStatus | cache =>
    rw [needs]
    split <;> decide
  | _ => simp [needs]

/-- What neither lets interrupts through nor touches their lines and their vector belongs to bringing
the picture up. -/
theorem StaysMasked.needs_subset (h : command.StaysMasked) :
    command.needs ⊆ [.entry, .trampoline] := by
  cases command with
  | setStatus status => simp [needs, show status.contains CpuStatus.ie = false from h]
  | write register value =>
    have other : register.block ≠ .mi := h
    cases eq : register.block <;> simp [needs, eq] at other ⊢
  | cache operation => simp [needs, show operation ≠ .invalidateInstruction from h]
  | storeDoubleword => exact h.elim
  | _ => simp [needs]

end Command

theorem LogRecord.plain_emit (filter : LogFilter) (record : LogRecord) :
    (record.emit filter).Accesses Command.IsPlainNote :=
  (LogRecord.writes_emit filter record).mono fun _ h =>
    ⟨h.isNote (.inr rfl), h.not_isBeacon nofun⟩

theorem Platform.writes_detect (config : Config) (params : BootParams) :
    (Platform.detect config params).Accesses (Command.WritesTo .viewer) := by
  unfold Platform.detect
  cases config.pinnedPlatform with
  | some platform => exact .done platform
  | none =>
    cases Platform.ofTvType params.tvType with
    | ok platform => exact .done platform
    | error error => exact (LogRecord.writes_emit _ _).bind fun _ => .done _

namespace Beacon

/-! ### The words of the beacon -/

/-- The write that tells a stage. -/
def tells (stage : BootStage) : Command := .write BeaconRegister.stage stage.code

/-- The writes that tell stages, one after the other. -/
def marks (stages : List BootStage) : List Command :=
  stages.flatMap fun stage => [.write BeaconRegister.magic magic, tells stage]

/-- The stages on the way into the loop. -/
def route : List BootStage := [.entry, .trampoline, .video, .armed, .loop]

theorem tells_injective {stage other : BootStage} (h : tells stage = tells other) :
    stage = other := by
  have codes : stage.code = other.code := by
    injection h
  revert codes
  cases stage <;> cases other <;> decide

theorem tells_mem_marks {stage : BootStage} {stages : List BootStage} (h : stage ∈ stages) :
    tells stage ∈ marks stages :=
  List.mem_flatMap.2 ⟨stage, h, by simp⟩

theorem marks_append (first second : List BootStage) :
    marks (first ++ second) = marks first ++ marks second :=
  List.flatMap_append

theorem marks_prefix {first second : List BootStage} (h : first <+: second) :
    marks first <+: marks second := by
  obtain ⟨rest, rfl⟩ := h
  rw [marks_append]
  exact List.prefix_append _ _

/-! ### What they stand for -/

section

variable (config : Config) (memory : FrameMemory) (slot : VectorSlot) (entry : Trampoline)

/-- Interrupts are masked, and the vector is patched: it holds the jump, and the line that it is
fetched from has been dropped since. -/
structure Patched (events : List Event) (status lines : Flags) : Prop where
  closed : status.contains CpuStatus.ie = false
  masked : .write MiRegister.mask (LineMask.clearing Lines.all) ∈ events.map Event.command
  lines_eq : lines.inter Lines.all = 0
  vector : ∃ front back,
    events.map Event.command = front ++ .storeDoubleword slot.uncached entry.word :: back ∧
    (∀ vaddr word, .storeDoubleword vaddr word ∉ back) ∧
    .cache .invalidateInstruction slot.cached ∈ back

/-- The picture is complete: the pattern has been loaded and both framebuffers have been cleared with
it, by transfers that have been seen to be over, and the control word of the video interface is the
one that turns the loader's platform on. -/
structure Lit (events : List Event) : Prop where
  clears : commandsIn (Command.WritesTo .sp) events =
    Video.patternWrites memory ++ Video.clearWrites memory 0 ++ Video.clearWrites memory 1
  idle : LastIn (Command.IsOn .sp) Sp.FindsIdle events
  shown : ∃ word ctrl, ⟨.read HandoffRegister.tvType, word⟩ ∈ events ∧
    (Platform.ofWord config word).profile.ctrl .resampleOnly = .ok ctrl ∧ ctrl ≠ 0 ∧
    ∀ prior, Register.held prior (events.map Event.command) ViRegister.ctrl = ctrl

/-- The video line is let through, and so are interrupts: the status word has been written that says
so. -/
structure Armed (events : List Event) (status : Flags) : Prop where
  unmasked : .write MiRegister.mask (LineMask.setting InterruptSource.vi.line) ∈
    events.map Event.command
  written : .setStatus status ∈ events.map Event.command
  line : status.contains CpuStatus.im2 = true
  interrupts : status.contains CpuStatus.ie = true

/-- What the word of a stage stands for, given the accesses so far, the status word and the lines. -/
def Means : BootStage → List Event → Flags → Flags → Prop
  | .trampoline, events, status, lines => Patched slot entry events status lines
  | .video, events, _, _ => Lit config memory events
  | .armed, events, status, _ => Armed events status
  | .entry, _, _, _ | .loop, _, _, _ | .halt, _, _, _ => True

/-- An access behind a history is honest. -/
structure Honest (start : Controls) (past : List Tick) (command : Command) : Prop where
  /-- The words of the beacon are written in the order of the route, each behind the mark. -/
  order : command.IsBeacon →
    commandsIn Command.IsBeacon (Timeline.accesses past) ++ [command] <+: marks route
  /-- What is told is so. -/
  truth : ∀ stage, command = tells stage → Means config memory slot entry stage
    (Timeline.accesses past) (start.behind past).status (start.behind past).lines
  /-- A step is not begun before the word in front of it is in place. -/
  begun : ∀ stage ∈ command.needs,
    tells stage ∈ commandsIn Command.IsBeacon (Timeline.accesses past)

/-- Every access is honest, and at any time the beacon's words are some of the route's, in order. -/
def honestGuard (start : Controls) : Guard (List Tick) where
  access := Honest config memory slot entry start
  state past := commandsIn Command.IsBeacon (Timeline.accesses past) <+: marks route

end

end Beacon

/-! ### Claims about a history -/

/-- A command outside a set is not among those in it. -/
theorem commandsIn_concat_of_not {K : Command → Prop} [DecidablePred K] (events : List Event)
    {event : Event} (h : ¬ K event.command) :
    commandsIn K (events ++ [event]) = commandsIn K events := by
  rw [commandsIn_append, commandsIn_cons, if_neg h, commandsIn_nil, List.append_nil]

namespace Timeline

/-- A claim about the accesses so far, the status word and the lines. -/
def Knows (start : Controls) (claim : List Event → Flags → Flags → Prop) (past : List Tick) : Prop :=
  claim (accesses past) (start.behind past).status (start.behind past).lines

variable {gate : Controls → Prop} {start : Controls} {guard : Guard (List Tick)}
  {claim : List Event → Flags → Flags → Prop}

/-- Vertical blanks are no matter to it. -/
theorem sound_knows (state : ∀ past, Knows start claim past → guard.state past) :
    (hardware gate start).Sound guard (Knows start claim) where
  stable := by
    rintro past _ ⟨-, rfl⟩ h
    rw [Knows, accesses_append, accesses_vblank, List.append_nil, Controls.behind_concat]
    exact h
  state := state

theorem knows_concat {past : List Tick} {event : Event} :
    Knows start claim (past ++ [.access event]) ↔ claim (accesses past ++ [event])
      ((start.behind past).after event.command).status
      ((start.behind past).after event.command).lines := by
  rw [Knows, accesses_append, accesses_access, Controls.behind_concat]
  rfl

end Timeline

namespace Beacon

open Timeline

section

variable {config : Config} {memory : FrameMemory} {slot : VectorSlot} {entry : Trampoline}
  {gate : Controls → Prop} {start : Controls} {stages : List BootStage}

/-- So many stages are told, and a claim holds. -/
def Told (stages : List BootStage) (claim : List Event → Flags → Flags → Prop) (events : List Event)
    (status lines : Flags) : Prop :=
  commandsIn Command.IsBeacon events = marks stages ∧ claim events status lines

/-- Notes do not matter to a claim. -/
def Lasting (claim : List Event → Flags → Flags → Prop) : Prop :=
  ∀ ⦃events status lines event⦄, event.command.IsNote → claim events status lines →
    claim (events ++ [event]) status lines

variable {claim : List Event → Flags → Flags → Prop} (onRoute : stages <+: route)

theorem Told.tells_mem {events : List Event} {status lines : Flags}
    (h : Told stages claim events status lines) {stage : BootStage} (member : stage ∈ stages) :
    tells stage ∈ commandsIn Command.IsBeacon events := by
  rw [h.1]
  exact tells_mem_marks member

include onRoute

theorem sound_told : (hardware gate start).Sound (honestGuard config memory slot entry start)
    (Knows start (Told stages claim)) := by
  apply sound_knows
  intro past h
  show commandsIn Command.IsBeacon (accesses past) <+: marks route
  rw [h.1]
  exact marks_prefix onRoute

omit onRoute in
/-- What belongs to the steps behind the stages that are told may be done. -/
theorem honest_of_told {past : List Tick} {command : Command} (plain : ¬ command.IsBeacon)
    (told : command.needs ⊆ stages)
    (h : Knows start (Told stages claim) past) :
    Honest config memory slot entry start past command where
  order beacon := absurd beacon plain
  truth stage tell := by
    rw [tell] at plain
    exact absurd (.inr rfl) plain
  begun stage needed := h.tells_mem (told needed)

/-- One access that is no beacon. -/
theorem ensures_access {command : Command}
    {after : command.Answer → List Event → Flags → Flags → Prop} (plain : ¬ command.IsBeacon)
    (told : command.needs ⊆ stages)
    (changes : ∀ events (controls : Controls) answer, claim events controls.status controls.lines →
      after answer (events ++ [⟨command, answer⟩]) (controls.after command).status
        (controls.after command).lines) :
    (hardware gate start).Ensures (honestGuard config memory slot entry start)
      (Knows start (Told stages claim)) (Program.perform command)
      fun answer => Knows start (Told stages (after answer)) := by
  refine .perform (sound_told onRoute) (fun _ => sound_told onRoute) ?_ ?_
  · exact fun past h => honest_of_told plain told h
  · rintro past answer _ h ⟨-, rfl⟩
    rw [knows_concat]
    exact ⟨by rw [commandsIn_concat_of_not _ plain]; exact h.1, changes _ _ _ h.2⟩

/-- Notes, the beacon's excepted, keep what is lasting. -/
theorem ensures_notes {α : Type} {program : Program α} (notes : program.Accesses Command.IsPlainNote)
    (lasting : Lasting claim) :
    (hardware gate start).Ensures (honestGuard config memory slot entry start)
      (Knows start (Told stages claim)) program fun _ => Knows start (Told stages claim) := by
  have keeps : (hardware gate start).Keeps (honestGuard config memory slot entry start)
      Command.IsPlainNote (Knows start (Told stages claim)) := by
    refine ⟨sound_told onRoute, ?_, ?_⟩
    · intro past command note h
      apply honest_of_told note.2 _ h
      rw [note.1.needs_eq]
      exact List.nil_subset stages
    · rintro past command answer _ note h ⟨-, rfl⟩
      rw [knows_concat, note.1.isWork.after_eq]
      exact ⟨by rw [commandsIn_concat_of_not _ note.2]; exact h.1, lasting note.1 h.2⟩
  exact keeps.ensures notes

omit onRoute in
/-- **A stage is told** when it is its turn, and what its word stands for is so. -/
theorem ensures_mark {stage : BootStage} (marked : config.bootBeacon = true)
    (next : stages ++ [stage] <+: route) (lasting : Lasting claim)
    (truth : ∀ events status lines, claim events status lines →
      Means config memory slot entry stage events status lines) :
    (hardware gate start).Ensures (honestGuard config memory slot entry start)
      (Knows start (Told stages claim)) (mark config stage)
      fun _ => Knows start (Told (stages ++ [stage]) claim) := by
  have both : marks (stages ++ [stage]) =
      marks stages ++ [.write BeaconRegister.magic magic] ++ [tells stage] := by
    simp [marks]
  have whole := marks_prefix next
  have onRoute := (List.prefix_append stages [stage]).trans next
  rw [both] at whole
  have half := (List.prefix_append _ [tells stage]).trans whole
  have note : (tells stage).IsNote := .inl rfl
  have markNote : (Command.write BeaconRegister.magic magic).IsNote := .inl rfl
  -- between the two writes the mark is in place, and the word is still that of the stage before
  let marking (events : List Event) (status lines : Flags) : Prop :=
    commandsIn Command.IsBeacon events = marks stages ++ [.write BeaconRegister.magic magic] ∧
      claim events status lines
  have sound : (hardware gate start).Sound (honestGuard config memory slot entry start)
      (Knows start marking) := by
    apply sound_knows
    intro past h
    show commandsIn Command.IsBeacon (accesses past) <+: marks route
    rw [h.1]
    exact half
  rw [mark, if_pos marked]
  refine .via (fun _ => Knows start marking)
    (.perform (sound_told onRoute) (fun _ => sound) ?_ ?_) fun _ =>
      .perform sound (fun _ => sound_told next) ?_ ?_
  · intro past h
    refine ⟨fun _ => ?_, ?_, ?_⟩
    · rw [h.1]
      exact half
    · intro other same
      injection same with register
      exact absurd register (by decide)
    · exact fun _ needed => nomatch needed
  · rintro past answer _ h ⟨-, rfl⟩
    rw [knows_concat]
    refine ⟨?_, lasting markNote h.2⟩
    rw [commandsIn_append, h.1]
    rfl
  · intro past h
    refine ⟨fun _ => ?_, ?_, ?_⟩
    · rw [h.1]
      exact whole
    · intro other same
      obtain rfl := tells_injective same
      exact truth _ _ _ h.2
    · exact fun _ needed => nomatch needed
  · rintro past answer _ h ⟨-, rfl⟩
    rw [knows_concat]
    refine ⟨?_, lasting note h.2⟩
    rw [commandsIn_append, h.1, both]
    rfl

end

/-! ### Claims that last -/

section

variable {config : Config} {memory : FrameMemory} {slot : VectorSlot} {entry : Trampoline}
  {claim : List Event → Flags → Flags → Prop}

theorem Lasting.mem (event : Event) : Lasting fun events _ _ => event ∈ events :=
  fun _ _ _ _ _ h => List.mem_append_left _ h

theorem Lasting.and {other : List Event → Flags → Flags → Prop} (h : Lasting claim)
    (h' : Lasting other) :
    Lasting fun events status lines => claim events status lines ∧ other events status lines :=
  fun _ _ _ _ note both => ⟨h note both.1, h' note both.2⟩

/-- The signal processor has not been told anything yet. -/
def Quiet (events : List Event) : Prop := commandsIn (Command.WritesTo .sp) events = []

theorem Quiet.concat {events : List Event} (h : Quiet events) {event : Event}
    (other : ¬ event.command.WritesTo .sp) : Quiet (events ++ [event]) := by
  rw [Quiet, commandsIn_concat_of_not events other]
  exact h

theorem lasting_quiet : Lasting fun events _ _ => Quiet events :=
  fun _ _ _ _ note h => h.concat note.not_writesTo_sp

theorem lasting_closed : Lasting fun _ status _ => status.contains CpuStatus.ie = false :=
  fun _ _ _ _ _ h => h

theorem lasting_patched : Lasting (Patched slot entry) := by
  intro events status lines event note h
  obtain ⟨front, back, split, last, dropped⟩ := h.vector
  refine ⟨h.closed, ?_, h.lines_eq, front, back ++ [event.command], ?_, ?_, ?_⟩
  · rw [List.map_append]
    exact List.mem_append_left _ h.masked
  · rw [List.map_append, split, List.append_assoc, List.cons_append]
    rfl
  · intro vaddr word member
    rcases List.mem_append.1 member with member | member
    · exact last vaddr word member
    · rw [← List.mem_singleton.1 member] at note
      exact note
  · exact List.mem_append_left _ dropped

theorem lasting_lit : Lasting fun events _ _ => Lit config memory events := by
  intro events status lines event note h
  have offSp : ¬ event.command.IsOn .sp := note.not_isOn nofun nofun
  have offVi : ¬ event.command.IsOn .vi := note.not_isOn nofun nofun
  obtain ⟨front, found, back, split, idle, quiet⟩ := h.idle
  obtain ⟨word, ctrl, looked, value, lit, held⟩ := h.shown
  refine ⟨?_, ⟨front, found, back ++ [event], ?_, idle, ?_⟩, word, ctrl, ?_, value, lit, ?_⟩
  · rw [commandsIn_concat_of_not events note.not_writesTo_sp]
    exact h.clears
  · rw [split, List.append_assoc, List.cons_append]
  · intro later member
    rcases List.mem_append.1 member with member | member
    · exact quiet later member
    · rw [List.mem_singleton.1 member]
      exact offSp
  · exact List.mem_append_left _ looked
  · intro prior
    rw [List.map_append, Register.held, List.foldl_append]
    exact (Register.heldAfter_of_not_on _ offVi).trans (held prior)

theorem lasting_armed : Lasting fun events status _ => Armed events status := by
  intro events status lines event note h
  refine ⟨?_, ?_, h.line, h.interrupts⟩
  · rw [List.map_append]
    exact List.mem_append_left _ h.unmasked
  · rw [List.map_append]
    exact List.mem_append_left _ h.written

end

end Beacon

end ColdBoot
