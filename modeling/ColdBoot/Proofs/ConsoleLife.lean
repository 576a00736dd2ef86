import ColdBoot.Proofs.BootOrder

/-! # The life of a booted console

The boot leaves a status word that lets the video interrupt through, with the video line as the only
one enabled. Everything that is done with the console afterwards leaves the lines alone, and changes
the status word in its waits only, to the same word in reduced power and back: a console that waits
can always be woken.

* **`Console.Activity`** – one thing that is done with a booted console;
* **`Console.controls_of_boot`** – status word and lines behind the boot;
* **`Console.ensures_live`** – they stay so, but for reduced power in waits;
* **`Console.interrupts_stay_deliverable`** – the same of every execution behind a boot. -/

namespace ColdBoot

open Hardware Program

/-! ### Words that let the interrupt through -/

/-- A status word that lets the video interrupt through, outside any exception. -/
structure CpuStatus.Listening (status : Flags) : Prop where
  ie : status.contains CpuStatus.ie = true
  im2 : status.contains CpuStatus.im2 = true
  outside : status.inter (CpuStatus.exl.union CpuStatus.erl) = 0

/-- The same at full power. -/
structure CpuStatus.Armed (status : Flags) : Prop extends CpuStatus.Listening status where
  full : status.inter CpuStatus.rp = 0

namespace Flags

variable {a b c : Flags}

/-- A word that lacks a flag loses nothing with it. -/
theorem without_of_inter (disjoint : a.inter b = 0) : a.without b = a := by
  refine eq_of_bit fun i => ?_
  have lacks := congrArg (bit · i) disjoint
  simp only [bit_inter, bit_without, bit_zero] at lacks ⊢
  revert lacks
  cases a.bit i <;> cases b.bit i <;> simp

/-- A word that lacks some flags lacks each of them. -/
theorem inter_of_part (disjoint : a.inter b = 0) (part : c.without b = 0) : a.inter c = 0 := by
  refine eq_of_bit fun i => ?_
  have lacks := congrArg (bit · i) disjoint
  have inside := congrArg (bit · i) part
  simp only [bit_inter, bit_without, bit_zero] at lacks inside ⊢
  revert lacks inside
  cases a.bit i <;> cases b.bit i <;> cases c.bit i <;> simp

theorem contains_union_right (h : b.contains c = true) : (a.union b).contains c = true := by
  refine decide_eq_true (eq_of_bit fun i => ?_)
  have inside := congrArg (bit · i) (of_decide_eq_true h : b.inter c = c)
  show ((a.union b).inter c).bit i = c.bit i
  simp only [bit_inter, bit_union] at inside ⊢
  revert inside
  cases a.bit i <;> cases b.bit i <;> cases c.bit i <;> simp

theorem union_comm : a.union b = b.union a := by
  refine eq_of_bit fun i => ?_
  simp [Bool.or_comm]

theorem union_inter_of_disjoint (disjoint : b.inter c = 0) : (a.union b).inter c = a.inter c := by
  refine eq_of_bit fun i => ?_
  have lacks := congrArg (bit · i) disjoint
  simp only [bit_inter, bit_union, bit_zero] at lacks ⊢
  revert lacks
  cases a.bit i <;> cases b.bit i <;> cases c.bit i <;> simp

end Flags

namespace CpuStatus

variable {status : Flags}

/-- Arming makes an armed word of any word. -/
theorem Armed.of_union (status : Flags) : Armed
    ((status.without ((exl.union erl).union rp)).union (im2.union ie)) := by
  have clear : ((status.without ((exl.union erl).union rp)).union (im2.union ie)).inter
      ((exl.union erl).union rp) = 0 := by
    rw [Flags.union_inter_of_without]
    decide
  exact {
    ie := Flags.contains_union_right (by decide)
    im2 := Flags.contains_union_right (by decide)
    outside := Flags.inter_of_part clear (by decide)
    full := Flags.inter_of_part clear (by decide) }

/-- Reduced power does not keep the interrupt away. -/
theorem Listening.union_power (h : Listening status) : Listening (status.union rp) where
  ie := by
    rw [Flags.union_comm]
    exact Flags.contains_union_right h.ie
  im2 := by
    rw [Flags.union_comm]
    exact Flags.contains_union_right h.im2
  outside := by
    rw [Flags.union_inter_of_disjoint (by decide)]
    exact h.outside

/-- Reduced power is all that a wait takes back. -/
theorem Armed.union_without_power (h : Armed status) : (status.union rp).without rp = status := by
  rw [Flags.union_without_self, Flags.without_of_inter h.full]

end CpuStatus

/-! ### What may be done -/

namespace Command

/-- A look at the vblank flag, or at a word of a DMA engine that tells how far it is. -/
def IsPoll : Command → Prop
  | .getFence => True
  | .read register => register ∈ [SpRegister.dmaBusy, SpRegister.dmaFull, PiRegister.status]
  | _ => False

/-- Neither a poll, nor a change of the status word or of the enabled lines. -/
def IsOrdinary : Command → Prop
  | .setStatus _ | .getFence => False
  | .read register => register ∉ [SpRegister.dmaBusy, SpRegister.dmaFull, PiRegister.status]
  | .write register _ => register ≠ MiRegister.mask
  | _ => True

/-- With `status` as the word at full power: the word is only changed to it, or to the same word in
reduced power; the enabled lines are left alone; and polls are made in reduced power. -/
def IsSteady (status : Flags) (controls : Controls) : Command → Prop
  | .setStatus new => new = status ∨ new = status.union CpuStatus.rp
  | .write register _ => register ≠ MiRegister.mask
  | command => command.IsPoll → controls.status = status.union CpuStatus.rp

variable {status : Flags} {controls : Controls} {command : Command}

theorem IsOrdinary.isSteady (h : command.IsOrdinary) : command.IsSteady status controls := by
  cases command with
  | setStatus | getFence => exact h.elim
  | read register => exact fun poll => absurd poll h
  | write register value => exact h
  | _ => exact fun poll => poll.elim

theorem IsPoll.isSteady (h : command.IsPoll)
    (reduced : controls.status = status.union CpuStatus.rp) : command.IsSteady status controls := by
  cases command with
  | getFence | read => exact fun _ => reduced
  | _ => exact h.elim

theorem IsSteady.written {word : Flags} (h : command.IsSteady status controls)
    (eq : command = .setStatus word) : word = status ∨ word = status.union CpuStatus.rp := by
  subst eq
  exact h

theorem IsSteady.polls (h : command.IsSteady status controls) (poll : command.IsPoll) :
    controls.status = status.union CpuStatus.rp := by
  cases command with
  | getFence | read => exact h poll
  | _ => exact poll.elim

theorem WritesTo.isOrdinary {block : RegisterBlock} (h : command.WritesTo block)
    (ne : block ≠ .mi) : command.IsOrdinary := by
  cases command with
  | write register value =>
    obtain rfl : register.block = block := h
    rintro rfl
    exact ne rfl
  | _ => exact h.elim

theorem IsCache.isOrdinary (h : command.IsCache) : command.IsOrdinary := by
  cases command with
  | cache => trivial
  | _ => exact h.elim

end Command

namespace Controls

/-- Status word and lines are given ones. -/
structure Holds (status lines : Flags) (controls : Controls) : Prop where
  status_eq : controls.status = status
  lines_eq : controls.lines = lines

variable {status lines : Flags} {controls : Controls} {command : Command}

theorem Holds.after_ordinary (h : controls.Holds status lines) (ordinary : command.IsOrdinary) :
    (controls.after command).Holds status lines := by
  cases command with
  | setStatus | getFence => exact ordinary.elim
  | write register value =>
    have same : controls.after (.write register value) = controls := if_neg ordinary
    rwa [same]
  | setFence => exact ⟨h.status_eq, h.lines_eq⟩
  | _ => exact h

theorem Holds.after_poll (h : controls.Holds status lines) (poll : command.IsPoll) :
    (controls.after command).Holds status lines := by
  cases command with
  | getFence | read => exact h
  | _ => exact poll.elim

end Controls

namespace Timeline

open Controls

variable {gate : Controls → Prop} {start : Controls} {status lines word : Flags}

/-- Every access is steady, and status word and lines stay, but for reduced power. -/
def steadyGuard (start : Controls) (status lines : Flags) : Guard (List Tick) where
  access past command := command.IsSteady status (start.behind past)
  state past := ∃ word, (word = status ∨ word = status.union CpuStatus.rp) ∧
    (start.behind past).Holds word lines

/-- Either word lets interrupts through. -/
theorem interruptible_of_steady (armed : CpuStatus.Armed status) {past : List Tick}
    (steady : (steadyGuard start status lines).state past) : (start.behind past).Interruptible := by
  obtain ⟨word, possible, holds⟩ := steady
  rw [Interruptible, holds.status_eq]
  rcases possible with rfl | rfl
  · exact armed.ie
  · exact armed.union_power.ie

section Steps

variable (possible : word = status ∨ word = status.union CpuStatus.rp)

include possible

/-- What is ordinary leaves status word and lines as they are. -/
theorem keeps_ordinary : (hardware gate start).Keeps (steadyGuard start status lines)
    Command.IsOrdinary fun past => (start.behind past).Holds word lines := by
  refine keeps (fun _ h => ⟨word, possible, h⟩) (fun _ _ ordinary _ => ordinary.isSteady) ?_ ?_
  · intro past _ h
    rw [behind_concat]
    exact ⟨h.status_eq, h.lines_eq⟩
  · intro past command answer ordinary h _
    rw [behind_concat]
    exact h.after_ordinary ordinary

/-- A change of the status word, which is read first, from one of the two words to another. -/
theorem ensures_modifyStatus (change : Flags → Flags)
    (possible' : change word = status ∨ change word = status.union CpuStatus.rp) :
    (hardware gate start).Ensures (steadyGuard start status lines)
      (fun past => (start.behind past).Holds word lines) (Cpu.modifyStatus change)
      fun _ past => (start.behind past).Holds (change word) lines := by
  have sound {word : Flags} (possible : word = status ∨ word = status.union CpuStatus.rp) :
      (hardware gate start).Sound (steadyGuard start status lines)
        fun past => (start.behind past).Holds word lines := (keeps_ordinary possible).toSound
  -- a vertical blank between the look at the word and its change does not touch it
  refine .via (fun found past => found = word ∧ (start.behind past).Holds word lines)
    (.perform (sound possible) (fun found => ?_) (fun _ _ poll => poll.elim) ?_) fun found => ?_
  · exact ⟨fun _ _ moved h => ⟨h.1, (sound possible).stable moved h.2⟩,
      fun _ h => (sound possible).state h.2⟩
  · rintro past found _ h ⟨answered, rfl⟩
    rw [behind_concat]
    exact ⟨Eq.trans answered h.status_eq, h⟩
  · refine .of_fact fun eq => ?_
    subst eq
    refine .bind (.perform (sound possible) (fun _ => sound possible') (fun _ _ => possible') ?_)
      fun _ => .done (sound possible') fun _ h => h
    rintro past _ _ h ⟨-, rfl⟩
    rw [behind_concat]
    exact ⟨rfl, h.lines_eq⟩

end Steps

/-- Polls in reduced power leave status word and lines as they are. -/
theorem keeps_poll : (hardware gate start).Keeps (steadyGuard start status lines) Command.IsPoll
    fun past => (start.behind past).Holds (status.union CpuStatus.rp) lines where
  toSound := (keeps_ordinary (.inr rfl)).toSound
  access _ _ poll h := poll.isSteady h.status_eq
  responds := by
    rintro past command answer _ poll h ⟨-, rfl⟩
    rw [behind_concat]
    exact h.after_poll poll

end Timeline

/-! ### Waits -/

/-- A program that starts at full power and is steady all the way, and is back at full power when it
returns. -/
def Program.StaysSteady {α : Type} (gate : Controls → Prop) (start : Controls)
    (status lines : Flags) (program : Program α) : Prop :=
  (Timeline.hardware gate start).Ensures (Timeline.steadyGuard start status lines)
    (fun past => (start.behind past).Holds status lines) program
    fun _ past => (start.behind past).Holds status lines

section

open Timeline Controls

variable {α β : Type} {gate : Controls → Prop} {start : Controls} {status lines : Flags}

/-- What is ordinary is steady. -/
theorem Program.Accesses.staysSteady {program : Program α}
    (h : program.Accesses Command.IsOrdinary) : program.StaysSteady gate start status lines :=
  (keeps_ordinary (.inl rfl)).ensures h

namespace Program.StaysSteady

theorem done (value : α) : (Program.done value).StaysSteady gate start status lines :=
  Accesses.staysSteady (.done value)

theorem perform (command : Command) (ordinary : command.IsOrdinary) :
    (Program.perform command).StaysSteady gate start status lines :=
  Accesses.staysSteady (.perform command ordinary)

theorem bind {program : Program α} {f : α → Program β}
    (h : program.StaysSteady gate start status lines)
    (rest : ∀ value, (f value).StaysSteady gate start status lines) :
    (program >>= f).StaysSteady gate start status lines := Ensures.bind h rest

theorem ofExcept_bind {x : Except Fault α} {f : α → Program β}
    (rest : ∀ value, (f value).StaysSteady gate start status lines) :
    (Program.ofExcept x >>= f).StaysSteady gate start status lines :=
  (accesses_ofExcept x).staysSteady.bind rest

theorem forM {ι : Type} {f : ι → Program PUnit} (items : List ι)
    (h : ∀ item, (f item).StaysSteady gate start status lines) :
    (items.forM f).StaysSteady gate start status lines := by
  induction items with
  | nil => exact done ()
  | cons item rest ih => exact (h item).bind fun _ => ih

/-- A steady program that is finishable has an execution that returns: it never keeps the interrupt
away that it waits for. -/
theorem exists_execution {program : Program α} {result : α → Prop} (armed : CpuStatus.Armed status)
    (h : program.StaysSteady Interruptible start status lines)
    (finishable : program.Finishable result) {past : List Tick}
    (holds : (start.behind past).Holds status lines) : ∃ moments value now, result value ∧
      (hardware Interruptible start).Execution program past moments (.returned value) now := by
  have ensures : (hardware Interruptible start).Ensures (steadyGuard start status lines)
      (· = past) program fun _ past => (start.behind past).Holds status lines :=
    h.of_imp fun _ eq => eq ▸ holds
  exact ensures.exists_execution (liveWithin _ _).answers
    (fun _ _ _ steady wait => exists_end_of_wait (fun _ => interruptible_of_steady armed steady) wait)
    finishable

end Program.StaysSteady

theorem Cpu.staysSteady_cacheRange (operation : CacheOperation) (vaddr len line : UInt32) :
    (Cpu.cacheRange operation vaddr len line).StaysSteady gate start status lines :=
  ((Cpu.accesses_cacheRange operation vaddr len line).mono fun _ h =>
    h.isCache.isOrdinary).staysSteady

theorem Sp.staysSteady_start (descriptor : SpDescriptor) (direction : Direction) :
    (Sp.start descriptor direction).StaysSteady gate start status lines :=
  ((Sp.writes_start descriptor direction).mono fun _ h => h.isOrdinary nofun).staysSteady

theorem Video.staysSteady_swapBuffers (video : Video) :
    video.swapBuffers.StaysSteady gate start status lines :=
  (accesses_swapBuffers (fun _ h => h.isOrdinary) (fun _ => nofun) video).staysSteady

theorem Console.staysSteady_draw {ρ : Type} (function : DrawFunction ρ) (vaddr number : UInt32) :
    (Console.draw function vaddr number).StaysSteady gate start status lines :=
  (accesses_draw (fun _ => trivial) (fun _ _ => trivial) function vaddr number).staysSteady

variable (armed : CpuStatus.Armed status)

include armed

/-- **A wait** polls in reduced power, and is back at full power when it returns. -/
theorem Idle.staysSteady_spin {command : Command} {accepted : command.Answer → Bool}
    (poll : command.IsPoll) : (Idle.spin command accepted).StaysSteady gate start status lines := by
  have look : (Program.repeatUntil command accepted).Accesses Command.IsPoll :=
    .await poll fun answer => .done answer
  have reduced : (hardware gate start).Sound (steadyGuard start status lines)
      fun past => (start.behind past).Holds (status.union CpuStatus.rp) lines := keeps_poll.toSound
  have back := armed.union_without_power
  have enter : (hardware gate start).Ensures (steadyGuard start status lines)
      (fun past => (start.behind past).Holds status lines) Idle.enter
      fun _ past => (start.behind past).Holds (status.union CpuStatus.rp) lines :=
    Ensures.bind (ensures_modifyStatus (.inl rfl) (·.union CpuStatus.rp) (.inr rfl))
      fun _ => .done reduced fun _ h => h
  have leave : (hardware gate start).Ensures (steadyGuard start status lines)
      (fun past => (start.behind past).Holds (status.union CpuStatus.rp) lines) Idle.leave
      fun _ past => (start.behind past).Holds status lines := by
    refine Ensures.bind (ensures_modifyStatus (.inr rfl) (·.without CpuStatus.rp) (.inl back))
      fun _ => ?_
    rw [back]
    exact StaysSteady.done ()
  exact Ensures.bind enter fun _ => Ensures.bind (keeps_poll.ensures look) fun answer =>
    Ensures.bind leave fun _ => StaysSteady.done answer

theorem Sp.staysSteady_waitIdle : Sp.engine.waitIdle.StaysSteady gate start status lines :=
  (Idle.staysSteady_spin armed (by simp [Command.IsPoll, Sp.engine])).bind fun _ => .done _

theorem Sp.staysSteady_waitQueue (config : Config) :
    (Sp.engine.waitQueue config).StaysSteady gate start status lines := by
  unfold Engine.waitQueue
  split
  · refine (Idle.staysSteady_spin armed ?_).bind fun _ => .done _
    simp [Command.IsPoll]
  · exact (staysSteady_waitIdle armed).bind fun _ => .done _

theorem Pi.staysSteady_transfer (descriptor : PiDescriptor) (direction : Direction) :
    (Pi.transfer descriptor direction).StaysSteady gate start status lines := by
  have begins : (Pi.start descriptor direction).StaysSteady gate start status lines :=
    ((Pi.writes_start descriptor direction).mono fun _ h => h.isOrdinary nofun).staysSteady
  have waits : Pi.engine.waitIdle.StaysSteady gate start status lines :=
    (Idle.staysSteady_spin armed (by simp [Command.IsPoll, Pi.engine])).bind fun _ => .done _
  exact begins.bind fun _ => waits.bind fun _ => .done _

namespace Video

theorem staysSteady_setClearColor (video : Video) (color : Color) :
    (video.setClearColor color).StaysSteady gate start status lines := by
  refine (StaysSteady.perform (.fillStaging _ color) trivial).bind fun _ => ?_
  refine (Cpu.staysSteady_cacheRange _ _ _ _).bind fun _ => ?_
  refine (Sp.staysSteady_waitIdle armed).bind fun _ => .ofExcept_bind fun descriptor => ?_
  refine (Sp.staysSteady_start descriptor _).bind fun _ => ?_
  exact (Sp.staysSteady_waitIdle armed).bind fun _ => .done _

theorem staysSteady_clearTarget (config : Config) (video : Video) :
    (video.clearTarget config).StaysSteady gate start status lines := by
  refine (Cpu.staysSteady_cacheRange _ _ _ _).bind fun _ => ?_
  refine .bind (.forM _ fun chunk => ?_) fun _ =>
    (Sp.staysSteady_waitIdle armed).bind fun _ => .done _
  refine (Sp.staysSteady_waitQueue armed config).bind fun _ => .ofExcept_bind fun descriptor => ?_
  exact Sp.staysSteady_start descriptor _

end Video

theorem Console.staysSteady_frame {ρ : Type} (config : Config) (console : Console)
    (function : DrawFunction ρ) :
    (console.frame config function).StaysSteady gate start status lines := by
  refine (Video.staysSteady_clearTarget armed config _).bind fun _ => ?_
  refine (staysSteady_draw function _ _).bind fun result => ?_
  have waits : Video.vblankWait.StaysSteady gate start status lines :=
    (Idle.staysSteady_spin armed (show Command.getFence.IsPoll from trivial)).bind fun _ => .done _
  refine waits.bind fun _ => (Video.staysSteady_swapBuffers _).bind fun video => ?_
  exact (StaysSteady.perform (.setFence false) trivial).bind fun _ => .done _

end

/-! ### A console that is used -/

/-- One thing that is done with a booted console; a draw function may keep a state. -/
inductive Console.Activity (σ : Type) where
  /-- Show a frame. -/
  | frame (function : σ → DrawFunction σ)
  /-- Move bytes over the cartridge bus. -/
  | transfer (descriptor : PiDescriptor) (direction : Direction)
  /-- Fill the rendered framebuffer with the clear colour. -/
  | clear
  /-- Change the clear colour. -/
  | setColor (color : Color)
  /-- Show the rendered framebuffer. -/
  | swap

namespace Console

variable {σ : Type}

/-- The program of an activity. -/
def Activity.program (config : Config) :
    Activity σ → Console → σ → Program (Console × σ)
  | .frame function, console, state => console.frame config (function state)
  | .transfer descriptor direction, console, state => do
      let _ ← Pi.transfer descriptor direction
      return (console, state)
  | .clear, console, state => do
      console.video.clearTarget config
      return (console, state)
  | .setColor color, console, state => do
      console.video.setClearColor color
      return (console, state)
  | .swap, console, state => do
      let video ← console.video.swapBuffers
      return ({ console with video }, state)

/-- Activities, one behind the other. -/
def live (config : Config) : List (Activity σ) → Console → σ → Program (Console × σ)
  | [], console, state => return (console, state)
  | activity :: rest, console, state => do
      let (console, state) ← activity.program config console state
      live config rest console state

/-- Frames are a life of frames only. -/
theorem frames_eq_live (config : Config) (function : σ → DrawFunction σ) (count : Nat)
    (console : Console) (state : σ) :
    frames config function count console state =
      live config (.replicate count (.frame function)) console state := by
  induction count generalizing console state with
  | zero => rfl
  | succ count ih => exact bind_congr fun found => ih found.1 found.2

section

open Timeline Controls

variable {gate : Controls → Prop} {start : Controls} {status lines : Flags}
  (armed : CpuStatus.Armed status) (config : Config)

include armed

theorem staysSteady_activity (activity : Activity σ) (console : Console) (state : σ) :
    (activity.program config console state).StaysSteady gate start status lines := by
  cases activity with
  | frame function => exact staysSteady_frame armed config console (function state)
  | transfer descriptor direction =>
    exact (Pi.staysSteady_transfer armed descriptor direction).bind fun _ => .done _
  | clear => exact (Video.staysSteady_clearTarget armed config _).bind fun _ => .done _
  | setColor color => exact (Video.staysSteady_setClearColor armed _ color).bind fun _ => .done _
  | swap => exact (Video.staysSteady_swapBuffers _).bind fun _ => .done _

/-- **Whatever is done with a console** is steady. -/
theorem staysSteady_live (activities : List (Activity σ)) (console : Console) (state : σ) :
    (live config activities console state).StaysSteady gate start status lines := by
  induction activities generalizing console state with
  | nil => exact .done _
  | cons activity rest ih =>
    exact (staysSteady_activity armed config activity console state).bind fun found =>
      ih found.1 found.2

end

section

variable {memory : FrameMemory} (aligned : memory.Aligned)

/-- Nothing but the engine and the flag is waited for, and a draw function comes back. -/
def Activity.Returns : Activity σ → Prop
  | .frame function => ∀ state before number, ∃ drawing result,
      function state before number = .ok (drawing, result)
  | .transfer _ _ => False
  | .clear | .setColor _ | .swap => True

include aligned

theorem finishable_activity {config : Config} {activity : Activity σ} (returns : activity.Returns)
    {console : Console} (state : σ) (eq : console.video.memory = memory) :
    (activity.program config console state).Finishable fun result =>
      result.1.video.memory = memory := by
  subst eq
  cases activity with
  | frame function => exact finishable_frame aligned (returns state) rfl
  | transfer => exact returns.elim
  | clear =>
    refine .bind (Video.finishable_clearFramebuffer (aligned.frames _)) fun _ => ?_
    exact .done rfl
  | setColor color =>
    refine .bind (Video.finishable_setClearColor color aligned.staging) fun _ => ?_
    exact .done rfl
  | swap =>
    refine .bind Video.finishable_swapBuffers fun {video} eq => ?_
    subst eq
    exact .done rfl

theorem finishable_live {config : Config} {activities : List (Activity σ)}
    (returns : ∀ activity ∈ activities, activity.Returns) {console : Console} (state : σ)
    (eq : console.video.memory = memory) : (live config activities console state).Finishes := by
  induction activities generalizing console state with
  | nil => exact .done trivial
  | cons activity rest ih =>
    rw [List.forall_mem_cons] at returns
    refine (finishable_activity aligned returns.1 state eq).bind fun {found} eq => ?_
    exact ih returns.2 found.2 eq

end

/-! ### Behind the boot -/

section

open Timeline Controls

variable {config : Config} {memory : FrameMemory} {slot : VectorSlot} {entry : Trampoline}
  {color : Color} {start : Controls} {booting : List (Moment (List Tick))} {console : Console}
  {booted : List Tick}

/-- **Behind the boot** the status word is armed, and the video line is the only enabled one. -/
theorem controls_of_boot (boots : (Timeline.hardware Interruptible start).Execution
      (boot config memory slot entry color) [] booting (.returned console) booted) :
    CpuStatus.Armed (start.behind booted).status ∧
      (start.behind booted).lines.inter Lines.all = InterruptSource.vi.line := by
  rw [boot_eq] at boots
  obtain ⟨_, _, _, _, -, patching, boots⟩ := boots.of_bind
  obtain ⟨_, _, found, _, -, bringing, boots⟩ := boots.of_bind
  obtain ⟨_, _, _, _, -, arming, resting⟩ := boots.of_bind
  obtain ⟨-, -, resting⟩ := resting.of_done
  obtain ⟨_, _, -, -, -, masked⟩ := exists_of_patchVector patching
  obtain ⟨-, -, ready⟩ := leads_bringUpPicture config memory entry color masked bringing
  obtain ⟨_, _, -, -, -, -, kept⟩ := exists_of_arm (ready _ rfl) arming
  -- vertical blanks may come behind the last access
  obtain ⟨status, lines⟩ := (Timeline.keeps_notes _ _).stable.movesTo resting kept
  rw [status, lines]
  exact ⟨.of_union _, LineMask.apply_setting_clearing start.lines .vi⟩

end

end Console

/-! ### Masking interrupts for good -/

section

variable {α β : Type}

/-- A program that writes the status word only to mask interrupts for good: behind such a write
there is no further access, and the program does not return. -/
def Program.OnlyHalts (program : Program α) : Prop :=
  ∀ front status back ending, program.Runs (front ++ ⟨.setStatus status, ()⟩ :: back) ending →
    status.contains CpuStatus.ie = false ∧ back = [] ∧ (ending = .stopped .halted ∨ ending = .cut)

/-- An access that is not a write of the status word. -/
def Command.LeavesStatus (command : Command) : Prop := ∀ status, command ≠ .setStatus status

theorem Program.OnlyHalts.behind {program : Program α} {f : α → Program β}
    (h : program.Accesses Command.LeavesStatus) (rest : ∀ value, (f value).OnlyHalts) :
    (program >>= f).OnlyHalts := by
  intro front status back ending run
  have never {events : List Event} {early : Ending α} (run : program.Runs events early) :
      (⟨.setStatus status, ()⟩ : Event) ∉ events := fun member => h.of_runs run _ member status rfl
  rcases run.of_bind with ⟨early, run, -⟩ | ⟨first, second, value, run₁, run₂, split⟩
  · exact absurd (by simp) (never run)
  · -- the write is not one of the first part
    rcases List.append_eq_append_iff.1 split with ⟨more, rfl, eq⟩ | ⟨later, rfl, rfl⟩
    · cases more with
      | nil =>
        subst eq
        exact rest value [] status back ending run₂
      | cons event more =>
        obtain ⟨rfl, -⟩ := List.cons.inj eq
        exact absurd (by simp) (never run₁)
    · exact rest value later status back ending run₂

/-- What does not write the status word at all is no exception. -/
theorem Program.OnlyHalts.done (value : α) : (Program.done value).OnlyHalts := by
  rintro (- | ⟨event, front⟩) status back ending run <;> nomatch run

theorem Cpu.onlyHalts_halt : (Cpu.halt : Program α).OnlyHalts := by
  -- the word that was read is written back with interrupts masked, and that is the last access
  have ends (found : Flags) : (Program.step (.setStatus (found.without CpuStatus.ie)) fun _ =>
      .stop .halted : Program α).OnlyHalts := by
    have masks : (found.without CpuStatus.ie).contains CpuStatus.ie = false :=
      Flags.not_contains_of_without (found.without CpuStatus.ie) CpuStatus.ie 0 rfl (by decide)
        (by decide)
    rintro (- | ⟨event, front⟩) status back ending run
    · cases run with
      | step _ run =>
        cases run with
        | stop => exact ⟨masks, rfl, .inl rfl⟩
        | cut => exact ⟨masks, rfl, .inr rfl⟩
    · cases run with
      | step _ run => rcases front with - | ⟨event, front⟩ <;> nomatch run
  have whole : (Program.perform .getStatus >>= fun found =>
      Program.step (.setStatus (found.without CpuStatus.ie)) fun _ => .stop .halted :
        Program α).OnlyHalts := .behind (.perform _ nofun) ends
  exact whole

end

namespace Interrupt

/-- The service of an interrupt never lets the processor go on with interrupts masked. -/
theorem onlyHalts_handle : handle.OnlyHalts := by
  have look (register : Register) : (Program.read register).Accesses Command.LeavesStatus :=
    .perform _ nofun
  have serve : vblank.Accesses Command.LeavesStatus :=
    .step nofun fun _ => .step nofun fun _ => .done _
  have served (cause : Cause) : (dispatch cause).Accesses Command.LeavesStatus := by
    unfold dispatch
    split
    · exact .done _
    · refine .bind ((look _).bind fun _ => .done _) fun raised => ?_
      refine .bind ((look _).bind fun _ => .done _) fun enabled => ?_
      dsimp only
      split
      · exact serve.bind fun _ => .done _
      · exact .done _
  have cause : Cpu.cause.Accesses Command.LeavesStatus := .step nofun fun _ => .done _
  refine .behind cause fun cause => .behind (served cause) fun outcome => ?_
  cases outcome with
  | handled source => exact .done ()
  | unhandled cause pending => exact Cpu.onlyHalts_halt

end Interrupt

namespace Console

/-- Giving up masks interrupts behind everything else. -/
theorem onlyHalts_halt (config : Config) (console : Console) : (console.halt config).OnlyHalts := by
  have away {block : RegisterBlock} (command : Command) (h : command.WritesTo block) :
      command.LeavesStatus := by
    rintro status rfl
    exact h.elim
  refine .behind ((Beacon.writes_mark config .halt).mono away) fun _ => ?_
  exact .behind ((LogRecord.writes_emit _ _).mono away) fun _ => Cpu.onlyHalts_halt

/-! ### The whole life -/

section

open Timeline Controls

variable {config : Config} {memory : FrameMemory} {slot : VectorSlot} {entry : Trampoline}
  {color : Color} {start : Controls} {booting moments : List (Moment (List Tick))}
  {console : Console} {booted now : List Tick}

/-- What is known of an execution behind a boot that has left `status`. -/
structure Deliverable {α : Type} (start : Controls) (status : Flags)
    (moments : List (Moment (List Tick))) (ending : Ending α) (now : List Tick) : Prop where
  /-- The status word is only changed to this word, or to the same word in reduced power. -/
  written : ∀ moment ∈ moments, ∀ word, moment.event.command = .setStatus word →
    word = status ∨ word = status.union CpuStatus.rp
  /-- Every look at the vblank flag or at how far a DMA engine is comes in reduced power, and finds
  the interrupt let through. -/
  polls : ∀ moment ∈ moments, moment.event.command.IsPoll →
    (start.behind moment.state).status = status.union CpuStatus.rp
  /-- In the end the status word is as the boot has left it. -/
  back : ∀ result, ending = .returned result → (start.behind now).status = status

/-- **Interrupts stay deliverable**, whatever the controls are before the boot, whatever is done with
the console then, and whatever polls are answered. Since a life may end behind any of its activities,
the status word is the boot's between them too; and only where the processor halts is it ever
written without the interrupt enable. -/
theorem interrupts_stay_deliverable
    (boots : (Timeline.hardware Interruptible start).Execution (boot config memory slot entry color)
      [] booting (.returned console) booted)
    (activities : List (Activity σ)) (state : σ) {ending : Ending (Console × σ)}
    (life : (Timeline.hardware Interruptible start).Execution
      (live config activities console state) booted moments ending now) :
    CpuStatus.Armed (start.behind booted).status ∧
      CpuStatus.Listening ((start.behind booted).status.union CpuStatus.rp) ∧
      Deliverable start (start.behind booted).status moments ending now ∧
      Interrupt.handle.OnlyHalts ∧ ∀ later : Console, (later.halt config).OnlyHalts := by
  obtain ⟨armed, -⟩ := controls_of_boot boots
  have there : (start.behind booted).Holds (start.behind booted).status (start.behind booted).lines :=
    ⟨rfl, rfl⟩
  obtain ⟨steady, -, returned⟩ := staysSteady_live armed config activities console state there life
  refine ⟨armed, armed.union_power, ⟨?_, ?_, ?_⟩, Interrupt.onlyHalts_handle, onlyHalts_halt config⟩
  · exact fun moment member word eq => (steady moment member).written eq
  · exact fun moment member poll => (steady moment member).polls poll
  · exact fun result eq => (returned result eq).status_eq

/-- A console that the loader leaves with interrupts on, all lines let through and the flag up: its
colour is changed, a frame is shown, and another buffer of the new colour behind it. -/
theorem interrupts_stay_deliverable_recoloured : ∃ console booting booted result moments now,
    (Timeline.hardware Interruptible ⟨0x2000FF01, 0x3F, true⟩).Execution silentBoot [] booting
      (.returned console) booted ∧
    (Timeline.hardware Interruptible ⟨0x2000FF01, 0x3F, true⟩).Execution
      (live (.silent true) [.setColor ⟨0xF801⟩, .frame leaveClear, .clear, .swap] console ()) booted
      moments (.returned result) now ∧
    CpuStatus.Armed (Controls.behind ⟨0x2000FF01, 0x3F, true⟩ booted).status ∧
    Deliverable ⟨0x2000FF01, 0x3F, true⟩ (Controls.behind ⟨0x2000FF01, 0x3F, true⟩ booted).status
      moments (.returned result) now := by
  have aligned := FrameMemory.secondMegabyte_aligned
  obtain ⟨booting, console, booted, memory, boots⟩ :=
    (Timeline.liveWithin Interruptible ⟨0x2000FF01, 0x3F, true⟩).exists_execution
      finishable_silentBoot (accesses_boot _ _ _ _ _) []
  obtain ⟨armed, -⟩ := controls_of_boot boots
  have finishes : (live (.silent true) [.setColor ⟨0xF801⟩, .frame leaveClear, .clear, .swap]
      console ()).Finishes := by
    refine finishable_live aligned (fun activity member => ?_) () memory
    rcases List.mem_cons.1 member with rfl | member
    · trivial
    simp only [List.mem_cons, List.not_mem_nil, or_false] at member
    rcases member with rfl | rfl | rfl
    · exact fun _ _ _ => ⟨[], (), rfl⟩
    · trivial
    · trivial
  obtain ⟨moments, result, now, -, life⟩ := StaysSteady.exists_execution armed
    (staysSteady_live armed _ _ console ()) finishes ⟨rfl, rfl⟩
  obtain ⟨armed, -, deliverable, -⟩ := interrupts_stay_deliverable boots _ () life
  exact ⟨console, booting, booted, result, moments, now, boots, life, armed, deliverable⟩

end

end Console

end ColdBoot
