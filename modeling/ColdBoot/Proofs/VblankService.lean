import ColdBoot.Proofs.PromptBoard

/-! # The service of the vertical blank

The handler looks for the lowest line that is enabled and pending, serves it if it is the video
interface's, and halts otherwise; so any other line that is enabled may stop the machine. Behind the
boot none is, and nothing that is done with the console later changes that.

* **`Chassis.asking_serviced`** – behind its service a vertical blank does not ask again;
* **`Console.only_vblank_served`** – the end of every exception on the device line of a booted
  console. -/

namespace ColdBoot

open Hardware Controls

variable {δ σ : Type} {devices : Devices δ}

namespace Chassis

variable {s : Chassis δ} (only : s.controls.lines.inter Lines.all = InterruptSource.vi.line)

include only

/-- A vertical blank that is served does not ask for service again. -/
theorem asking_serviced : s.serviced.asking = 0 :=
  asking_of_not_contains (s := s.serviced) only
    (Flags.not_contains_of_without (s.pending.without InterruptSource.vi.line)
      InterruptSource.vi.line 0 rfl (by decide) (by decide))

variable (devices) (interrupt : s.cause.isInterrupt = true)
  (device : s.cause.deviceLineRaised = true)

include interrupt device

/-- With the video line pending the vertical blank is served. -/
theorem serves_of_contains (raised : s.pending.contains InterruptSource.vi.line = true) :
    (still devices).Comes (Interrupt.dispatch s.cause) s (.returned (.handled .vi)) s.serviced ∧
      (still devices).Comes Interrupt.handle s (.returned ()) s.serviced := by
  have handled : (still devices).Follows (Interrupt.dispatch s.cause) s _ _ s.serviced :=
    follows_handled interrupt device (first_of_contains only raised)
  exact ⟨handled.comes, (follows_handle_of_handled handled).comes⟩

/-- Without it nothing is served. -/
theorem halts_of_not_contains (lowered : s.pending.contains InterruptSource.vi.line = false) :
    (still devices).Comes (Interrupt.dispatch s.cause) s (.returned (.unhandled s.cause 0)) s ∧
      ∃ halted, (still devices).Comes Interrupt.handle s (.stopped .halted) halted := by
  have quiet := asking_of_not_contains only lowered
  have other : InterruptSource.first? s.asking ≠ some .vi := by
    rw [quiet]
    decide
  have unhandled : (still devices).Follows (Interrupt.dispatch s.cause) s s.looks
      (.returned (.unhandled s.cause s.asking)) s := follows_unhandled interrupt device other
  rw [quiet] at unhandled
  exact ⟨unhandled.comes, _, (follows_handle_of_unhandled unhandled).comes⟩

end Chassis

namespace Console

variable {config : Config} {memory : FrameMemory} {slot : VectorSlot} {entry : Trampoline}
  {color : Color} {console : Console} {s booted now : Chassis δ}
  {booting moments : List (Moment (Chassis δ))}

/-- Whatever a booted console does, the video line stays the only one that is enabled. -/
theorem only_of_life {activities : List (Activity σ)} {state : σ} {ending : Ending (Console × σ)}
    (boots : (Chassis.hardware devices Interruptible).Execution (boot config memory slot entry color)
      s booting (.returned console) booted)
    (life : (Chassis.hardware devices Interruptible).Execution (live config activities console state)
      booted moments ending now) :
    now.controls.lines.inter Lines.all = InterruptSource.vi.line := by
  obtain ⟨armed, only⟩ := Chassis.armed_of_boot boots
  exact (Chassis.listens_of_steady armed only
    (staysSteady_live armed config activities console state) life).only

/-- **Only the vertical blank is served.** Boot a console on a machine with any controls and any
devices, do anything with it, and let an interrupt on the device line come at any moment, with any
word of pending lines. If the video line is among them, whatever else is pending, the vertical blank
is served and the handler returns: the flag is up then, and no enabled line is pending any more. If
it is not, nothing is served, and the handler halts. -/
theorem only_vblank_served (activities : List (Activity σ)) (state : σ)
    {ending : Ending (Console × σ)}
    (boots : (Chassis.hardware devices Interruptible).Execution (boot config memory slot entry color)
      s booting (.returned console) booted)
    (life : (Chassis.hardware devices Interruptible).Execution (live config activities console state)
      booted moments ending now)
    (cause : Cause) (pending : Flags) (interrupt : cause.isInterrupt = true)
    (device : cause.deviceLineRaised = true) :
    (pending.contains InterruptSource.vi.line = true →
      (Chassis.still devices).Comes (Interrupt.dispatch cause) (now.raise cause pending)
        (.returned (.handled .vi)) (now.raise cause pending).serviced ∧
      (Chassis.still devices).Comes Interrupt.handle (now.raise cause pending) (.returned ())
        (now.raise cause pending).serviced ∧
      (now.raise cause pending).serviced.controls.flag = true ∧
      (now.raise cause pending).serviced.asking = 0) ∧
    (pending.contains InterruptSource.vi.line = false →
      (Chassis.still devices).Comes (Interrupt.dispatch cause) (now.raise cause pending)
        (.returned (.unhandled cause 0)) (now.raise cause pending) ∧
      ∃ halted, (Chassis.still devices).Comes Interrupt.handle (now.raise cause pending)
        (.stopped .halted) halted) := by
  have only := only_of_life boots life
  have only : (now.raise cause pending).controls.lines.inter Lines.all = InterruptSource.vi.line :=
    only
  refine ⟨fun raised => ?_, fun lowered => ?_⟩
  · obtain ⟨handled, returned⟩ := Chassis.serves_of_contains devices only interrupt device raised
    exact ⟨handled, returned, rfl, Chassis.asking_serviced only⟩
  · obtain ⟨unhandled, halted⟩ :=
      Chassis.halts_of_not_contains devices only interrupt device lowered
    exact ⟨unhandled, halted⟩

/-- What a loader leaves with interrupts on, all lines let through and the flag up, on a machine all
of whose lines are pending. -/
def crowded : Chassis PromptBoard where
  controls := ⟨0x2000FF01, 0x3F, true⟩
  pending := 0xFFFFFFFF
  cause := ⟨0⟩
  devices := .blank

theorem exists_boot_crowded : ∃ booting console booted,
    (Chassis.hardware PromptBoard.respond Interruptible).Execution silentBoot crowded booting
      (.returned console) booted ∧
    console.video.memory = .secondMegabyte ∧ CpuStatus.Armed booted.controls.status ∧
    booted.controls.lines.inter Lines.all = InterruptSource.vi.line := by
  have live := Chassis.liveWithin PromptBoard.respond_idle Interruptible
  obtain ⟨booting, console, booted, memory, boots⟩ :=
    live.exists_execution finishable_silentBoot (accesses_boot _ _ _ _ _) crowded
  obtain ⟨armed, only⟩ := Chassis.armed_of_boot boots
  exact ⟨booting, console, booted, boots, memory, armed, only⟩

/-- Behind a frame of a new colour an interrupt comes with every line pending and every reserved bit
set, and one with all but the video line. -/
theorem only_vblank_served_crowded : ∃ console booting booted result moments now,
    (Chassis.hardware PromptBoard.respond Interruptible).Execution silentBoot crowded booting
      (.returned console) booted ∧
    (Chassis.hardware PromptBoard.respond Interruptible).Execution
      (live (.silent true) [.setColor ⟨0xF801⟩, .frame leaveClear] console ()) booted moments
      (.returned result) now ∧
    (Chassis.still PromptBoard.respond).Comes Interrupt.handle
      (now.raise Chassis.deviceInterrupt 0xFFFFFFFF) (.returned ())
      (now.raise Chassis.deviceInterrupt 0xFFFFFFFF).serviced ∧
    (now.raise Chassis.deviceInterrupt 0xFFFFFFFF).serviced.asking = 0 ∧
    ∃ halted, (Chassis.still PromptBoard.respond).Comes Interrupt.handle
      (now.raise Chassis.deviceInterrupt 0xFFFFFFF7) (.stopped .halted) halted := by
  obtain ⟨booting, console, booted, boots, memory, armed, only⟩ := exists_boot_crowded
  have returns : ∀ activity ∈ [Activity.setColor ⟨0xF801⟩, .frame leaveClear], activity.Returns := by
    intro activity member
    rcases List.mem_cons.1 member with rfl | member
    · trivial
    · rw [List.mem_singleton.1 member]
      exact fun _ _ _ => ⟨[], (), rfl⟩
  obtain ⟨moments, result, now, -, life⟩ := Chassis.exists_execution PromptBoard.respond_idle armed
    only (staysSteady_live armed (.silent true) _ console ())
    (finishable_live FrameMemory.secondMegabyte_aligned returns () memory)
  have interrupt : Chassis.deviceInterrupt.isInterrupt = true := by decide
  have device : Chassis.deviceInterrupt.deviceLineRaised = true := by decide
  have ends (pending : Flags) :=
    only_vblank_served _ () boots life Chassis.deviceInterrupt pending interrupt device
  obtain ⟨-, returned, -, quiet⟩ := (ends 0xFFFFFFFF).1 (by decide)
  obtain ⟨-, halted⟩ := (ends 0xFFFFFFF7).2 (by decide)
  exact ⟨console, booting, booted, result, moments, now, boots, life, returned, quiet, halted⟩

end Console

end ColdBoot
