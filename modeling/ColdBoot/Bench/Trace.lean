import ColdBoot.Command
import ColdBoot.Bench.Digest

/-! # Traces

A bench writes down everything a program does to it. A **`Trace`** is that record in folded form: a
register read again with the same value, and cache lines visited one behind the other, count as one
**`TraceRun`**; every other event is a run of its own. -/

namespace ColdBoot

/-- One thing that happened on the bench. -/
inductive TraceEvent where
  /-- The status word was written. -/
  | status (word : Flags)
  /-- A cache instruction was executed. -/
  | cache (operation : CacheOperation) (vaddr : UInt32)
  /-- A register was read, with this value. -/
  | read (register : Register) (value : UInt32)
  /-- A register was written, with this value. -/
  | write (register : Register) (value : UInt32)
  /-- A doubleword was stored, from this word of low RDRAM on. -/
  | doubleword (register : Register) (word : UInt64)
  /-- An exception was taken, with this cause and these pending lines. -/
  | exception (cause pending : UInt32)
  /-- A transfer was started although the queue slot was occupied. -/
  | overrun
  /-- The log window showed a line. -/
  | line (text : String)
  deriving DecidableEq, Repr

namespace CacheOperation

/-- Letter of an operation in a trace. -/
def letter : CacheOperation → String
  | .invalidateInstruction => "I"
  | .writeBackData => "B"
  | .invalidateData => "V"

/-- Distance of lines that follow one another. -/
def stride : CacheOperation → UInt32
  | .invalidateInstruction => 32
  | _ => 16

end CacheOperation

namespace TraceEvent

/-- An event as one line of text. -/
def text : TraceEvent → String
  | .status word => "S:" ++ Numeral.hex 8 word.toNat
  | .cache operation vaddr => operation.letter ++ ":" ++ Numeral.hex 8 vaddr.toNat
  | .read register value => "R:" ++ register.name ++ "=" ++ Numeral.hex 8 value.toNat
  | .write register value => "W:" ++ register.name ++ "=" ++ Numeral.hex 8 value.toNat
  | .doubleword register word => "W:" ++ register.name ++ "=" ++ Numeral.hex 16 word.toNat
  | .exception cause pending =>
      "E:" ++ Numeral.hex 8 cause.toNat ++ "," ++ Numeral.hex 2 pending.toNat
  | .overrun => "O:overrun"
  | .line text => "L:" ++ text

/-- Event `n` of a run that starts with this one, unless such events stand alone. -/
def successor? (event : TraceEvent) (n : Nat) : Option TraceEvent :=
  match event with
  | .read register value => some (.read register value)
  | .cache operation vaddr =>
      some (.cache operation (vaddr + operation.stride * UInt32.ofNat n))
  | _ => none

end TraceEvent

/-- Events folded into the first one and their number. -/
structure TraceRun where
  first : TraceEvent
  count : Nat
  deriving DecidableEq, Repr

namespace TraceRun

/-- A run as one line of text. -/
def text (run : TraceRun) : String :=
  if run.count ≤ 1 then run.first.text else run.first.text ++ "*" ++ toString run.count

/-- The event goes on with the run. -/
def continuedBy (run : TraceRun) (event : TraceEvent) : Bool :=
  run.first.successor? run.count = some event

end TraceRun

/-- What happened on a bench, in order and folded. -/
structure Trace where
  runs : Array TraceRun
  deriving DecidableEq, Repr

namespace Trace

/-- Nothing happened. -/
def empty : Trace := ⟨#[]⟩

/-- Events folded into the last run. -/
def lastCount (trace : Trace) : Nat := (trace.runs.back?.map (·.count)).getD 0

/-- Write down one more event. -/
def record (trace : Trace) (event : TraceEvent) : Trace :=
  match trace.runs.back? with
  | some run =>
      if run.continuedBy event then
        ⟨trace.runs.modify (trace.runs.size - 1) fun run => { run with count := run.count + 1 }⟩
      else ⟨trace.runs.push ⟨event, 1⟩⟩
  | none => ⟨trace.runs.push ⟨event, 1⟩⟩

/-- The trace as lines of text. -/
def texts (trace : Trace) : List String := trace.runs.toList.map TraceRun.text

/-- What the log window showed, as lines of text. -/
def lineTexts (trace : Trace) : List String :=
  (trace.runs.toList.filter fun run => run.first matches .line _).map TraceRun.text

/-- Digest of the lines, joined by line feeds. -/
def digest (trace : Trace) : UInt64 := Digest.ofText ("\n".intercalate trace.texts)

end Trace

end ColdBoot
