/-! # Log levels

Records are graded from errors to traces. A **`LogFilter`** lets the records of one grade and of
every more severe one through, or none at all. -/

namespace ColdBoot

/-- How severe a record is. -/
inductive LogLevel where
  | error
  | warn
  | info
  | debug
  | trace
  deriving DecidableEq, Repr

namespace LogLevel

/-- Every level, most severe first. -/
def all : List LogLevel := [.error, .warn, .info, .debug, .trace]

/-- Distance from silence. -/
def rank : LogLevel → Nat
  | .error => 1
  | .warn => 2
  | .info => 3
  | .debug => 4
  | .trace => 5

/-- Name, as a log line shows it. -/
def name : LogLevel → String
  | .error => "ERROR"
  | .warn => "WARN"
  | .info => "INFO"
  | .debug => "DEBUG"
  | .trace => "TRACE"

end LogLevel

/-- The least severe level let through, or `none` for silence. -/
structure LogFilter where
  threshold : Option LogLevel
  deriving DecidableEq, Repr

namespace LogFilter

/-- Nothing gets through. -/
def off : LogFilter := ⟨none⟩

/-- Records of `level` get through. -/
def admits (filter : LogFilter) (level : LogLevel) : Bool :=
  match filter.threshold with
  | none => false
  | some threshold => level.rank ≤ threshold.rank

end LogFilter

end ColdBoot
