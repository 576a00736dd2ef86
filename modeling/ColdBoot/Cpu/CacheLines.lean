import ColdBoot.Fault

/-! # Walking over cache lines

A cache instruction acts on one line, so an operation on a range of addresses visits the lines of
the range one after another. A **`CacheLines`** is such a walk: visit `n` finds the line `n` steps
after the first one, and the walk is over at the first line that starts at or behind the end of the
range, both counted from the first line and modulo 2³².

The step from one line to the next is checked, so a walk that comes too close to the end of the
address space ends in a fault. -/

namespace ColdBoot

/-- Bytes in a line of the data cache. -/
def dataCacheLine : UInt32 := 16

/-- Bytes in a line of the instruction cache. -/
def instructionCacheLine : UInt32 := 32

/-- A walk over the cache lines of a range. -/
structure CacheLines where
  /-- Start of the line that holds the range's first byte. -/
  first : UInt32
  /-- Bytes from `first` to the end of the range, modulo 2³². -/
  span : UInt32
  /-- The range holds no byte. -/
  isEmpty : Bool
  /-- Bytes in a line. -/
  line : UInt32
  deriving DecidableEq, Repr

namespace CacheLines

/-- The walk over `[vaddr, vaddr + len)` in lines of `line` bytes. -/
def ofRange (vaddr len line : UInt32) : Except Fault CacheLines := do
  let low ← Checked.sub line 1
  let first := vaddr &&& ~~~low
  return { first, span := vaddr + len - first, isEmpty := len = 0, line }

/-- Visit `n` of the walk: a line's address, or `none` when the walk is over. -/
def visit (walk : CacheLines) (n : UInt32) : Except Fault (Option UInt32) := do
  let _ ← Checked.succ n
  let distance ← Checked.mul n walk.line
  return if walk.isEmpty || walk.span ≤ distance then none else some (walk.first + distance)

/-- No walk has more visits than this: the count itself is a word. -/
def maxVisits : Nat := UInt32.size

/-- How a walk ended. -/
inductive Ending where
  /-- It came to the end of its range. -/
  | finished
  /-- It was stopped after as many lines as were asked for. -/
  | limited
  /-- It broke off. -/
  | faulted (fault : Fault)
  deriving DecidableEq, Repr

/-- The lines of at most `left` visits from visit `n` on, behind those already `seen`. -/
def collect (walk : CacheLines) : Nat → UInt32 → Array UInt32 → Array UInt32 × Ending
  | 0, _, seen => (seen, .limited)
  | left + 1, n, seen =>
      match walk.visit n with
      | .error fault => (seen, .faulted fault)
      | .ok none => (seen, .finished)
      | .ok (some address) => walk.collect left (n + 1) (seen.push address)

/-- The first `limit` lines of the walk, and how it ended. -/
def take (walk : CacheLines) (limit : Nat) : Array UInt32 × Ending := walk.collect limit 0 #[]

/-- The number of lines of a walk that finishes. -/
def count (walk : CacheLines) : Except Fault Nat :=
  match walk.take maxVisits with
  | (_, .faulted fault) => .error fault
  | (seen, _) => .ok seen.size

end CacheLines

end ColdBoot
