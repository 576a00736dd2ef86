/-! # Faults

The ways a computation of the boot program can break off. All arithmetic on machine words is
*checked*: a result that does not fit its word is a fault and not a wrapped value, and so is a
division by zero. A transfer descriptor that breaks a **requirement** of its engine, a value too wide
for its bit field and a place outside an array are faults as well.

* **`Fault`** – the cause, with `Fault.message` its wording;
* **`Checked`** – checked arithmetic on 32-bit words and 64-bit sizes. -/

namespace ColdBoot

/-- What a transfer descriptor has to meet before its engine is touched. -/
inductive Requirement where
  /-- The RDRAM side of a cartridge or RSP transfer lies on a doubleword. -/
  | dramOnDoubleword
  /-- The bus side of a cartridge transfer lies on a halfword. -/
  | cartOnHalfword
  /-- A cartridge transfer moves a positive even number of bytes. -/
  | lengthPositiveEven
  /-- The RSP side of a transfer lies on a doubleword. -/
  | memOnDoubleword
  deriving DecidableEq, Repr

/-- The condition as the console's developers read it. -/
def Requirement.condition : Requirement → String
  | .dramOnDoubleword => "descriptor.dram.is_aligned(8)"
  | .cartOnHalfword => "descriptor.cart.is_aligned(2)"
  | .lengthPositiveEven => "descriptor.len != 0 && descriptor.len % 2 == 0"
  | .memOnDoubleword => "descriptor.mem % 8 == 0"

/-- Why a computation broke off. -/
inductive Fault where
  /-- A sum that its word cannot hold. -/
  | addOverflow
  /-- A difference below zero. -/
  | subtractOverflow
  /-- A product that its word cannot hold. -/
  | multiplyOverflow
  /-- An opposite number that its word cannot hold. -/
  | negateOverflow
  /-- A quotient by zero. -/
  | divideByZero
  /-- A remainder by zero. -/
  | remainderByZero
  /-- A value wider than the bit field that was to hold it. -/
  | fieldOverflow
  /-- A place past the end of an array. -/
  | indexOutside (length index : Nat)
  /-- A stretch of an array that ends past its end. -/
  | stretchOutside (length stop : Nat)
  /-- A stretch of an array that ends before it starts. -/
  | stretchReversed (start stop : Nat)
  /-- A descriptor that breaks a requirement of its engine. -/
  | violated (requirement : Requirement)
  deriving DecidableEq, Repr

/-- The wording of a fault. -/
def Fault.message : Fault → String
  | .addOverflow => "attempt to add with overflow"
  | .subtractOverflow => "attempt to subtract with overflow"
  | .multiplyOverflow => "attempt to multiply with overflow"
  | .negateOverflow => "attempt to negate with overflow"
  | .divideByZero => "attempt to divide by zero"
  | .remainderByZero => "attempt to calculate the remainder with a divisor of zero"
  | .fieldOverflow => "value does not fit into bit range"
  | .indexOutside length index => "index out of bounds: the len is " ++ toString length ++
      " but the index is " ++ toString index
  | .stretchOutside length stop => "range end index " ++ toString stop ++
      " out of range for slice of length " ++ toString length
  | .stretchReversed start stop => "slice index starts at " ++ toString start ++
      " but ends at " ++ toString stop
  | .violated requirement => "assertion failed: " ++ requirement.condition

/-- Insist on a requirement. -/
def Requirement.check (requirement : Requirement) (holds : Bool) : Except Fault Unit :=
  if holds then .ok () else .error (.violated requirement)

@[simp] theorem Requirement.check_true (requirement : Requirement) :
    requirement.check true = .ok () := rfl

@[simp] theorem Requirement.check_false (requirement : Requirement) :
    requirement.check false = .error (.violated requirement) := rfl

namespace Checked

/-! ### Words -/

/-- The greatest word. -/
def greatest : Nat := 0xFFFFFFFF

/-- The difference of two words, unless it is negative. -/
def sub (a b : UInt32) : Except Fault UInt32 :=
  if b ≤ a then .ok (a - b) else .error .subtractOverflow

/-- The product of two words, unless it needs more than 32 bits. -/
def mul (a b : UInt32) : Except Fault UInt32 :=
  if a.toNat * b.toNat ≤ greatest then .ok (a * b) else .error .multiplyOverflow

/-- The word after `a`, unless `a` is the last one. -/
def succ (a : UInt32) : Except Fault UInt32 :=
  if a.toNat + 1 ≤ greatest then .ok (a + 1) else .error .addOverflow

/-- The quotient of two words, rounded down. -/
def div (a b : UInt32) : Except Fault UInt32 :=
  if b = 0 then .error .divideByZero else .ok (a / b)

/-- The remainder of two words. -/
def rem (a b : UInt32) : Except Fault UInt32 :=
  if b = 0 then .error .remainderByZero else .ok (a % b)

/-! ### Sizes -/

/-- The difference of two sizes, unless it is negative. -/
def subSize (a b : UInt64) : Except Fault UInt64 :=
  if b ≤ a then .ok (a - b) else .error .subtractOverflow

/-- The sum of two sizes, unless it needs more than 64 bits. -/
def addSize (a b : UInt64) : Except Fault UInt64 :=
  if a.toNat + b.toNat < UInt64.size then .ok (a + b) else .error .addOverflow

/-- The product of two sizes, unless it needs more than 64 bits. -/
def mulSize (a b : UInt64) : Except Fault UInt64 :=
  if a.toNat * b.toNat < UInt64.size then .ok (a * b) else .error .multiplyOverflow

/-- The opposite of a signed size, unless it is the least one. -/
def negSize (a : Int64) : Except Fault Int64 :=
  if a = Int64.minValue then .error .negateOverflow else .ok (-a)

/-- The quotient of two sizes, rounded up. -/
def ceilDivSize (a b : UInt64) : Except Fault UInt64 :=
  if b = 0 then .error .divideByZero
  else .ok (if a % b = 0 then a / b else a / b + 1)

end Checked

end ColdBoot
