import ColdBoot.Interrupt.Trampoline

/-! # Direct jumps

What a processor makes of the words that a trampoline leaves at the vector. It fetches the
doubleword's high half first; a jump goes on, after the instruction in its delay slot, at the 26 bits
it holds, shifted to whole words, in the 256 MB of that slot. -/

namespace ColdBoot

/-- An instruction, as far as a trampoline needs them. -/
inductive Instruction where
  /-- Jump within 256 MB; `field` are 26 bits. -/
  | jump (field : UInt32)
  /-- Do nothing. -/
  | nothing
  deriving DecidableEq, Repr

namespace Instruction

/-- Operation code of a jump. -/
def jumpCode : UInt32 := 2

/-- The instruction a word stands for, if it is one of these. -/
def decode? (word : UInt32) : Option Instruction :=
  if word >>> 26 = jumpCode then some (.jump (word &&& 0x03FFFFFF))
  else if word = 0 then some .nothing
  else none

/-- The bits of an address that a jump keeps. -/
def regionMask : UInt32 := 0xF0000000

/-- Where a jump leads whose delay slot is at `slot`. -/
def destination (slot field : UInt32) : UInt32 := (slot &&& regionMask) ||| (field <<< 2)

end Instruction

namespace Trampoline

/-- The word fetched `offset` bytes behind the start of a vector that was patched. -/
def fetched (trampoline : Trampoline) (offset : UInt32) : UInt32 :=
  if offset < 4 then (trampoline.word >>> 32).toUInt32 else trampoline.word.toUInt32

/-- Where a processor goes on that enters a vector at `place`: the trampoline has to be a jump with
an empty delay slot. -/
def leadsTo? (trampoline : Trampoline) (place : UInt32) : Option UInt32 :=
  match Instruction.decode? (trampoline.fetched 0), Instruction.decode? (trampoline.fetched 4) with
  | some (.jump field), some .nothing => some (Instruction.destination (place + 4) field)
  | _, _ => none

end Trampoline

end ColdBoot
