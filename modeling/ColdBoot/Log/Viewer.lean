import ColdBoot.Program

/-! # The log window

A development cartridge shows text on its host: bytes go into a buffer, four to a word with the
first one on top, and writing their number to the length register prints them. The buffer holds 512
bytes, so longer texts are printed in pieces. Without such a cartridge the writes are dropped. -/

namespace ColdBoot.Viewer

/-- Bytes in the buffer. -/
def chunkSize : Nat := 512

/-- A list cut into pieces of `size + 1` elements, the last one possibly shorter. -/
def pieces {α : Type} (size : Nat) (items : List α) : List (List α) :=
  match items with
  | [] => []
  | first :: rest => (first :: rest.take size) :: pieces size (rest.drop size)
termination_by items.length
decreasing_by simp only [List.length_drop, List.length_cons]; omega

/-- Up to four bytes as a word, the first one on top and missing ones zero. -/
def packWord (bytes : List UInt8) : UInt32 :=
  let byte (i : Nat) : UInt32 := (bytes.getD i 0).toUInt32
  (byte 0 <<< 24) ||| (byte 1 <<< 16) ||| (byte 2 <<< 8) ||| byte 3

/-- Write words to the buffer from `slot` on. -/
def fill : Nat → List (List UInt8) → Program Unit
  | _, [] => .done ()
  | slot, word :: rest => do
      Program.write (ViewerRegister.buffer slot) (packWord word)
      fill (slot + 1) rest

/-- Print one bufferful of bytes. -/
def flush (bytes : List UInt8) : Program Unit := do
  fill 0 (pieces 3 bytes)
  Program.write ViewerRegister.length (UInt32.ofNat bytes.length)

/-- Print bytes, a bufferful at a time. -/
def put (bytes : List UInt8) : Program Unit := (pieces (chunkSize - 1) bytes).forM flush

/-- Print a text. -/
def write (text : String) : Program Unit := put text.toUTF8.toList

end ColdBoot.Viewer
