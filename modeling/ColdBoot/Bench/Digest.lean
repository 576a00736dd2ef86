/-! # Digests

Long outputs are compared by their digest: the 64-bit FNV-1a hash, which takes in one byte after
another by exclusive or and multiplies by a prime each time. -/

namespace ColdBoot.Digest

/-- Digest of nothing. -/
def start : UInt64 := 0xcbf29ce484222325

/-- Take in one byte. -/
@[inline] def byte (digest : UInt64) (value : UInt8) : UInt64 :=
  (digest ^^^ value.toUInt64) * 0x100000001b3

/-- Take in a halfword, high byte first. -/
@[inline] def halfword (digest : UInt64) (value : UInt16) : UInt64 :=
  byte (byte digest (value >>> 8).toUInt8) value.toUInt8

/-- Take in the bytes from index `i` on. -/
def bytesFrom (bytes : ByteArray) (i : Nat) (digest : UInt64) : UInt64 :=
  if h : i < bytes.size then bytesFrom bytes (i + 1) (byte digest bytes[i]) else digest
termination_by bytes.size - i

/-- Take in the halfwords from index `i` on. -/
def halfwordsFrom (values : Array UInt16) (i : Nat) (digest : UInt64) : UInt64 :=
  if h : i < values.size then halfwordsFrom values (i + 1) (halfword digest values[i]) else digest
termination_by values.size - i

/-- Digest of a text. -/
def ofText (text : String) : UInt64 := bytesFrom text.toUTF8 0 start

/-- Digest of halfwords, the high byte of each first. -/
def ofHalfwords (values : Array UInt16) : UInt64 := halfwordsFrom values 0 start

end ColdBoot.Digest
