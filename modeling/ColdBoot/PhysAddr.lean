import ColdBoot.Fault
import ColdBoot.Numeral

/-! # Physical addresses

The processor sees the 512 MB of physical space through two fixed windows: a **cached** one for
code and data, and an **uncached** one for registers. The DMA engines and the video interface take
physical addresses only, so the window is stripped before an address is handed to them. -/

namespace ColdBoot

/-- Base of the cached window. -/
def cachedWindow : UInt32 := 0x80000000

/-- Base of the uncached window. -/
def uncachedWindow : UInt32 := 0xA0000000

/-- The bits of an address inside a window. -/
def physicalMask : UInt32 := 0x1FFFFFFF

/-- Whether an address lies in the uncached window. -/
def inUncachedWindow (address : UInt32) : Bool := address &&& ~~~physicalMask = uncachedWindow

/-- A 29-bit physical address. -/
structure PhysAddr where
  word : UInt32
  word_lt : word.toNat < 0x20000000
  deriving DecidableEq

namespace PhysAddr

theorem toNat_and_physicalMask (address : UInt32) :
    (address &&& physicalMask).toNat = address.toNat % 0x20000000 := by
  rw [UInt32.toNat_and]
  exact Nat.and_two_pow_sub_one_eq_mod address.toNat 29

theorem toNat_and_physicalMask_lt (address : UInt32) :
    (address &&& physicalMask).toNat < 0x20000000 := by
  rw [toNat_and_physicalMask]
  exact Nat.mod_lt _ (by decide)

/-- Strip the window from an address. -/
def ofAddress (address : UInt32) : PhysAddr :=
  ⟨address &&& physicalMask, toNat_and_physicalMask_lt address⟩

/-- The physical address behind a 64-bit pointer: only the low word counts. -/
def ofPointer (pointer : UInt64) : PhysAddr := ofAddress pointer.toUInt32

/-- The alias in the cached window. -/
def cached (p : PhysAddr) : UInt32 := cachedWindow ||| p.word

/-- The alias in the uncached window. -/
def uncached (p : PhysAddr) : UInt32 := uncachedWindow ||| p.word

/-- The address `bytes` further on, going round at the end of physical space. -/
def offset (p : PhysAddr) (bytes : UInt32) : PhysAddr := ofAddress (p.word + bytes)

/-- Whether the address is a multiple of `align`. -/
def isAligned (p : PhysAddr) (align : UInt32) : Except Fault Bool := do
  return (← Checked.rem p.word align) = 0

/-- Physical addresses are ordered as numbers. -/
def compare (p q : PhysAddr) : Ordering := Ord.compare p.word q.word

/-- Readable form. -/
def describe (p : PhysAddr) : String := "PhysAddr(" ++ Numeral.hexPrefixed 8 p.word.toNat ++ ")"

@[simp] theorem ofAddress_word (address : UInt32) :
    (ofAddress address).word = address &&& physicalMask := rfl

theorem toNat_ofAddress (address : UInt32) :
    (ofAddress address).word.toNat = address.toNat % 0x20000000 :=
  toNat_and_physicalMask address

end PhysAddr

end ColdBoot
