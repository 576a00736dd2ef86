import ColdBoot.Flags

/-! # The processor's status word

The control coprocessor's status register holds the interrupt enable bits and the switch to
**reduced power**. `CpuStatus` names the flags in use and the register they belong to. -/

namespace ColdBoot.CpuStatus

/-- Interrupts are taken. -/
def ie : Flags := 0x00000001

/-- An exception is being handled. -/
def exl : Flags := 0x00000002

/-- An error or a reset is being handled. -/
def erl : Flags := 0x00000004

/-- The interrupt line of the signal processor and its devices is let through. -/
def im2 : Flags := 0x00000400

/-- The pipeline runs at a quarter of its clock. -/
def rp : Flags := 0x08000000

/-- The flags of the status word. -/
def register : FlagRegister where
  name := "CpuStatus"
  flags :=
    [⟨"IE", ie⟩, ⟨"EXL", exl⟩, ⟨"ERL", erl⟩,
     ⟨"IM0", 0x00000100⟩, ⟨"IM1", 0x00000200⟩, ⟨"IM2", im2⟩, ⟨"IM3", 0x00000800⟩,
     ⟨"IM4", 0x00001000⟩, ⟨"IM5", 0x00002000⟩, ⟨"IM6", 0x00004000⟩, ⟨"IM7", 0x00008000⟩,
     ⟨"KX", 0x00000080⟩, ⟨"BEV", 0x00400000⟩, ⟨"RP", rp⟩, ⟨"FR", 0x04000000⟩,
     ⟨"CU0", 0x10000000⟩, ⟨"CU1", 0x20000000⟩]

end ColdBoot.CpuStatus
