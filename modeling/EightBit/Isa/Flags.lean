/-
  EightBit.Isa.Flags
  ──────────────────
  **THE STATUS FLAGS.**

  Four flags and their place in the status byte.

  Main result:
    • `ofByte_toByte` — the status byte keeps every flag.
-/
import EightBit.Byte

namespace EightBit

/-- The status register. -/
structure Flags where
  zero : Bool
  overflow : Bool
  sign : Bool
  interrupt : Bool
  deriving DecidableEq, Repr

namespace Flags

def clear : Flags := ⟨false, false, false, false⟩

def zeroBit : Byte := 0x02

def overflowBit : Byte := 0x04

def signBit : Byte := 0x08

def interruptBit : Byte := 0x10

/-- The status byte: the bits of the flags that are set. -/
def toByte (f : Flags) : Byte :=
  bit f.zero zeroBit ||| bit f.overflow overflowBit ||| bit f.sign signBit
    ||| bit f.interrupt interruptBit
where
  bit (set : Bool) (mask : Byte) : Byte := if set then mask else 0

/-- The flags whose bits are set in the byte; other bits mean nothing. -/
def ofByte (b : Byte) : Flags where
  zero := b &&& zeroBit != 0
  overflow := b &&& overflowBit != 0
  sign := b &&& signBit != 0
  interrupt := b &&& interruptBit != 0

/-- The status byte keeps every flag. -/
@[simp] theorem ofByte_toByte (f : Flags) : ofByte f.toByte = f := by
  rcases f with ⟨z, o, s, i⟩
  cases z <;> cases o <;> cases s <;> cases i <;> decide

end Flags

end EightBit
