/-
  EightBit.Machine.Fault
  ──────────────────────
  **WHY A STEP FAILS.**

  A fault is a cause and the address of the instruction.  The wording of
  every cause stands here.
-/
import EightBit.Text.Hex

namespace EightBit

namespace Fault

/-- Why a step fails. -/
inductive Cause where
  /-- An operand byte that stands for no register. -/
  | invalidRegister (code : Byte)
  /-- The instruction or its successor lies outside memory. -/
  | beyondMemory
  | stackOverflow
  | stackUnderflow
  | divideByZero
  /-- A channel above the highest one. -/
  | invalidChannel (channel : Byte)
  /-- A datum for a register that does not fit. -/
  | invalidInput (content : UInt16)
  /-- A byte that is no opcode. -/
  | invalidOpcode (byte : Byte)
  deriving DecidableEq, Repr

def Cause.message : Cause → Text
  | .invalidRegister code => "Invalid register code ".toList ++ Text.Hex.ofByte code
  | .beyondMemory => "Program ran beyond the end of memory".toList
  | .stackOverflow => "Stack overflow".toList
  | .stackUnderflow => "Stack underflow".toList
  | .divideByZero => "Divide by zero".toList
  | .invalidChannel channel =>
    "Invalid port ".toList ++ Text.Hex.ofByte channel ++ ": ports range from 00 to 0F".toList
  | .invalidInput content =>
    "Invalid input data ".toList ++ (Text.Hex.ofNat content.toNat).padLeft '0' 4
      ++ ": expected a value from 00 to FF".toList
  | .invalidOpcode byte => "Invalid opcode ".toList ++ Text.Hex.ofByte byte

end Fault

/-- A cause and the address of the instruction. -/
structure Fault where
  cause : Fault.Cause
  ip : Byte
  deriving DecidableEq, Repr

end EightBit
