/-
  EightBit.Isa.Condition
  ──────────────────────
  **JUMP CONDITIONS.**
-/
import EightBit.Isa.Flags

namespace EightBit

/-- When a jump is taken. -/
inductive Condition where
  /-- In every state. -/
  | always
  /-- The zero flag is set. -/
  | zero
  /-- The zero flag is clear. -/
  | notZero
  /-- The sign flag is set. -/
  | sign
  /-- The sign flag is clear. -/
  | notSign
  /-- The overflow flag is set. -/
  | overflow
  /-- The overflow flag is clear. -/
  | notOverflow
  deriving DecidableEq, Repr

namespace Condition

/-- Every condition, in the order of the opcodes. -/
def all : List Condition :=
  [.always, .zero, .notZero, .sign, .notSign, .overflow, .notOverflow]

def holds (c : Condition) (f : Flags) : Bool :=
  match c with
  | .always => true
  | .zero => f.zero
  | .notZero => !f.zero
  | .sign => f.sign
  | .notSign => !f.sign
  | .overflow => f.overflow
  | .notOverflow => !f.overflow

end Condition

end EightBit
