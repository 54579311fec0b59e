/-
  EightBit.Isa.Alu
  ────────────────
  **ARITHMETIC AND LOGIC.**

  An operation is first computed on 32-bit words, where no operation on two
  bytes overflows, and the result is then folded to its low byte.  The flags
  look at both: zero and sign at the folded byte, overflow at bit 7 of the
  unfolded word against bit 7 of the destination.
-/
import EightBit.Isa.Flags

namespace EightBit

/-! ## §1. Operations. -/

/-- An operation on a destination and a second operand. -/
inductive BinaryOp where
  | add | sub | mul | div | mod | and | or | xor
  deriving DecidableEq, Repr

/-- An operation on a destination alone. -/
inductive UnaryOp where
  | inc | dec | not | rol | ror | shl | shr
  deriving DecidableEq, Repr

/-- An operation of the arithmetic unit. -/
inductive AluOp where
  | binary (op : BinaryOp)
  | unary (op : UnaryOp)
  deriving DecidableEq, Repr

/-- Every two-operand operation. -/
def BinaryOp.all : List BinaryOp := [.add, .sub, .mul, .div, .mod, .and, .or, .xor]

/-- Every one-operand operation. -/
def UnaryOp.all : List UnaryOp := [.inc, .dec, .not, .rol, .ror, .shl, .shr]

/-! ## §2. Unfolded results. -/

/-- A signed 32-bit number. -/
abbrev Word := BitVec 32

/-- The quotient `q dest operand` of a truncating division; none when the
operand is zero, or when the exact quotient does not fit: the least word by
minus one. -/
def Word.divided (q : Word → Word → Word) (dest operand : Word) : Option Word :=
  if operand = 0 ∨ (dest = BitVec.intMin 32 ∧ operand = -1) then none else some (q dest operand)

/-- `dest op operand`; none where a division has no result. -/
def BinaryOp.eval? (op : BinaryOp) (dest operand : Word) : Option Word :=
  match op with
  | .add => some (dest + operand)
  | .sub => some (dest - operand)
  | .mul => some (dest * operand)
  | .div => Word.divided BitVec.sdiv dest operand
  | .mod => Word.divided BitVec.srem dest operand
  | .and => some (dest &&& operand)
  | .or => some (dest ||| operand)
  | .xor => some (dest ^^^ operand)

/-- The operation on `dest`: a rotation carries bit 7 to bit 0 or back, a
right shift keeps the sign, and a left shift leaves what passes bit 7 to the
folding. -/
def UnaryOp.eval (op : UnaryOp) (dest : Word) : Word :=
  match op with
  | .inc => dest + 1
  | .dec => dest - 1
  | .not => ~~~dest
  | .rol => dest <<< 1 ||| dest.sshiftRight 7
  | .ror => dest.sshiftRight 1 ||| (dest &&& 1) <<< 7
  | .shl => dest <<< 1
  | .shr => dest.sshiftRight 1

/-- The unfolded result of the operation; a one-operand operation does not
look at `operand`. -/
def AluOp.eval? (op : AluOp) (operand dest : Word) : Option Word :=
  match op with
  | .binary op => op.eval? dest operand
  | .unary op => some (op.eval dest)

/-! ## §3. Bytes and flags. -/

def Byte.toWord (b : Byte) : Word := b.toBitVec.setWidth 32

def Word.fold (w : Word) : Byte := UInt8.ofBitVec (w.setWidth 8)

def Word.bit7 (w : Word) : Bool := w.getLsbD 7

/-- The flags after the unfolded result `w` for a destination that was `dest`:
the interrupt flag is carried over. -/
def Flags.after (f : Flags) (dest : Byte) (w : Word) : Flags where
  zero := w.fold == 0
  overflow := w.bit7 != dest.toWord.bit7
  sign := 0x80 ≤ w.fold
  interrupt := f.interrupt

/-- The folded result of the operation on bytes, and the flags after it; none
on a division by zero. -/
def AluOp.operate? (op : AluOp) (operand dest : Byte) (f : Flags) : Option (Byte × Flags) :=
  (op.eval? operand.toWord dest.toWord).map fun w => (w.fold, f.after dest w)

end EightBit
