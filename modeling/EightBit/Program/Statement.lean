/-
  EightBit.Program.Statement
  ──────────────────────────
  **STATEMENTS.**

  A program is a list of statements: label declarations, and instructions,
  among which the directives are counted.  An instruction has a size, from
  which addresses are laid out, and an encoding, which fills them.
-/
import EightBit.Source.Error
import EightBit.Isa.Register
import EightBit.Text.Hex

namespace EightBit

/-! ## §1. Operands. -/

/-- What an operand stands for. -/
inductive Operand.Value where
  | number (n : Byte)
  | address (a : Byte)
  | register (r : Register)
  /-- The memory address in a register. -/
  | registerAddress (r : Register)
  /-- A label, and its distance from the instruction once that is known. -/
  | label (name : Text) (distance : Option Byte)
  | string (text : Text)
  deriving DecidableEq, Repr

/-- A value and where it stands in the source. -/
structure Operand where
  value : Operand.Value
  span : Span
  deriving DecidableEq, Repr

namespace Operand

def Value.kind : Value → OperandKind
  | .number _ => .number
  | .address _ => .address
  | .register _ => .register
  | .registerAddress _ => .registerAddress
  | .label .. => .label
  | .string _ => .string

/-- Number of bytes the value takes: one per character of a string, one for
anything else. -/
def Value.width : Value → Nat
  | .string text => text.length
  | _ => 1

/-- The byte of a character of a string, which must be at most U+00FF. -/
def charByte (span : Span) (c : Char) : Except SourceError Byte :=
  if c.toNat < 256 then .ok (UInt8.ofNat c.toNat)
  else .error ⟨.invalidNumber (Text.Hex.ofNat c.toNat), span⟩

/-- The bytes of the operand; a label must have its distance. -/
def encode (o : Operand) : Except SourceError (List Byte) :=
  match o.value with
  | .number n => .ok [n]
  | .address a => .ok [a]
  | .register r => .ok [r.code]
  | .registerAddress r => .ok [r.code]
  | .label _ (some distance) => .ok [distance]
  | .label name none => .error ⟨.unknownLabel name, o.span⟩
  | .string text => text.mapM (charByte o.span)

end Operand

/-! ## §2. Instructions. -/

/-- A mnemonic applied to operands.  A directive that places no opcode byte
has no opcode. -/
structure Instruction where
  mnemonic : Mnemonic
  opcode : Option Opcode
  operands : List Operand
  span : Span
  deriving DecidableEq, Repr

namespace Instruction

def kinds (i : Instruction) : List OperandKind := i.operands.map fun o => o.value.kind

/-- Number of bytes the instruction takes in memory. -/
def size (i : Instruction) : Nat :=
  if i.mnemonic = .org then 0
  else i.opcode.toList.length + (i.operands.map fun o => o.value.width).foldr (· + ·) 0

/-- The bytes of the instruction: its opcode, then its operands.  The first
operand without an encoding is at fault. -/
def encode (i : Instruction) : Except SourceError (List Byte) :=
  (i.operands.mapM Operand.encode).map fun bytes =>
    i.opcode.toList.map Opcode.byte ++ bytes.flatten

/-- The labels that the instruction uses, with the place of each use. -/
def references (i : Instruction) : List (Text × Span) :=
  i.operands.filterMap fun o =>
    match o.value with
    | .label name _ => some (name, o.span)
    | _ => none

/-- The address that the directive ORG continues at. -/
def origin? (i : Instruction) : Option Byte :=
  match i.operands with
  | ⟨.number n, _⟩ :: _ => some n
  | _ => none

end Instruction

/-! ## §3. Statements. -/

/-- One statement of a program. -/
inductive Statement where
  /-- The declaration of a label. -/
  | label (name : Text) (span : Span)
  | instruction (i : Instruction)
  deriving DecidableEq, Repr

namespace Statement

/-- Where the statement stands in the source. -/
def span : Statement → Span
  | .label _ span => span
  | .instruction i => i.span

def isEnd : Statement → Bool
  | .label .. => false
  | .instruction i => i.mnemonic = .finish

end Statement

end EightBit
