/-
  EightBit.Isa.Disassembly
  ────────────────────────
  **INSTRUCTIONS AS TEXT.**

  One line for the instruction at the head of some bytes: the mnemonic in
  lower case, then the operands as they are written in a source.  Missing
  bytes show as `??`, an undefined opcode as data, an undefined register as
  `?` and its code.
-/
import EightBit.Isa.Form
import EightBit.Isa.Register
import EightBit.Text.Hex
import EightBit.Text.Styled

namespace EightBit.Disassembly

/-- A byte that is not there. -/
def missing : Styled := .paint (.strong .red) (.ofText "??".toList)

def registerText (code : Byte) : Text :=
  match Register.ofCode? code with
  | some r => r.name
  | none => '?' :: Text.Hex.ofByte code

/-- A number with its sign, which is always written. -/
def signedText (i : Int) : Text :=
  (if i < 0 then '-' else '+') :: Text.decimal i.natAbs

def operand (kind : OperandKind) (value : Byte) : Styled :=
  match kind with
  | .register => .ofText (registerText value)
  | .registerAddress => .ofText ('[' :: registerText value ++ [']'])
  | .address =>
    .ofText ['['] ++ .paint (.colored .yellow) (.ofText (Text.Hex.ofByte value)) ++ .ofText [']']
  | .label => .paint (.colored .green) (.ofText (signedText value.signed))
  | .number | .string => .paint (.colored .yellow) (.ofText (Text.Hex.ofByte value))

def operandList : List OperandKind → List Byte → List Styled
  | [], _ => []
  | kind :: kinds, b :: bs => operand kind b :: operandList kinds bs
  | _ :: kinds, [] => missing :: operandList kinds []

/-- The instruction with this opcode, whose operand bytes are at the head of
`rest`. -/
def instruction (op : Opcode) (rest : List Byte) : Styled :=
  .twoTone .red .blue (.ofText (op.mnemonic.name.lower.padRight 6))
    (.joinWith ", ".toList (operandList op.operands rest))

def line : List Byte → Styled
  | [] => missing
  | b :: rest =>
    match Opcode.ofByte? b with
    | some op => instruction op rest
    | none =>
      .paint (.strong .red) (.ofText "db".toList) ++ .ofText "   ".toList
        ++ .paint (.colored .yellow) (.ofText (Text.Hex.ofByte b))

/-- Operands are read by kind. -/
example : (line [0xD4, 0x02, 0x01]).plain = "mov   [CL], BL".toList := by decide

/-- A jump shows its distance, and what is missing or undefined shows as such. -/
example : (line [0xC0, 0xFE]).plain = "jmp   -2".toList
    ∧ (line [0xA0, 0x07]).plain = "add   ?07, ??".toList
    ∧ (line [0x50]).plain = "db   50".toList := by decide

end EightBit.Disassembly
