/-
  EightBit.Isa.Form
  ─────────────────
  **THE FORMS OF A MNEMONIC.**

  A form is a list of operand kinds that a mnemonic takes, with the opcode
  that it selects.  The table of forms is the one place where mnemonics,
  operands and opcodes meet: what the reader of a source admits, and how
  many bytes an instruction has, are read off it.

  Main results:
    • `length_operands`        — all forms of a mnemonic have its arity;
    • `opcode?_select_operands` — an opcode is selected by its own operands.
-/
import EightBit.Isa.Mnemonic
import EightBit.Isa.Opcode

namespace EightBit

/-! ## §1. Operand kinds. -/

/-- What kind of thing an operand is. -/
inductive OperandKind where
  | number
  /-- A memory address, written in brackets. -/
  | address
  | register
  /-- The memory address in a register, written in brackets. -/
  | registerAddress
  | label
  | string
  deriving DecidableEq, Repr

def OperandKind.name : OperandKind → Text
  | .number => "Number".toList
  | .address => "Address".toList
  | .register => "Register".toList
  | .registerAddress => "RegisterAddress".toList
  | .label => "Label".toList
  | .string => "String".toList

/-! ## §2. The table. -/

/-- Operand kinds and the opcode they select; a directive that places no
opcode byte selects none. -/
structure Form where
  operands : List OperandKind
  opcode : Option Opcode
  deriving DecidableEq, Repr

namespace Mnemonic

def forms : Mnemonic → List Form
  | .org => [⟨[.number], none⟩]
  | .db => [⟨[.number], none⟩, ⟨[.string], none⟩]
  | .finish => [⟨[], some .halt⟩]
  | .halt => [⟨[], some .halt⟩]
  | .mov =>
    [⟨[.register, .number], some .loadNumber⟩,
     ⟨[.register, .address], some .loadDirect⟩,
     ⟨[.address, .register], some .storeDirect⟩,
     ⟨[.register, .registerAddress], some .loadIndirect⟩,
     ⟨[.registerAddress, .register], some .storeIndirect⟩]
  | .cmp =>
    [⟨[.register, .register], some .compareRegister⟩,
     ⟨[.register, .number], some .compareNumber⟩,
     ⟨[.register, .address], some .compareDirect⟩]
  | .binary op =>
    [⟨[.register, .register], some (.binaryRegister op)⟩,
     ⟨[.register, .number], some (.binaryNumber op)⟩]
  | .unary op => [⟨[.register], some (.unary op)⟩]
  | .jump c => [⟨[.label], some (.jump c)⟩]
  | .call => [⟨[.number], some .call⟩]
  | .ret => [⟨[], some .ret⟩]
  | .int => [⟨[.number], some .int⟩]
  | .iret => [⟨[], some .iret⟩]
  | .push => [⟨[.register], some .push⟩]
  | .pop => [⟨[.register], some .pop⟩]
  | .pushf => [⟨[], some .pushf⟩]
  | .popf => [⟨[], some .popf⟩]
  | .input => [⟨[.number], some .input⟩]
  | .output => [⟨[.number], some .output⟩]
  | .sti => [⟨[], some .sti⟩]
  | .cli => [⟨[], some .cli⟩]
  | .clo => [⟨[], some .clo⟩]
  | .nop => [⟨[], some .nop⟩]

/-- Number of operands of the mnemonic. -/
def arity (m : Mnemonic) : Nat :=
  match m.forms with
  | [] => 0
  | f :: _ => f.operands.length

/-- The kinds that some form has at `position` after the kinds `matched`, each
once, in the order of the forms. -/
def admitted (m : Mnemonic) (position : Nat) (matched : List OperandKind) : List OperandKind :=
  (m.forms.filterMap fun f =>
    if f.operands.take position = matched then f.operands[position]? else none).eraseDups

def select (m : Mnemonic) (kinds : List OperandKind) : Option Form :=
  m.forms.find? fun f => f.operands == kinds

end Mnemonic

/-! ## §3. Opcodes read through the table. -/

namespace Opcode

/-- The mnemonic under which the opcode is shown; of the two that halt it is
the directive that ends a program. -/
def mnemonic : Opcode → Mnemonic
  | .halt => .finish
  | .unary op => .unary op
  | .binaryRegister op | .binaryNumber op => .binary op
  | .jump c => .jump c
  | .call => .call
  | .ret => .ret
  | .int => .int
  | .iret => .iret
  | .loadNumber | .loadDirect | .storeDirect | .loadIndirect | .storeIndirect => .mov
  | .compareRegister | .compareNumber | .compareDirect => .cmp
  | .push => .push
  | .pop => .pop
  | .pushf => .pushf
  | .popf => .popf
  | .input => .input
  | .output => .output
  | .sti => .sti
  | .cli => .cli
  | .clo => .clo
  | .nop => .nop

def operands (op : Opcode) : List OperandKind :=
  match op.mnemonic.forms.find? fun f => f.opcode == some op with
  | some f => f.operands
  | none => []

/-- Number of bytes of the instruction, its opcode included. -/
def width (op : Opcode) : Nat := 1 + op.operands.length

end Opcode

/-! ## §4. Laws. -/

/-- All forms of a mnemonic have its arity. -/
theorem Mnemonic.length_operands (m : Mnemonic) : ∀ f ∈ m.forms, f.operands.length = m.arity := by
  cases m <;> simp [forms, arity]

/-- An opcode is selected by its own operands. -/
theorem Opcode.opcode?_select_operands (op : Opcode) :
    (op.mnemonic.select op.operands).bind Form.opcode = some op := by
  revert op
  decide

end EightBit
