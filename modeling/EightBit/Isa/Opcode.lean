/-
  EightBit.Isa.Opcode
  ───────────────────
  **OPCODES.**

  The first byte of an instruction fixes what it does and of which kinds its
  operands are.

  Main results:
    • `ofByte?_byte`     — an opcode is found by its byte;
    • `byte_of_ofByte?`  — the opcode found by a byte has that byte.
-/
import EightBit.Isa.Alu
import EightBit.Isa.Condition

namespace EightBit

/-- What an instruction does. -/
inductive Opcode where
  | halt
  | unary (op : UnaryOp)
  /-- Destination register, source register. -/
  | binaryRegister (op : BinaryOp)
  /-- Destination register, number. -/
  | binaryNumber (op : BinaryOp)
  | jump (c : Condition)
  | call
  | ret
  | int
  | iret
  /-- Register from a number. -/
  | loadNumber
  /-- Register from a memory address. -/
  | loadDirect
  /-- Memory address from a register. -/
  | storeDirect
  /-- Register from the address in a register. -/
  | loadIndirect
  /-- Address in a register from a register. -/
  | storeIndirect
  | compareRegister
  | compareNumber
  /-- Register with the byte at an address. -/
  | compareDirect
  | push
  | pop
  | pushf
  | popf
  | input
  | output
  | sti
  | cli
  | clo
  | nop
  deriving DecidableEq, Repr

/-! ## §1. Bytes. -/

/-- Place of the operation within its group of opcodes. -/
def BinaryOp.index : BinaryOp → Byte
  | .add => 0x0
  | .sub => 0x1
  | .mul => 0x2
  | .div => 0x3
  | .mod => 0x6
  | .and => 0xA
  | .or => 0xB
  | .xor => 0xC

def UnaryOp.byte : UnaryOp → Byte
  | .rol => 0x9A
  | .ror => 0x9B
  | .shl => 0x9C
  | .shr => 0x9D
  | .inc => 0xA4
  | .dec => 0xA5
  | .not => 0xAD

/-- Place of the condition within the group of jumps. -/
def Condition.index : Condition → Byte
  | .always => 0
  | .zero => 1
  | .notZero => 2
  | .sign => 3
  | .notSign => 4
  | .overflow => 5
  | .notOverflow => 6

namespace Opcode

/-- The byte that stands for the opcode. -/
def byte : Opcode → Byte
  | .halt => 0x00
  | .unary op => op.byte
  | .binaryRegister op => 0xA0 + op.index
  | .binaryNumber op => 0xB0 + op.index
  | .jump c => 0xC0 + c.index
  | .call => 0xCA
  | .ret => 0xCB
  | .int => 0xCC
  | .iret => 0xCD
  | .loadNumber => 0xD0
  | .loadDirect => 0xD1
  | .storeDirect => 0xD2
  | .loadIndirect => 0xD3
  | .storeIndirect => 0xD4
  | .compareRegister => 0xDA
  | .compareNumber => 0xDB
  | .compareDirect => 0xDC
  | .push => 0xE0
  | .pop => 0xE1
  | .pushf => 0xEA
  | .popf => 0xEB
  | .input => 0xF0
  | .output => 0xF1
  | .sti => 0xFC
  | .cli => 0xFD
  | .clo => 0xFE
  | .nop => 0xFF

def all : List Opcode :=
  .halt :: UnaryOp.all.map .unary ++ BinaryOp.all.map .binaryRegister
    ++ BinaryOp.all.map .binaryNumber ++ Condition.all.map .jump
    ++ [.call, .ret, .int, .iret, .loadNumber, .loadDirect, .storeDirect, .loadIndirect,
        .storeIndirect, .compareRegister, .compareNumber, .compareDirect, .push, .pop,
        .pushf, .popf, .input, .output, .sti, .cli, .clo, .nop]

/-- The opcode with this byte; most bytes have none. -/
def ofByte? (b : Byte) : Option Opcode := all.find? fun op => op.byte == b

/-! ## §2. Laws. -/

/-- Every opcode is in the list. -/
theorem mem_all (op : Opcode) : op ∈ all := by
  cases op with
  | unary op => cases op <;> decide
  | binaryRegister op => cases op <;> decide
  | binaryNumber op => cases op <;> decide
  | jump c => cases c <;> decide
  | _ => decide

/-- What is said of all opcodes is decided along the list. -/
instance decidableForall (p : Opcode → Prop) [DecidablePred p] : Decidable (∀ op, p op) :=
  decidable_of_iff (∀ op ∈ all, p op) ⟨fun h op => h op (mem_all op), fun h op _ => h op⟩

/-- An opcode is found by its byte. -/
@[simp] theorem ofByte?_byte (op : Opcode) : ofByte? op.byte = some op := by
  revert op
  decide

/-- The opcode found by a byte has that byte. -/
theorem byte_of_ofByte? {b : Byte} {op : Opcode} (h : ofByte? b = some op) : op.byte = b := by
  simpa using List.find?_some h

end Opcode

end EightBit
