/-
  EightBit.Isa.Mnemonic
  ─────────────────────
  **MNEMONICS.**

  The words that begin a statement: three directives and the instructions.

  Main results:
    • `parse?_name`          — a mnemonic is found by its name;
    • `parse?_eq_some_iff`   — and by nothing else, in any case.
-/
import EightBit.Isa.Alu
import EightBit.Isa.Condition
import EightBit.Text.Basic

namespace EightBit

/-- The word that begins a statement. -/
inductive Mnemonic where
  /-- Directive: continue at an address. -/
  | org
  /-- Directive: place bytes. -/
  | db
  /-- Directive: the program ends here, with a halt. -/
  | finish
  | halt
  | mov
  | cmp
  | binary (op : BinaryOp)
  | unary (op : UnaryOp)
  | jump (c : Condition)
  | call
  | ret
  | int
  | iret
  | push
  | pop
  | pushf
  | popf
  | input
  | output
  /-- Set the interrupt flag. -/
  | sti
  /-- Clear the interrupt flag. -/
  | cli
  /-- Close the windows of the display. -/
  | clo
  | nop
  deriving DecidableEq, Repr

/-! ## §1. Names. -/

/-- The word for the operation. -/
def BinaryOp.name : BinaryOp → Text
  | .add => "ADD".toList
  | .sub => "SUB".toList
  | .mul => "MUL".toList
  | .div => "DIV".toList
  | .mod => "MOD".toList
  | .and => "AND".toList
  | .or => "OR".toList
  | .xor => "XOR".toList

/-- The word for the operation. -/
def UnaryOp.name : UnaryOp → Text
  | .inc => "INC".toList
  | .dec => "DEC".toList
  | .not => "NOT".toList
  | .rol => "ROL".toList
  | .ror => "ROR".toList
  | .shl => "SHL".toList
  | .shr => "SHR".toList

def Condition.jumpName : Condition → Text
  | .always => "JMP".toList
  | .zero => "JZ".toList
  | .notZero => "JNZ".toList
  | .sign => "JS".toList
  | .notSign => "JNS".toList
  | .overflow => "JO".toList
  | .notOverflow => "JNO".toList

namespace Mnemonic

/-- The word itself, in upper case. -/
def name : Mnemonic → Text
  | .org => "ORG".toList
  | .db => "DB".toList
  | .finish => "END".toList
  | .halt => "HALT".toList
  | .mov => "MOV".toList
  | .cmp => "CMP".toList
  | .binary op => op.name
  | .unary op => op.name
  | .jump c => c.jumpName
  | .call => "CALL".toList
  | .ret => "RET".toList
  | .int => "INT".toList
  | .iret => "IRET".toList
  | .push => "PUSH".toList
  | .pop => "POP".toList
  | .pushf => "PUSHF".toList
  | .popf => "POPF".toList
  | .input => "IN".toList
  | .output => "OUT".toList
  | .sti => "STI".toList
  | .cli => "CLI".toList
  | .clo => "CLO".toList
  | .nop => "NOP".toList

def all : List Mnemonic :=
  [.org, .db, .finish, .halt, .mov, .cmp]
    ++ BinaryOp.all.map .binary ++ UnaryOp.all.map .unary ++ Condition.all.map .jump
    ++ [.call, .ret, .int, .iret, .push, .pop, .pushf, .popf, .input, .output,
        .sti, .cli, .clo, .nop]

/-- The mnemonic with this name, in any case. -/
def parse? (t : Text) : Option Mnemonic := all.find? fun m => m.name == t.upper

/-! ## §2. Laws. -/

/-- Every mnemonic is in the list. -/
theorem mem_all (m : Mnemonic) : m ∈ all := by
  cases m with
  | binary op => cases op <;> decide
  | unary op => cases op <;> decide
  | jump c => cases c <;> decide
  | _ => decide

/-- What is said of all mnemonics is decided along the list. -/
instance decidableForall (p : Mnemonic → Prop) [DecidablePred p] : Decidable (∀ m, p m) :=
  decidable_of_iff (∀ m ∈ all, p m) ⟨fun h m => h m (mem_all m), fun h m _ => h m⟩

/-- A mnemonic is found by its name. -/
@[simp] theorem parse?_name (m : Mnemonic) : parse? m.name = some m := by
  revert m
  decide

@[simp] theorem upper_name (m : Mnemonic) : m.name.upper = m.name := by
  revert m
  decide

/-- A text names a mnemonic in any case. -/
theorem parse?_eq_some_iff {t : Text} {m : Mnemonic} :
    parse? t = some m ↔ t.upper = m.name := by
  constructor
  · intro h
    have hname : m.name = t.upper := by simpa using List.find?_some h
    exact hname.symm
  · intro h
    rw [← parse?_name m, parse?, parse?, h, upper_name]

end Mnemonic

end EightBit
