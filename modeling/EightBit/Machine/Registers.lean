/-
  EightBit.Machine.Registers
  ──────────────────────────
  **REGISTERS.**

  Four general registers, the instruction pointer, the stack pointer and the
  status flags.

  Main result:
    • `get_set` — a write is seen in its register and in no other.
-/
import EightBit.Isa.Flags
import EightBit.Isa.Register
import EightBit.Machine.Memory

namespace EightBit

/-- The contents of the registers. -/
structure Registers where
  al : Byte
  bl : Byte
  cl : Byte
  dl : Byte
  /-- The address of the next instruction. -/
  ip : Byte
  /-- The address where the next pushed byte goes. -/
  sp : Byte
  sr : Flags
  deriving DecidableEq, Repr

namespace Registers

/-- The registers at the start: zero, with an empty stack. -/
def initial : Registers := ⟨0, 0, 0, 0, 0, stackBase, .clear⟩

/-- The content of the general register. -/
def get (rs : Registers) : Register → Byte
  | .al => rs.al
  | .bl => rs.bl
  | .cl => rs.cl
  | .dl => rs.dl

def set (rs : Registers) (r : Register) (b : Byte) : Registers :=
  match r with
  | .al => { rs with al := b }
  | .bl => { rs with bl := b }
  | .cl => { rs with cl := b }
  | .dl => { rs with dl := b }

/-- A write is seen in its register and in no other. -/
theorem get_set (rs : Registers) (r q : Register) (b : Byte) :
    (rs.set r b).get q = if q = r then b else rs.get q := by
  cases r <;> cases q <;> rfl

@[simp] theorem ip_set (rs : Registers) (r : Register) (b : Byte) : (rs.set r b).ip = rs.ip := by
  cases r <;> rfl

@[simp] theorem sp_set (rs : Registers) (r : Register) (b : Byte) : (rs.set r b).sp = rs.sp := by
  cases r <;> rfl

@[simp] theorem sr_set (rs : Registers) (r : Register) (b : Byte) : (rs.set r b).sr = rs.sr := by
  cases r <;> rfl

end Registers

end EightBit
