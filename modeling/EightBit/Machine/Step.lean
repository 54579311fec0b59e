/-
  EightBit.Machine.Step
  ─────────────────────
  **ONE STEP.**

  A step takes the interrupt, if it is raised and not masked, or executes
  the instruction at the instruction pointer.  It computes an effect, which
  is what it writes and what it signals, from the core as it finds it, or
  fails for the first cause it meets: all operand bytes are fetched first,
  then registers are looked up, then the stack, and the successor last,
  except that a call needs its return address before it pushes it.

  Main result:
    • `step_eq_ok_iff` — a step is its effect carried out.
-/
import EightBit.Isa.Opcode
import EightBit.Machine.Core
import EightBit.Machine.Fault
import EightBit.Machine.Signals

namespace EightBit

/-! ## §1. Effects. -/

/-- What a step writes and what it signals. -/
structure Effect where
  writes : List Write
  signals : OutputSignals
  deriving DecidableEq, Repr

/-- Writes without a signal. -/
def Effect.silent (ws : List Write) : Effect := ⟨ws, .none⟩

namespace Core

/-! ## §2. What instructions are made of. -/

/-- The byte `offset` after the instruction pointer. -/
def fetch (c : Core) (offset : Nat) : Except Fault.Cause Byte :=
  match Byte.ofNat? (c.registers.ip.toNat + offset) with
  | some a => .ok (c.memory.get a)
  | none => .error .beyondMemory

/-- The address of what follows an instruction of `width` bytes. -/
def successor (c : Core) (width : Nat) : Except Fault.Cause Byte :=
  match Byte.ofNat? (c.registers.ip.toNat + width) with
  | some a => .ok a
  | none => .error .beyondMemory

/-- The address at the signed distance from the instruction. -/
def jumpTarget (c : Core) (distance : Byte) : Except Fault.Cause Byte :=
  match Byte.ofInt? (c.registers.ip.toNat + distance.signed) with
  | some a => .ok a
  | none => .error .beyondMemory

/-- The register that an operand byte stands for. -/
def register (code : Byte) : Except Fault.Cause Register :=
  match Register.ofCode? code with
  | some r => .ok r
  | none => .error (.invalidRegister code)

/-- The content of the register that an operand byte stands for. -/
def content (c : Core) (code : Byte) : Except Fault.Cause Byte :=
  (register code).map c.registers.get

/-- The result and the flags of an operation under the present flags. -/
def operate (c : Core) (op : AluOp) (operand dest : Byte) :
    Except Fault.Cause (Byte × Flags) :=
  match op.operate? operand dest c.registers.sr with
  | some r => .ok r
  | none => .error .divideByZero

/-- The writes that push the byte; the last byte of the stack is never used. -/
def push (c : Core) (b : Byte) : Except Fault.Cause (List Write) :=
  if c.registers.sp = 0 then .error .stackOverflow
  else .ok [.memory c.registers.sp b, .sp (c.registers.sp - 1)]

/-- The byte on top of the stack, and the write that removes it. -/
def pop (c : Core) : Except Fault.Cause (Byte × Write) :=
  if stackBase ≤ c.registers.sp then .error .stackUnderflow
  else .ok (c.memory.get (c.registers.sp + 1), .sp (c.registers.sp + 1))

/-- The channel named by the operand byte. -/
def channel (c : Core) : Except Fault.Cause Byte :=
  match c.fetch 1 with
  | .error e => .error e
  | .ok n => if maxChannel < n then .error (.invalidChannel n) else .ok n

/-- The writes that push the byte and continue at the address which is stored
at `vector` once the byte is pushed. -/
def enter (c : Core) (b vector : Byte) : Except Fault.Cause (List Write) :=
  (c.push b).map fun ws => ws ++ [.ip ((c.applyAll ws).memory.get vector)]

/-! ## §3. Instructions. -/

/-- The effect of the arithmetic instruction of `width` bytes on the register
with the code `dest`. -/
def calculate (c : Core) (op : AluOp) (operand dest : Byte) (width : Nat) :
    Except Fault.Cause Effect := do
  let r ← register dest
  let (result, flags) ← c.operate op operand (c.registers.get r)
  let next ← c.successor width
  pure (.silent [.sr flags, .register r result, .ip next])

/-- The effect of comparing the register with the code `left` to a byte. -/
def compare (c : Core) (left right : Byte) : Except Fault.Cause Effect := do
  let l ← c.content left
  let (_, flags) ← c.operate (.binary .sub) right l
  let next ← c.successor 3
  pure (.silent [.sr flags, .ip next])

/-- The effect of loading the byte into the register with the code `dest`. -/
def load (c : Core) (dest b : Byte) : Except Fault.Cause Effect := do
  let r ← register dest
  let next ← c.successor 3
  pure (.silent [.register r b, .ip next])

/-- The effect of storing the content of the register with the code `source`
at the address. -/
def store (c : Core) (address source : Byte) : Except Fault.Cause Effect := do
  let b ← c.content source
  let next ← c.successor 3
  pure (.silent [.memory address b, .ip next])

/-- The effect of an input instruction on the channel when `datum` is offered:
a datum on another channel does not count. -/
def receive (c : Core) (channel : Byte) (datum : Option InputDatum) :
    Except Fault.Cause Effect :=
  match datum.filter fun d => d.channel = channel with
  | none => .ok ⟨[], { OutputSignals.none with waiting := some channel }⟩
  | some d =>
    if d.content = InputDatum.skip then
      (c.successor 2).map fun next => .silent [.ip next]
    else
      match Byte.ofNat? d.content.toNat with
      | none => .error (.invalidInput d.content)
      | some b => (c.successor 2).map fun next => .silent [.register .al b, .ip next]

/-- The effect of the instruction at the instruction pointer, which has this
opcode, when `datum` is offered. -/
def exec (c : Core) (datum : Option InputDatum) : Opcode → Except Fault.Cause Effect
  | .halt => .ok ⟨[], { OutputSignals.none with halted := true }⟩
  | .binaryRegister op => do
    let dest ← c.fetch 1
    let source ← c.fetch 2
    let operand ← c.content source
    c.calculate (.binary op) operand dest 3
  | .binaryNumber op => do
    let dest ← c.fetch 1
    let operand ← c.fetch 2
    c.calculate (.binary op) operand dest 3
  | .unary op => do
    let dest ← c.fetch 1
    c.calculate (.unary op) 0 dest 2
  | .compareRegister => do
    let left ← c.fetch 1
    let right ← c.fetch 2
    let r ← c.content right
    c.compare left r
  | .compareNumber => do
    let left ← c.fetch 1
    let right ← c.fetch 2
    c.compare left right
  | .compareDirect => do
    let left ← c.fetch 1
    let address ← c.fetch 2
    c.compare left (c.memory.get address)
  | .jump condition => do
    let distance ← c.fetch 1
    let next ← if condition.holds c.registers.sr then c.jumpTarget distance else c.successor 2
    pure (.silent [.ip next])
  | .call => do
    let target ← c.fetch 1
    let back ← c.successor 2
    let ws ← c.push back
    pure (.silent (ws ++ [.ip target]))
  | .int => do
    let vector ← c.fetch 1
    let back ← c.successor 2
    let ws ← c.enter back vector
    pure (.silent ws)
  | .ret | .iret => do
    let (back, w) ← c.pop
    pure (.silent [w, .ip back])
  | .loadNumber => do
    let dest ← c.fetch 1
    let b ← c.fetch 2
    c.load dest b
  | .loadDirect => do
    let dest ← c.fetch 1
    let address ← c.fetch 2
    c.load dest (c.memory.get address)
  | .loadIndirect => do
    let dest ← c.fetch 1
    let pointer ← c.fetch 2
    let address ← c.content pointer
    c.load dest (c.memory.get address)
  | .storeDirect => do
    let address ← c.fetch 1
    let source ← c.fetch 2
    c.store address source
  | .storeIndirect => do
    let pointer ← c.fetch 1
    let source ← c.fetch 2
    let address ← c.content pointer
    c.store address source
  | .push => do
    let source ← c.fetch 1
    let b ← c.content source
    let ws ← c.push b
    let next ← c.successor 2
    pure (.silent (ws ++ [.ip next]))
  | .pop => do
    let dest ← c.fetch 1
    let r ← register dest
    let (b, w) ← c.pop
    let next ← c.successor 2
    pure (.silent [w, .register r b, .ip next])
  | .pushf => do
    let ws ← c.push c.registers.sr.toByte
    let next ← c.successor 1
    pure (.silent (ws ++ [.ip next]))
  | .popf => do
    let (b, w) ← c.pop
    let next ← c.successor 1
    pure (.silent [w, .sr (.ofByte b), .ip next])
  | .input => do
    let channel ← c.channel
    c.receive channel datum
  | .output => do
    let channel ← c.channel
    let next ← c.successor 2
    pure ⟨[.ip next], { OutputSignals.none with datum := some ⟨c.registers.al, channel⟩ }⟩
  | .sti => do
    let next ← c.successor 1
    pure (.silent [.sr { c.registers.sr with interrupt := true }, .ip next])
  | .cli => do
    let next ← c.successor 1
    pure (.silent [.sr { c.registers.sr with interrupt := false }, .ip next])
  | .clo => do
    let next ← c.successor 1
    pure ⟨[.ip next], { OutputSignals.none with closeWindows := true }⟩
  | .nop => do
    let next ← c.successor 1
    pure (.silent [.ip next])

/-! ## §4. Steps. -/

/-- Whether a step under these signals takes the interrupt. -/
def traps (c : Core) (input : InputSignals) : Bool :=
  input.interrupt && c.registers.sr.interrupt

/-- The effect of a step. -/
def effect (c : Core) (input : InputSignals) : Except Fault.Cause Effect :=
  if c.traps input then (c.enter c.registers.ip interruptVector).map .silent
  else
    let b := c.memory.get c.registers.ip
    match Opcode.ofByte? b with
    | none => .error (.invalidOpcode b)
    | some op => c.exec input.datum op

end Core

/-- The core after a step, what the step signals, and where it wrote. -/
structure Step where
  core : Core
  signals : OutputSignals
  changes : List Location
  deriving DecidableEq, Repr

namespace Core

/-- The step from the core, or why it fails. -/
def step (c : Core) (input : InputSignals) : Except Fault Step :=
  match c.effect input with
  | .error cause => .error ⟨cause, c.registers.ip⟩
  | .ok e => .ok ⟨c.applyAll e.writes, e.signals, e.writes.map Write.location⟩

/-- A step is its effect carried out. -/
theorem step_eq_ok_iff {c : Core} {input : InputSignals} {s : Step} :
    c.step input = .ok s ↔ ∃ e, c.effect input = .ok e
      ∧ s = ⟨c.applyAll e.writes, e.signals, e.writes.map Write.location⟩ := by
  unfold step
  cases c.effect input <;> simp [eq_comm]

end Core

end EightBit
