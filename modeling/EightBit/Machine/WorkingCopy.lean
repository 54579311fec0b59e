/-
  EightBit.Machine.WorkingCopy
  ────────────────────────────
  **A STEP IN PLACE.**

  The step of a processor that works on a copy of memory and registers.  An
  instruction fetches its operands, reads registers, and writes as it goes, by
  setters that note where they write: a place is noted when it is written for
  the first time.  A step that fails on the way leaves its copy behind, with
  whatever it has written there.
-/
import EightBit.Machine.Step

namespace EightBit

/-- What a step works on. -/
structure WorkingCopy where
  memory : Memory
  registers : Registers
  signals : OutputSignals
  /-- Where was written, each place once. -/
  changes : List Location
  /-- The address of the instruction that is executed. -/
  ip : Byte
  deriving DecidableEq, Repr

/-- A part of a step: it works on the copy, or fails. -/
abbrev Working := StateT WorkingCopy (Except Fault)

namespace WorkingCopy

/-! ## §1. Setters. -/

/-- Note the place, unless it is noted already. -/
def record (l : Location) (w : WorkingCopy) : WorkingCopy :=
  if l ∈ w.changes then w else { w with changes := w.changes ++ [l] }

def setRegister (r : Register) (b : Byte) (w : WorkingCopy) : WorkingCopy :=
  { w with registers := w.registers.set r b }.record (.register r)

def setMemory (a b : Byte) (w : WorkingCopy) : WorkingCopy :=
  { w with memory := w.memory.set a b }.record (.memory a)

def setIp (a : Byte) (w : WorkingCopy) : WorkingCopy :=
  { w with registers := { w.registers with ip := a } }.record .ip

def setSp (a : Byte) (w : WorkingCopy) : WorkingCopy :=
  { w with registers := { w.registers with sp := a } }.record .sp

def setSr (f : Flags) (w : WorkingCopy) : WorkingCopy :=
  { w with registers := { w.registers with sr := f } }.record .sr

/-! ## §2. Parts of an instruction. -/

/-- Fail at the instruction that is executed. -/
def fail {α : Type} (cause : Fault.Cause) : Working α := fun w => .error ⟨cause, w.ip⟩

/-- What there is, or fail. -/
def orFail {α : Type} (x : Option α) (cause : Fault.Cause) : Working α :=
  match x with
  | some a => pure a
  | none => fail cause

/-- The byte `offset` after the instruction. -/
def fetch (offset : Nat) : Working Byte := do
  let w ← get
  let a ← orFail (Byte.ofNat? (w.ip.toNat + offset)) .beyondMemory
  pure (w.memory.get a)

/-- The content of the register with this code. -/
def content (code : Byte) : Working Byte := do
  let r ← orFail (Register.ofCode? code) (.invalidRegister code)
  let w ← get
  pure (w.registers.get r)

/-- Write the byte to the register with this code. -/
def put (code b : Byte) : Working Unit := do
  let r ← orFail (Register.ofCode? code) (.invalidRegister code)
  modify (setRegister r b)

/-- The address `width` bytes after the instruction. -/
def successor (width : Nat) : Working Byte := do
  let w ← get
  orFail (Byte.ofNat? (w.ip.toNat + width)) .beyondMemory

def advance (width : Nat) : Working Unit := do
  let next ← successor width
  modify (setIp next)

def jump (distance : Byte) : Working Unit := do
  let w ← get
  let target ← orFail (Byte.ofInt? (w.ip.toNat + distance.signed)) .beyondMemory
  modify (setIp target)

def push (b : Byte) : Working Unit := do
  let w ← get
  let sp := w.registers.sp
  if sp = 0 then fail .stackOverflow
  else
    modify (setMemory sp b)
    modify (setSp (sp - 1))

def pop : Working Byte := do
  let w ← get
  let sp := w.registers.sp
  if stackBase ≤ sp then fail .stackUnderflow
  else
    modify (setSp (sp + 1))
    let w ← get
    pure (w.memory.get (sp + 1))

/-- The result of the operation; its flags are set. -/
def calculate (op : AluOp) (operand dest : Byte) : Working Byte := do
  let w ← get
  let (result, flags) ← orFail (op.operate? operand dest w.registers.sr) .divideByZero
  modify (setSr flags)
  pure result

/-- The channel that the operand names. -/
def channel : Working Byte := do
  let n ← fetch 1
  if maxChannel < n then fail (.invalidChannel n) else pure n

/-- Push the byte and go on at the address that memory holds at `vector`. -/
def enter (b vector : Byte) : Working Unit := do
  push b
  let w ← get
  modify (setIp (w.memory.get vector))

def signal (f : OutputSignals → OutputSignals) : Working Unit :=
  modify fun w => { w with signals := f w.signals }

/-! ## §3. Instructions. -/

/-- The arithmetic instruction of `width` bytes on the register with the code
`dest`. -/
def arithmetic (op : AluOp) (operand dest : Byte) (width : Nat) : Working Unit := do
  let b ← content dest
  let result ← calculate op operand b
  put dest result
  advance width

/-- Compare the register with the code `left` to a byte. -/
def compare (left right : Byte) : Working Unit := do
  let l ← content left
  let _ ← calculate (.binary .sub) right l
  advance 3

/-- Load the byte into the register with the code `dest`. -/
def load (dest b : Byte) : Working Unit := do
  put dest b
  advance 3

/-- Store the content of the register with the code `source` at the address. -/
def store (address source : Byte) : Working Unit := do
  let b ← content source
  modify (setMemory address b)
  advance 3

/-- The input instruction on the channel when `datum` is offered. -/
def receive (channel : Byte) (datum : Option InputDatum) : Working Unit :=
  match datum.filter fun d => d.channel = channel with
  | none => signal fun s => { s with waiting := some channel }
  | some d =>
    if d.content = InputDatum.skip then advance 2
    else do
      let b ← orFail (Byte.ofNat? d.content.toNat) (.invalidInput d.content)
      put Register.al.code b
      advance 2

/-- Execute an instruction with the opcode while `datum` is offered. -/
def exec (datum : Option InputDatum) : Opcode → Working Unit
  | .halt => signal fun s => { s with halted := true }
  | .binaryRegister op => do
    let dest ← fetch 1
    let source ← fetch 2
    let operand ← content source
    arithmetic (.binary op) operand dest 3
  | .binaryNumber op => do
    let dest ← fetch 1
    let operand ← fetch 2
    arithmetic (.binary op) operand dest 3
  | .unary op => do
    let dest ← fetch 1
    arithmetic (.unary op) 0 dest 2
  | .compareRegister => do
    let left ← fetch 1
    let right ← fetch 2
    let r ← content right
    compare left r
  | .compareNumber => do
    let left ← fetch 1
    let right ← fetch 2
    compare left right
  | .compareDirect => do
    let left ← fetch 1
    let address ← fetch 2
    let w ← get
    compare left (w.memory.get address)
  | .jump condition => do
    let distance ← fetch 1
    let w ← get
    if condition.holds w.registers.sr then jump distance else advance 2
  | .call => do
    let target ← fetch 1
    let back ← successor 2
    push back
    modify (setIp target)
  | .int => do
    let vector ← fetch 1
    let back ← successor 2
    enter back vector
  | .ret | .iret => do
    let back ← pop
    modify (setIp back)
  | .loadNumber => do
    let dest ← fetch 1
    let b ← fetch 2
    load dest b
  | .loadDirect => do
    let dest ← fetch 1
    let address ← fetch 2
    let w ← get
    load dest (w.memory.get address)
  | .loadIndirect => do
    let dest ← fetch 1
    let pointer ← fetch 2
    let address ← content pointer
    let w ← get
    load dest (w.memory.get address)
  | .storeDirect => do
    let address ← fetch 1
    let source ← fetch 2
    store address source
  | .storeIndirect => do
    let pointer ← fetch 1
    let source ← fetch 2
    let address ← content pointer
    store address source
  | .push => do
    let source ← fetch 1
    let b ← content source
    push b
    advance 2
  | .pop => do
    let dest ← fetch 1
    -- the register is looked up before the stack is touched
    let _ ← content dest
    let b ← pop
    put dest b
    advance 2
  | .pushf => do
    let w ← get
    push w.registers.sr.toByte
    advance 1
  | .popf => do
    let b ← pop
    modify (setSr (.ofByte b))
    advance 1
  | .input => do
    let channel ← channel
    receive channel datum
  | .output => do
    let channel ← channel
    let w ← get
    signal fun s => { s with datum := some ⟨w.registers.al, channel⟩ }
    advance 2
  | .sti => do
    let w ← get
    modify (setSr { w.registers.sr with interrupt := true })
    advance 1
  | .cli => do
    let w ← get
    modify (setSr { w.registers.sr with interrupt := false })
    advance 1
  | .clo => do
    signal fun s => { s with closeWindows := true }
    advance 1
  | .nop => advance 1

/-! ## §4. Steps. -/

/-- The copy with which a step begins. -/
def start (c : Core) : WorkingCopy := ⟨c.memory, c.registers, .none, [], c.registers.ip⟩

/-- Take the interrupt, or execute the instruction. -/
def work (input : InputSignals) : Working Unit := do
  let w ← get
  if input.interrupt && w.registers.sr.interrupt then enter w.ip interruptVector
  else
    let b ← fetch 0
    let op ← orFail (Opcode.ofByte? b) (.invalidOpcode b)
    exec input.datum op

/-- The step from the core on a copy of it, or why it fails. -/
def step (c : Core) (input : InputSignals) : Except Fault Step :=
  (work input (start c)).map fun (_, w) => ⟨⟨w.memory, w.registers⟩, w.signals, w.changes⟩

end WorkingCopy

end EightBit
