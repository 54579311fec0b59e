/-
  EightBit.Emulator.Report
  ────────────────────────
  **WHAT A RUN PRINTS.**

  For every tick: the interrupt if it is raised, a line for the instruction,
  then what the step sent and asked for, and a table of registers where one
  is wanted.
-/
import EightBit.Emulator.Session
import EightBit.Isa.Disassembly
import EightBit.Program.Diagnostic

namespace EightBit.Report

/-! ## §1. Marks. -/

def notice (t : Text) : Styled := .paint (.strong .yellow) (.ofText t)

def warning (t : Text) : Styled := notice "warn".toList ++ .ofText (": ".toList ++ t)

def error (t : Text) : Styled := Diagnostic.errorWord ++ .ofText (": ".toList ++ t)

def channelDigits (channel : Byte) : Text := Text.Hex.ofNat channel.toNat

/-! ## §2. Registers, stack and memory. -/

/-- What to show after the instruction at an address. -/
structure View where
  stack : Bool
  /-- The addresses of the bytes to show. -/
  memory : List Byte
  deriving DecidableEq, Repr

/-- Where to show what. -/
structure Views where
  /-- What to show after the instruction at each address. -/
  atAddress : OrderedMap Byte View
  /-- Whether to show the registers after every other instruction. -/
  everywhere : Bool

def marked (s : State) (l : Location) (b : Byte) : Styled :=
  if s.changes.contains l then notice (Text.Hex.ofByte b) else .ofText (Text.Hex.ofByte b)

def cell (s : State) (l : Location) (name : Text) (b : Byte) : Styled :=
  .ofText (name ++ ": ".toList) ++ marked s l b

def registerRule : Styled := .ofText " +--------+--------+--------+--------+".toList

/-- The rule below the stack and the bytes of memory. -/
def listRule : Styled := .ofText " +-----------------------------------+".toList

def flagLetters (f : Flags) : Text :=
  [letter f.interrupt 'I', letter f.sign 'S', letter f.overflow 'O', letter f.zero 'Z']
where
  letter (set : Bool) (c : Char) : Char := if set then c else '-'

/-- Cells between bars. -/
def row (cells : List Styled) : Styled :=
  .ofText " | ".toList ++ .joinWith " | ".toList cells ++ .ofText " |".toList

def registerLines (s : State) : List Styled :=
  let rs := s.core.registers
  [ registerRule,
    row (Register.all.map fun r => cell s (.register r) r.name (rs.get r)),
    row [ cell s .ip "IP".toList rs.ip, cell s .sp "SP".toList rs.sp,
          cell s .sr "SR".toList rs.sr.toByte,
          .ofText (flagLetters rs.sr ++ "  ".toList) ],
    registerRule ]

def addressText (a : Byte) : Styled :=
  .ofText (" | ".toList ++ Text.Hex.ofByte a ++ " : ".toList)

/-- The stack, top first. -/
def stackLines (s : State) : List Styled :=
  let sp := s.core.registers.sp
  let addresses := (List.range' (sp.toNat + 1) (stackBase.toNat - sp.toNat)).map UInt8.ofNat
  (if sp = stackBase then
    [.ofText " | ".toList ++ .paint .dim (.ofText "stack empty".toList)] else [])
    ++ addresses.map (fun a => addressText a ++ .ofText (Text.Hex.ofByte (s.core.memory.get a)))
    ++ [listRule]

def memoryLines (s : State) : List Byte → List Styled
  | [] => []
  | addresses =>
    addresses.map (fun a => addressText a ++ marked s (.memory a) (s.core.memory.get a))
      ++ [listRule]

/-- What is shown of the state after the instruction at `ip`. -/
def viewLines (v : Views) (ip : Byte) (s : State) : List Styled :=
  match v.atAddress.get? ip with
  | some view =>
    registerLines s ++ (if view.stack then stackLines s else []) ++ memoryLines s view.memory
  | none => if v.everywhere then registerLines s else []

/-! ## §3. Ticks. -/

def interruptLine (taken : Bool) : Styled :=
  if taken then .paint (.strong .magenta) (.ofText ['!']) ++ .ofText " interrupt".toList
  else
    .paint (.colored .magenta) (.ofText ['!']) ++ .ofText " interrupt ".toList
      ++ .paint .dim (.ofText "(masked)".toList)

/-- The line for the step: time, address and instruction. -/
def traceLine (time : Nat) (c : Core) (taken : Bool) : Styled :=
  let ip := c.registers.ip
  .ofText ('[' :: (Text.decimal time).padLeft '0' 4 ++ "] ".toList ++ Text.Hex.ofByte ip
      ++ ": ".toList)
    ++ if taken then .paint (.strong .magenta) (.ofText "trap".toList)
      else Disassembly.line (c.memory.fromAddress ip)

def faultLines (f : Fault) (m : Memory) : List Styled :=
  let bar : Styled := .ofText "      ".toList ++ Diagnostic.margin "|"
  [ error f.cause.message,
    .ofText "     ".toList ++ Diagnostic.margin "-->" ++ .ofText " ".toList
      ++ .paint .underline (.ofText ("IP ".toList ++ Text.Hex.ofByte f.ip)),
    bar,
    .ofText "   ".toList
      ++ .paint (.colored .blue) (.ofText (Text.Hex.ofByte f.ip ++ " |".toList))
      ++ .ofText " ".toList ++ Disassembly.line (m.fromAddress f.ip),
    bar ]

/-- What the last step sent and asked for. -/
def signalLines (s : Session) : List Styled :=
  (s.state.signals.datum.toList.map fun d =>
    .ofText (" > port ".toList ++ channelDigits d.channel ++ ": ".toList)
      ++ .paint (.strong .red) (.ofText (Text.Hex.ofByte d.content)))
    ++ (if s.state.signals.closeWindows then
      [.ofText " > ".toList ++ .paint .dim (.ofText "close windows".toList)] else [])
    ++ s.starved?.toList.map fun channel =>
      warning ("waiting for input on port ".toList ++ channelDigits channel
        ++ " with nothing queued".toList)

def tickLines (v : Views) (t : Tick) : List Styled :=
  let core := t.before.state.core
  let taken := core.traps t.input
  (if t.input.interrupt then [interruptLine taken] else [])
    ++ [traceLine t.time core taken]
    ++ match t.outcome with
      | .error f => faultLines f core.memory
      | .ok s => signalLines s ++ viewLines v core.registers.ip s.state

/-! ## §4. The display. -/

/-- A byte of the display as a character: printable ASCII as itself, and a point
for the rest. -/
def displayChar (b : Byte) : Char :=
  if 0x20 ≤ b ∧ b < 0x7F then Char.ofNat b.toNat else '.'

def rowsOf16 (bytes : List Byte) : List (List Byte) :=
  (List.range ((bytes.length + 15) / 16)).map fun n => (bytes.drop (16 * n)).take 16

def displayLines (m : Memory) : List Styled :=
  let frame : Styled := .ofText (" +".toList ++ List.replicate 16 '-' ++ ['+'])
  frame
    :: (rowsOf16 m.display).map
        (fun r => .ofText (" |".toList ++ r.map displayChar ++ ['|']))
    ++ [frame]

end EightBit.Report
