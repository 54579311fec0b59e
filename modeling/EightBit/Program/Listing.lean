/-
  EightBit.Program.Listing
  ────────────────────────
  **THE SOURCE BESIDE ITS BYTES.**

  A listing has a row for every source line, or a row for every instruction
  that starts on the line, and after them a row for every label.
-/
import EightBit.Program.Assembly
import EightBit.Text.Lines
import EightBit.Text.Styled

namespace EightBit.Listing

/-! ## §1. Rows. -/

/-- The bytes shown for an instruction. -/
structure Shown where
  address : Byte
  /-- The bytes at its first addresses, four at most. -/
  bytes : List Byte
  /-- Whether it has more bytes than are shown. -/
  more : Bool
  deriving DecidableEq, Repr

/-- A row of the listing's upper part. -/
structure Row where
  /-- The instruction of the row, if one starts on the line. -/
  shown : Option Shown
  /-- The number of the line, counted from one. -/
  number : Nat
  /-- The line, or nothing where a row above has it. -/
  text : Text
  deriving DecidableEq, Repr

def shown (p : Assembled) (address : Byte) (i : Instruction) : Shown where
  address := address
  bytes := (List.range (min i.size 4)).filterMap fun offset =>
    p.image.get? (address + UInt8.ofNat offset)
  more := i.size > 4

def startingOn (source : Text) (p : Assembled) (index : Nat) : List (Byte × Instruction) :=
  p.instructions.entries.filter fun (_, i) =>
    (i.span.position? source).map Position.line = some index

/-- The rows of a line: one per instruction, of which the first has the text,
or one without an instruction. -/
def lineRows (source : Text) (p : Assembled) (index : Nat) (text : Text) : List Row :=
  match startingOn source p index with
  | [] => [⟨none, index + 1, text⟩]
  | (address, i) :: more =>
    ⟨some (shown p address i), index + 1, text⟩
      :: more.map fun (address, i) => ⟨some (shown p address i), index + 1, []⟩

def rows (source : Text) (p : Assembled) : List Row :=
  ((Text.lines source).zipIdx.map fun (text, index) => lineRows source p index text).flatten

/-! ## §2. Layout on the page. -/

/-- The rule above and below the rows. -/
def ruler : Styled :=
  .ofText (List.replicate 17 '-' ++ ['+'] ++ List.replicate 45 '-')

def Row.line (r : Row) : Text :=
  "| ".toList ++ (Text.decimal r.number).padLeft ' ' 4 ++ ": ".toList ++ r.text

def Row.styled (r : Row) : Styled :=
  match r.shown with
  | none => .ofText (List.replicate 17 ' ' ++ r.line)
  | some s =>
    .ofText ['['] ++ .paint (.colored .cyan) (.ofText (Text.Hex.ofByte s.address))
      ++ .ofText ("] ".toList
        ++ Text.padRight 11 (Text.joinWith [' '] (s.bytes.map Text.Hex.ofByte))
        ++ (if s.more then ".." else "  ").toList ++ r.line)

def labelRow (name : Text) (entry : LabelEntry) : Styled :=
  .paint (.colored .green) (.ofText (name ++ [':']))
    ++ .ofText (' ' :: Text.Hex.ofByte entry.address)

def lines (source : Text) (p : Assembled) : List Styled :=
  ruler :: (rows source p).map Row.styled ++ ruler
    :: p.labels.entries.map fun (name, entry) => labelRow name entry

end EightBit.Listing
