/-
  EightBit.Program.Assembly
  ─────────────────────────
  **FROM STATEMENTS TO BYTES.**

  Statements are laid out first, which gives every label its address; then
  each instruction gets the distances of the labels it uses and its bytes are
  written at its address.  Of two bytes at one address the later stays.
-/
import EightBit.Machine.Memory
import EightBit.Program.Layout
import EightBit.Program.Parser

namespace EightBit

/-! ## §1. Distances. -/

/-- The operand with its distance from `address`, if it is a label; the label
must be declared, and not too far away. -/
def Operand.resolve (labels : LabelTable) (address : Byte) (o : Operand) :
    Except SourceError Operand :=
  match o.value with
  | .label name _ =>
    match labels.address? name with
    | none => .error ⟨.unknownLabel name, o.span⟩
    | some target =>
      let distance : Int := target.toNat - address.toNat
      if -128 ≤ distance ∧ distance ≤ 127 then
        .ok { o with value := .label name (some (Byte.ofInt distance)) }
      else .error ⟨.jumpDistance distance name, o.span⟩
  | _ => .ok o

/-- The instruction with the distances of its labels from `address`. -/
def Instruction.resolve (labels : LabelTable) (address : Byte) (i : Instruction) :
    Except SourceError Instruction :=
  (i.operands.mapM (Operand.resolve labels address)).map fun operands =>
    { i with operands := operands }

/-! ## §2. The assembled program. -/

/-- Bytes by address, in the order of writing. -/
abbrev Image := OrderedMap Byte Byte

/-- The image with the bytes written from the address on. -/
def Image.write (image : Image) (address : Nat) : List Byte → Image
  | [] => image
  | b :: bs => Image.write (image.insert (UInt8.ofNat address) b) (address + 1) bs

/-- The result of assembly. -/
structure Assembled where
  /-- The byte written at each address. -/
  image : Image
  /-- The instruction whose bytes start at each address, with its distances. -/
  instructions : OrderedMap Byte Instruction
  labels : LabelTable

namespace Assembled

/-- The result with the bytes of the instruction written at the address; an
instruction without bytes leaves no trace. -/
def place (p : Assembled) (address : Byte) (i : Instruction) (bytes : List Byte) : Assembled :=
  if bytes.isEmpty then p
  else
    { p with
      image := p.image.write address.toNat bytes
      instructions := p.instructions.insert address i }

/-- The result after the placed instructions. -/
def emit (p : Assembled) : List (Byte × Instruction) → Except SourceError Assembled
  | [] => .ok p
  | (address, i) :: rest =>
    match i.resolve p.labels address with
    | .error e => .error e
    | .ok i =>
      match i.encode with
      | .error e => .error e
      | .ok bytes => emit (p.place address i bytes) rest

/-- Memory at the start with the image in it. -/
def memory (p : Assembled) : Memory :=
  p.image.entries.foldl (fun m (address, b) => m.set address b) .blank

/-- Number of bytes up to the highest address of the image. -/
def length (p : Assembled) : Nat :=
  p.image.keys.foldl (fun n address => max n (address.toNat + 1)) 0

/-- What stands where no byte is written: zeros, and blanks in the display. -/
def unwritten : List Byte :=
  List.replicate displayStart.toNat 0
    ++ List.replicate (memorySize - displayStart.toNat) displayBlank

/-- The bytes of memory with the image in it, as a list. -/
def cells (p : Assembled) : List Byte :=
  p.image.entries.foldl (fun cells (address, b) => cells.set address.toNat b) unwritten

/-- The bytes of memory up to the highest address of the image. -/
def bytes (p : Assembled) : List Byte := p.cells.take p.length

end Assembled

/-! ## §3. Assembly. -/

/-- The program of the statements. -/
def assembleStatements (ss : List Statement) : Except SourceError Assembled :=
  match Layout.ofStatements 0 .empty ss with
  | .error e => .error e
  | .ok layout => Assembled.emit ⟨.empty, .empty, layout.labels⟩ layout.placed

/-- The program of the source. -/
def assemble (source : Text) : Except SourceError Assembled :=
  match parse source with
  | .error e => .error e
  | .ok ss => assembleStatements ss

end EightBit
