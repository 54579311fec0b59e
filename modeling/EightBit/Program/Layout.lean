/-
  EightBit.Program.Layout
  ───────────────────────
  **WHERE STATEMENTS GO.**

  A cursor runs through the statements: it is the address of the next byte.
  An instruction moves it by its size, ORG sets it, and a label takes it as
  its address.  An instruction must fit before the end of memory, and only
  the last one may end there.
-/
import EightBit.Program.LabelTable
import EightBit.Program.Statement

namespace EightBit

/-- Number of bytes of memory. -/
def memorySize : Nat := 256

/-- The cursor after the statement. -/
def Statement.advance (cursor : Nat) : Statement → Nat
  | .label .. => cursor
  | .instruction i =>
    if i.mnemonic = .org then
      match i.origin? with
      | some origin => origin.toNat
      | none => cursor
    else cursor + i.size

/-- Labels, and the instructions that place bytes with their addresses. -/
structure Layout where
  labels : LabelTable
  placed : List (Byte × Instruction)

namespace Layout

/-- The layout of the statements, with the labels known before them and the
cursor in front of them. -/
def ofStatements (cursor : Nat) (labels : LabelTable) :
    List Statement → Except SourceError Layout
  | [] => .ok ⟨labels, []⟩
  | s :: rest =>
    let next := s.advance cursor
    match s with
    | .label name span =>
      match labels.declare name (UInt8.ofNat cursor) span with
      | .error e => .error e
      | .ok labels => ofStatements next labels rest
    | .instruction i =>
      if i.mnemonic = .org then ofStatements next labels rest
      else if next > memorySize ∨ (next = memorySize ∧ rest ≠ []) then
        .error ⟨.endOfMemory, i.span⟩
      else
        (ofStatements next (labels.referenceAll i.references) rest).map fun layout =>
          { layout with placed := (UInt8.ofNat cursor, i) :: layout.placed }

end Layout

end EightBit
