/-
  EightBit.Program.LabelTable
  ───────────────────────────
  **THE LABELS OF A PROGRAM.**

  Labels in the order in which they first appear, by a declaration or by a
  use.  A label that is used and not declared has an entry but no address.

  Main results:
    • `address?_declare`   — a declared label has its address;
    • `address?_reference` — a use changes no address.
-/
import EightBit.OrderedMap
import EightBit.Source.Error

namespace EightBit

/-- What is known of a label. -/
structure LabelEntry where
  /-- The address of the declaration; it means nothing before that. -/
  address : Byte
  declared : Option Span
  /-- Where the label is used, in order. -/
  references : List Span
  deriving DecidableEq, Repr

namespace LabelEntry

/-- A label of which nothing is known. -/
def unknown : LabelEntry := ⟨0, none, []⟩

def address? (e : LabelEntry) : Option Byte := e.declared.map fun _ => e.address

end LabelEntry

/-- Labels in the order of first appearance. -/
abbrev LabelTable := OrderedMap Text LabelEntry

namespace LabelTable

def address? (t : LabelTable) (name : Text) : Option Byte :=
  (t.get? name).bind LabelEntry.address?

/-- The table after a declaration of the label, which must be its first. -/
def declare (t : LabelTable) (name : Text) (address : Byte) (span : Span) :
    Except SourceError LabelTable :=
  if (t.address? name).isSome then .error ⟨.duplicateLabel name, span⟩
  else
    .ok <| t.alter name fun e =>
      { e.getD .unknown with address := address, declared := some span }

def reference (t : LabelTable) (name : Text) (span : Span) : LabelTable :=
  t.alter name fun e =>
    let e := e.getD .unknown
    { e with references := e.references ++ [span] }

def referenceAll (t : LabelTable) (uses : List (Text × Span)) : LabelTable :=
  uses.foldl (fun t use => t.reference use.1 use.2) t

/-- A declared label has its address, and no other changes. -/
theorem address?_declare {t t' : LabelTable} {name other : Text} {address : Byte} {span : Span}
    (h : t.declare name address span = .ok t') :
    t'.address? other = if other = name then some address else t.address? other := by
  unfold declare at h
  split at h
  · exact absurd h (by simp)
  · injection h with h
    subst h
    simp only [address?, OrderedMap.get?_alter]
    split <;> rfl

/-- A use changes no address. -/
theorem address?_reference (t : LabelTable) (name other : Text) (span : Span) :
    (t.reference name span).address? other = t.address? other := by
  simp only [address?, reference, OrderedMap.get?_alter]
  split
  · next h =>
    subst h
    cases t.get? other <;> simp [LabelEntry.address?, LabelEntry.unknown]
  · rfl

end LabelTable

end EightBit
