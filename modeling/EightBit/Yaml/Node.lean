/-
  EightBit.Yaml.Node
  ──────────────────
  **DOCUMENTS AS TREES.**

  The tree of a configuration document, and its readings as numbers, truth
  values, lists and maps.  A reading is none when the tree has another shape
  or a number is out of range.
-/
import EightBit.Text.Decimal
import EightBit.Text.Hex

namespace EightBit.Yaml

/-- The tree of a document. -/
inductive Node where
  /-- Nothing: an empty document, or a node that is left out. -/
  | nothing
  /-- A text, with or without quotes. -/
  | scalar (quoted : Bool) (t : Text)
  | list (items : List Node)
  | map (entries : List (Node × Node))

/-! ## §1. Numbers and truth values. -/

/-- The value of digits of the given base, at least one. -/
def digits? (base : Nat) (t : Text) : Option Nat :=
  if t.isEmpty then none
  else
    t.foldlM (fun n c =>
      ((Text.Hex.digitValue? c).filter (· < base)).map (n * base + ·)) 0

/-- Whether the text is a zero with more digits after it, which is no number. -/
def isZeroPadded (t : Text) : Bool :=
  match t with
  | '0' :: d :: ds => (d :: ds).all Char.isDigit
  | _ => false

/-- The number that a text without quotes stands for: decimal, or in another
base after `0x`, `0o` or `0b`. -/
def number? (t : Text) : Option Nat :=
  let t := Text.Decimal.withoutPlus t
  match t with
  | '0' :: 'x' :: ds => digits? 16 ds
  | '0' :: 'o' :: ds => digits? 8 ds
  | '0' :: 'b' :: ds => digits? 2 ds
  | _ => if isZeroPadded t then none else Text.Decimal.value? t

namespace Node

/-- The node as a number of at most `max`. -/
def nat? (max : Nat) : Node → Option Nat
  | .scalar false t => (number? t).filter fun n => n ≤ max
  | _ => none

def byte? (n : Node) : Option Byte := (n.nat? 255).map UInt8.ofNat

/-- The node as a truth value. -/
def bool? : Node → Option Bool
  | .scalar false t =>
    if t ∈ ["true", "True", "TRUE"].map String.toList then some true
    else if t ∈ ["false", "False", "FALSE"].map String.toList then some false
    else none
  | _ => none

/-- The node as a text, which is how keys of fields are read; nothing is the empty
text. -/
def text? : Node → Option Text
  | .nothing => some []
  | .scalar _ t => some t
  | _ => none

/-! ## §2. Lists and maps. -/

/-- The node as a list of things; nothing is the empty list. -/
def list? {α : Type} (f : Node → Option α) : Node → Option (List α)
  | .nothing => some []
  | .list items => items.mapM f
  | _ => none

/-- The node as a map, in order of writing; nothing is the empty map. -/
def map? {α β : Type} (key : Node → Option α) (value : Node → Option β) :
    Node → Option (List (α × β))
  | .nothing => some []
  | .map entries => entries.mapM fun (k, v) => do
    let k ← key k
    let v ← value v
    pure (k, v)
  | _ => none

end Node

end EightBit.Yaml
