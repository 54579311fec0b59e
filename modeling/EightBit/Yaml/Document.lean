/-
  EightBit.Yaml.Document
  ──────────────────────
  **TREES FROM TOKENS.**

  The tokens of a document open and close its lists and maps, so its tree is
  read off them from left to right.  A node may be left out where an item, a
  key or a value is over at once.
-/
import EightBit.Yaml.Node
import EightBit.Yaml.Outline

namespace EightBit.Yaml

/-! ## §1. What may be left out. -/

/-- Whether the tokens go on with an entry or end the collection, which leaves out a
key or value that is laid out by indentation. -/
def endsPart : List Token → Bool
  | .key :: _ | .value :: _ | .close :: _ => true
  | _ => false

/-- Whether the tokens go on with an item, with an entry, or end the collection,
which leaves out an item that is laid out by indentation. -/
def endsItem : List Token → Bool
  | .item :: _ => true
  | ts => endsPart ts

/-- Whether the tokens go on after a comma or end the brackets, which leaves out a
value inside them. -/
def endsBracketPart : List Token → Bool
  | .comma :: _ | .closeBracket :: _ | .closeBrace :: _ => true
  | _ => false

/-- Whether the tokens go on with a value, after a comma, or end the brackets, which
leaves out a key inside them. -/
def endsBracketKey : List Token → Bool
  | .value :: _ => true
  | ts => endsBracketPart ts

/-! ## §2. Trees. -/

mutual

/-- The tree at the head of the tokens, and those after it.  A list in an entry may
stand at the column of the entry (`bare`): then nothing opens or closes it. -/
def node? : (fuel : Nat) → (bare : Bool) → List Token → Option (Node × List Token)
  | 0, _, _ => none
  | fuel + 1, bare, ts =>
    match ts with
    | .scalar quoted t :: ts =>
      some (if !quoted && t.isEmpty then .nothing else .scalar quoted t, ts)
    | .openBracket :: ts =>
      (bracketItems? fuel true ts).map fun (items, ts) => (.list items, ts)
    | .openBrace :: ts =>
      (bracketEntries? fuel true ts).map fun (entries, ts) => (.map entries, ts)
    | .openItems :: ts => (items? fuel ts).map fun (items, ts) => (.list items, ts)
    | .openEntries :: ts => (entries? fuel ts).map fun (entries, ts) => (.map entries, ts)
    | .item :: _ =>
      if bare then (bareItems? fuel ts).map fun (items, ts) => (.list items, ts) else none
    | _ => none

/-- The tree at the head of the tokens, or nothing if it is left out, and the tokens
after it. -/
def part? : (fuel : Nat) → (bare leftOut : Bool) → List Token → Option (Node × List Token)
  | 0, _, _, _ => none
  | fuel + 1, bare, leftOut, ts =>
    if leftOut then some (.nothing, ts) else node? fuel bare ts

/-- The items of a list that is laid out by indentation, and the tokens after it. -/
def items? : (fuel : Nat) → List Token → Option (List Node × List Token)
  | 0, _ => none
  | fuel + 1, ts =>
    match ts with
    | .item :: ts => do
      let leftOut := match ts with
        | .item :: _ | .close :: _ => true
        | _ => false
      let (item, ts) ← part? fuel false leftOut ts
      let (items, ts) ← items? fuel ts
      some (item :: items, ts)
    | .close :: ts => some ([], ts)
    | _ => none

/-- The items of a list that nothing closes, and the tokens after it. -/
def bareItems? : (fuel : Nat) → List Token → Option (List Node × List Token)
  | 0, _ => none
  | fuel + 1, ts =>
    match ts with
    | .item :: ts => do
      let (item, ts) ← part? fuel false (endsItem ts) ts
      let (items, ts) ← bareItems? fuel ts
      some (item :: items, ts)
    | ts => some ([], ts)

/-- The entries of a map that is laid out by indentation, and the tokens after it. -/
def entries? : (fuel : Nat) → List Token → Option (List (Node × Node) × List Token)
  | 0, _ => none
  | fuel + 1, ts =>
    match ts with
    | .key :: ts => do
      let (key, ts) ← part? fuel true (endsPart ts) ts
      let (value, ts) ← match ts with
        | .value :: ts => part? fuel true (endsPart ts) ts
        | ts => some (.nothing, ts)
      let (entries, ts) ← entries? fuel ts
      some ((key, value) :: entries, ts)
    | .close :: ts => some ([], ts)
    | _ => none

/-- The items up to the closing bracket, and the tokens after it; a comma stands
before each item but the `first`.  An item with a key is a map of one entry; if
the key is left out, what ends it does not count. -/
def bracketItems? :
    (fuel : Nat) → (first : Bool) → List Token → Option (List Node × List Token)
  | 0, _, _ => none
  | fuel + 1, first, ts =>
    match ts with
    | .closeBracket :: ts => some ([], ts)
    | ts => do
      let ts ← if first then some ts else match ts with
        | .comma :: ts => some ts
        | _ => none
      match ts with
      | .closeBracket :: ts => some ([], ts)
      | .key :: ts =>
        let (key, ts) ← match ts with
          | .value :: ts | .comma :: ts | .closeBracket :: ts => some (.nothing, ts)
          | ts => node? fuel false ts
        let (value, ts) ← match ts with
          | .value :: ts => part? fuel false (endsBracketPart ts) ts
          | ts => some (.nothing, ts)
        let (items, ts) ← bracketItems? fuel false ts
        some (.map [(key, value)] :: items, ts)
      | ts =>
        let (item, ts) ← node? fuel false ts
        let (items, ts) ← bracketItems? fuel false ts
        some (item :: items, ts)

/-- The entries up to the closing brace, and the tokens after it; a comma stands
before each entry but the `first`.  A text without a colon is a key without a
value. -/
def bracketEntries? :
    (fuel : Nat) → (first : Bool) → List Token → Option (List (Node × Node) × List Token)
  | 0, _, _ => none
  | fuel + 1, first, ts =>
    match ts with
    | .closeBrace :: ts => some ([], ts)
    | ts => do
      let ts ← if first then some ts else match ts with
        | .comma :: ts => some ts
        | _ => none
      match ts with
      | .closeBrace :: ts => some ([], ts)
      | .key :: ts =>
        let (key, ts) ← part? fuel false (endsBracketKey ts) ts
        let (value, ts) ← match ts with
          | .value :: ts => part? fuel false (endsBracketPart ts) ts
          | ts => some (.nothing, ts)
        let (entries, ts) ← bracketEntries? fuel false ts
        some ((key, value) :: entries, ts)
      | ts =>
        let (key, ts) ← node? fuel false ts
        let (entries, ts) ← bracketEntries? fuel false ts
        some ((key, .nothing) :: entries, ts)

end

/-! ## §3. Documents. -/

/-- The tree of the one document that the tokens hold, if they hold no other. -/
def ofTokens? (ts : List Token) : Option Node :=
  let fuel := 3 * ts.length + 3
  let content : Option (Node × List Token) :=
    match ts with
    | [] => some (.nothing, [])
    | .start :: ts =>
      let leftOut := match ts with
        | [] | .start :: _ | .stop :: _ => true
        | _ => false
      part? fuel false leftOut ts
    | ts => node? fuel false ts
  match content with
  | some (node, ts) =>
    let isStop : Token → Bool
      | .stop => true
      | _ => false
    if ts.all isStop then some node else none
  | none => none

/-- The tree of the document, if it is laid out correctly. -/
def document? (t : Text) : Option Node := do
  let t ← readable? t
  let ts ← tokens? t
  ofTokens? ts

end EightBit.Yaml
