/-
  EightBit.Yaml.Outline
  ─────────────────────
  **TOKENS AND INDENTATION.**

  A document is read token by token, and the columns of its tokens tell where
  lists and maps begin and end.  That a text or a bracket was the key of an
  entry shows only at the colon after it: its place is kept as a candidate, and
  the colon puts the token for the key in front of it.
-/
import EightBit.Yaml.Scalar
import EightBit.Yaml.Token

namespace EightBit.Yaml

/-! ## §1. State of the reading. -/

/-- A place where the key of an entry may have begun. -/
structure Candidate where
  /-- Number of tokens before the place. -/
  tokens : Nat
  line : Nat
  column : Nat
  /-- Whether nothing but a key can stand there. -/
  required : Bool

/-- The longest key, in characters. -/
def maxKey : Nat := 1024

/-- The candidate, if its key can still end at the place: on the same line, and not
too far away.  None when it cannot but has to. -/
def Candidate.at? (p : Place) (c : Candidate) : Option (Option Candidate) :=
  if p.line = c.line && p.column ≤ c.column + maxKey then some (some c)
  else if c.required then none
  else some none

/-- A document that is read up to a place. -/
structure Outline where
  place : Place
  tokens : Array Token
  /-- The columns of the lists and maps that are open by indentation, the
  innermost first. -/
  columns : List Nat
  /-- The candidate inside the innermost bracket. -/
  candidate : Option Candidate
  /-- The candidates outside each open bracket, the innermost first. -/
  outer : List (Option Candidate)
  /-- Whether a key may begin at the next token. -/
  keyAllowed : Bool

namespace Outline

/-- A document of which nothing is read. -/
def ofText (t : Text) : Outline := ⟨.ofText t, #[], [], none, [], true⟩

def inBrackets (o : Outline) : Bool := !o.outer.isEmpty

/-- The first column after that of the innermost list or map. -/
def least (o : Outline) : Nat :=
  match o.columns with
  | [] => 0
  | column :: _ => column + 1

/-- The reading after a token of `width` characters on the same line. -/
def push (t : Token) (width : Nat) (o : Outline) : Outline :=
  { o with place := o.place.advance width, tokens := o.tokens.push t }

/-! ## §2. Indentation. -/

/-- A list or map that begins with `t` is opened at the column, unless one is open
at it or further in, or a bracket is open; `t` stands after the first
`tokens` tokens. -/
def openAt (column : Nat) (tokens : Nat) (t : Token) (o : Outline) : Outline :=
  if !o.inBrackets && o.least ≤ column then
    { o with
      columns := column :: o.columns
      tokens := o.tokens.insertIdxIfInBounds tokens t }
  else o

/-- Lists and maps at the column and further in are closed, unless a bracket is
open. -/
def closeFrom (column : Nat) (o : Outline) : Outline :=
  if o.inBrackets then o
  else
    { o with
      columns := o.columns.dropWhile (column ≤ ·)
      tokens := o.tokens ++ ((o.columns.takeWhile (column ≤ ·)).map fun _ => Token.close).toArray }

/-! ## §3. Candidates for keys. -/

/-- The reading with those candidates only that can still end at the place. -/
def keepCandidates? (o : Outline) : Option Outline := do
  let keep (c : Option Candidate) : Option (Option Candidate) :=
    match c with
    | none => some none
    | some c => c.at? o.place
  some { o with candidate := ← keep o.candidate, outer := ← o.outer.mapM keep }

/-- The reading without its innermost candidate, which must not be required. -/
def dropCandidate? (o : Outline) : Option Outline :=
  if o.candidate.any (·.required) then none else some { o with candidate := none }

/-- The reading with the place as the innermost candidate, if a key may begin there;
it has to be one at the column of the innermost list or map. -/
def noteCandidate? (o : Outline) : Option Outline :=
  if o.keyAllowed then
    o.dropCandidate?.map fun o =>
      let required := !o.inBrackets && o.columns.head? = some o.place.column
      { o with candidate := some ⟨o.tokens.size, o.place.line, o.place.column, required⟩ }
  else some o

/-! ## §4. Tokens. -/

/-- The reading after a mark between documents, which closes everything. -/
def documentMark? (t : Token) (o : Outline) : Option Outline :=
  (o.closeFrom 0).dropCandidate?.map fun o => { o.push t 3 with keyAllowed := false }

def openBracket? (t : Token) (o : Outline) : Option Outline :=
  o.noteCandidate?.map fun o =>
    { o.push t 1 with candidate := none, outer := o.candidate :: o.outer, keyAllowed := true }

def closeBracket? (t : Token) (o : Outline) : Option Outline :=
  o.dropCandidate?.map fun o =>
    { o.push t 1 with
      candidate := o.outer.head?.join, outer := o.outer.tail, keyAllowed := false }

def comma? (o : Outline) : Option Outline :=
  o.dropCandidate?.map fun o => { o.push .comma 1 with keyAllowed := true }

/-- The reading with the collection open that an indicator at the place belongs to:
outside brackets the indicator must stand where a key may begin. -/
def openHere? (t : Token) (o : Outline) : Option Outline :=
  if o.inBrackets then some o
  else if o.keyAllowed then some (o.openAt o.place.column o.tokens.size t)
  else none

/-- The reading after the dash of an item. -/
def item? (o : Outline) : Option Outline := do
  let o ← o.openHere? .openItems
  let o ← o.dropCandidate?
  some { o.push .item 1 with keyAllowed := true }

/-- The reading after the question mark of a key. -/
def key? (o : Outline) : Option Outline := do
  let o ← o.openHere? .openEntries
  let o ← o.dropCandidate?
  some { o.push .key 1 with keyAllowed := !o.inBrackets }

/-- The reading after the colon of a value: the candidate was a key, or the key began
with a question mark. -/
def value? (o : Outline) : Option Outline :=
  match o.candidate with
  | some c =>
    let o := { o with tokens := o.tokens.insertIdxIfInBounds c.tokens .key, candidate := none }
    some { (o.openAt c.column c.tokens .openEntries).push .value 1 with keyAllowed := false }
  | none =>
    (o.openHere? .openEntries).map fun o => { o.push .value 1 with keyAllowed := !o.inBrackets }

/-- The reading after a text without quotes; a key may begin after it if its line
has ended. -/
def plain? (o : Outline) : Option Outline := do
  let o ← o.noteCandidate?
  let (t, broken, place) ← plainText? o.inBrackets o.least o.place
  some { o.push (.scalar false t) 0 with place := place, keyAllowed := broken }

/-- The reading after a text in quotes. -/
def quoted? (quote : Char) (o : Outline) : Option Outline := do
  let o ← o.noteCandidate?
  let (t, place) ← quotedText? quote (o.place.advance 1)
  some { o.push (.scalar true t) 0 with place := place, keyAllowed := false }

/-- The reading after the token that begins with `c` before the text `cs`. -/
def token? (c : Char) (cs : Text) (o : Outline) : Option Outline :=
  if o.place.atDocumentMark then o.documentMark? (if c = '-' then .start else .stop)
  else if c = '[' then o.openBracket? .openBracket
  else if c = ']' then o.closeBracket? .closeBracket
  else if c = '\x7b' then o.openBracket? .openBrace
  else if c = '\x7d' then o.closeBracket? .closeBrace
  else if c = ',' then o.comma?
  else if c = '-' && startsGap cs then o.item?
  else if c = '?' && (o.inBrackets || startsGap cs) then o.key?
  else if c = ':' && (o.inBrackets || startsGap cs) then o.value?
  else if c = '\x22' || c = '\x27' then o.quoted? c
  else if isIndicator c || isBlank c then none
  else o.plain?

/-- The tokens up to the end of the document. -/
def tokens? : (fuel : Nat) → Outline → Option (Array Token)
  | 0, _ => none
  | fuel + 1, o => do
    let place := o.place.toToken o.inBrackets (!o.keyAllowed)
    let fresh := !o.inBrackets && o.place.line < place.line
    let o ← { o with place := place, keyAllowed := o.keyAllowed || fresh }.keepCandidates?
    match place.rest with
    | [] => (o.closeFrom 0).dropCandidate?.map (·.tokens)
    | c :: cs =>
      let o ← (o.closeFrom (place.column + 1)).token? c cs
      o.tokens? fuel

end Outline

/-- The tokens of the document, if it has any reading as such. -/
def tokens? (t : Text) : Option (List Token) :=
  ((Outline.ofText t).tokens? (t.length + 1)).map Array.toList

end EightBit.Yaml
