/-
  EightBit.Yaml.Scalar
  ────────────────────
  **TEXTS WITH AND WITHOUT QUOTES.**

  A text may run over several lines.  What stands between two of its words is
  a gap: blanks on one line count as they are, one line end counts as a
  space, and of several line ends the first does not count.
-/
import EightBit.Text.Hex
import EightBit.Yaml.Place

namespace EightBit.Yaml

/-! ## §1. Gaps. -/

/-- What stands between two words of a text. -/
inductive Gap where
  /-- Blanks on one line, the latest first. -/
  | blanks (latest : Text)
  /-- Line ends: the first, if it counts, and those after it, the latest first. -/
  | breaks (first : Option Char) (latest : Text)

namespace Gap

/-- Nothing between two characters. -/
def empty : Gap := .blanks []

def isEmpty : Gap → Bool
  | .blanks [] => true
  | _ => false

/-- Whether a line ends in the gap. -/
def isBroken : Gap → Bool
  | .blanks _ => false
  | .breaks _ _ => true

/-- The gap with one more blank or line end; a blank next to a line end does not
count. -/
def add (g : Gap) (c : Char) : Gap :=
  match g with
  | .blanks latest => if isBreak c then .breaks (some c) [] else .blanks (c :: latest)
  | .breaks first latest => if isBreak c then .breaks first (c :: latest) else g

def text : Gap → Text
  | .blanks latest => latest.reverse
  | .breaks (some '\n') [] => [' ']
  | .breaks (some '\n') latest => latest.reverse
  | .breaks first latest => first.toList ++ latest.reverse

end Gap

/-! ## §2. Texts without quotes. -/

/-- Whether a text without quotes ends at the head: at a mark inside brackets, and
at a colon with a gap after it. -/
def endsPlain (inBrackets : Bool) : Text → Bool
  | [] => true
  | c :: cs => (c = ':' && startsGap cs) || (inBrackets && isBracketMark c)

/-- Whether the head is a colon that stands next to a mark inside brackets, where
it neither ends a text nor belongs to one. -/
def hasStrayColon (inBrackets : Bool) : Text → Bool
  | ':' :: c :: _ => inBrackets && (isBracketMark c || c = '?')
  | _ => false

/-- The text without quotes at the place, whether a line ends after it, and the
place of what follows.  After a line end, outside brackets, the text goes on
only in columns from `least` on. -/
def plainText? (inBrackets : Bool) (least : Nat) (p : Place) : Option (Text × Bool × Place) :=
  go .empty [] p.rest p.line p.column
where
  go (gap : Gap) (latest : Text) : Text → (line column : Nat) → Option (Text × Bool × Place)
    | [], line, column => some (latest.reverse, gap.isBroken, ⟨[], line, column⟩)
    | c :: cs, line, column =>
      let leaves := !inBrackets && column < least
      if isBreak c then go (gap.add c) latest cs (line + 1) 0
      else if isBlank c then
        if c = '\t' && gap.isBroken && column < least then none
        else go (gap.add c) latest cs line (column + 1)
      else if !gap.isEmpty && (leaves || c = '#' || (column = 0 && startsDocumentMark (c :: cs)))
      then some (latest.reverse, gap.isBroken, ⟨c :: cs, line, column⟩)
      else if hasStrayColon inBrackets (c :: cs) then none
      else if endsPlain inBrackets (c :: cs) then
        some (latest.reverse, gap.isBroken, ⟨c :: cs, line, column⟩)
      else go .empty (c :: gap.text.reverse ++ latest) cs line (column + 1)

/-! ## §3. Texts in quotes. -/

/-- What a character stands for after a backslash: a character, or how many digits
follow that give its number. -/
def escape? (c : Char) : Option (Char ⊕ Nat) :=
  match c with
  | '0' => some (.inl '\x00') | 'a' => some (.inl '\x07') | 'b' => some (.inl '\x08')
  | 't' => some (.inl '\t') | '\t' => some (.inl '\t') | 'n' => some (.inl '\n')
  | 'v' => some (.inl '\x0b') | 'f' => some (.inl '\x0c') | 'r' => some (.inl '\r')
  | 'e' => some (.inl '\x1b') | ' ' => some (.inl ' ') | '\x22' => some (.inl '\x22')
  | '/' => some (.inl '/') | '\\' => some (.inl '\\') | 'N' => some (.inl '\u0085')
  | '_' => some (.inl '\u00a0') | 'L' => some (.inl '\u2028') | 'P' => some (.inl '\u2029')
  | 'x' => some (.inr 2) | 'u' => some (.inr 4) | 'U' => some (.inr 8)
  | _ => none

/-- The text up to the closing quote, at a place after the opening one, and the
place of what follows.  A single quote is written twice inside single quotes;
a backslash begins an escape inside double quotes. -/
def quotedText? (quote : Char) (p : Place) : Option (Text × Place) :=
  go none .empty [] p.rest p.line p.column
where
  /-- The rest of the text; `number` holds how many digits of a character's number
  are missing, and the value of those before. -/
  go (number : Option (Nat × Nat)) (gap : Gap) (latest : Text) :
      Text → (line column : Nat) → Option (Text × Place)
    | [], _, _ => none
    | c :: cs, line, column =>
      let latest' := gap.text.reverse ++ latest
      match number with
      | some (missing, value) =>
        match Text.Hex.digitValue? c with
        | none => none
        | some d =>
          let value := value * 16 + d
          if missing > 1 then go (some (missing - 1, value)) .empty latest' cs line (column + 1)
          else if value.isValidChar then
            go none .empty (Char.ofNat value :: latest') cs line (column + 1)
          else none
      | none =>
        if isBreak c then go none (gap.add c) latest cs (line + 1) 0
        else if isBlank c then go none (gap.add c) latest cs line (column + 1)
        else if column = 0 && startsDocumentMark (c :: cs) then none
        else
          match cs with
          | d :: ds =>
            if quote = '\x27' && c = quote && d = quote then
              go none .empty (c :: latest') ds line (column + 2)
            else if c = quote then some (latest'.reverse, ⟨cs, line, column + 1⟩)
            else if quote = '\x22' && c = '\\' then
              if isBreak d then go none (.breaks none []) latest' ds (line + 1) 0
              else
                match escape? d with
                | none => none
                | some (.inl e) => go none .empty (e :: latest') ds line (column + 2)
                | some (.inr n) => go (some (n, 0)) .empty latest' ds line (column + 2)
            else go none .empty (c :: latest') (d :: ds) line (column + 1)
          | [] => if c = quote then some (latest'.reverse, ⟨[], line, column + 1⟩) else none

end EightBit.Yaml
