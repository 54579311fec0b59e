/-
  EightBit.Yaml.Place
  ───────────────────
  **PLACES IN A DOCUMENT.**

  A place is what is left to read together with its line and column, because
  the column of a token decides what it belongs to.
-/
import EightBit.Yaml.Character

namespace EightBit.Yaml

/-- A place in a document: the text from there on, with its line and column. -/
structure Place where
  rest : Text
  line : Nat
  column : Nat

namespace Place

/-- The beginning of the document. -/
def ofText (t : Text) : Place := ⟨t, 0, 0⟩

/-- The place `n` characters further on the same line. -/
def advance (n : Nat) (p : Place) : Place := ⟨p.rest.drop n, p.line, p.column + n⟩

def atDocumentMark (p : Place) : Bool := p.column = 0 && startsDocumentMark p.rest

/-- The place of the next token, after blanks, comments and line ends.  A tab is a
blank inside brackets; elsewhere it is one only when `tabs` is set, and on
the first line only, since it indents nothing.  A byte order mark at the
beginning of a line is no part of the text, but takes a column. -/
def toToken (inBrackets tabs : Bool) (p : Place) : Place :=
  go (inBrackets || tabs) false p.rest p.line p.column
where
  go (tabs comment : Bool) : Text → (line column : Nat) → Place
    | [], line, column => ⟨[], line, column⟩
    | c :: cs, line, column =>
      if isBreak c then go inBrackets false cs (line + 1) 0
      else if column = 0 && c = '\ufeff' then go tabs comment cs line 1
      else if comment || c = '#' then go tabs true cs line (column + 1)
      else if c = ' ' || (c = '\t' && tabs) then go tabs false cs line (column + 1)
      else ⟨c :: cs, line, column⟩

end Place

end EightBit.Yaml
