/-
  EightBit.Yaml.Token
  ───────────────────
  **THE TOKENS OF A DOCUMENT.**

  Lists, maps and texts have tokens, and so have the marks between documents.
  Anchors, aliases, tags, directives and block texts have none: a document
  that holds one has no reading.
-/
import EightBit.Text.Basic

namespace EightBit.Yaml

/-- A token of a document.  Lists and maps that are laid out by indentation are
opened and closed by tokens too, which stand for no characters. -/
inductive Token where
  /-- A list that is laid out by indentation begins. -/
  | openItems
  /-- A map that is laid out by indentation begins. -/
  | openEntries
  /-- A list or map that is laid out by indentation ends. -/
  | close
  | openBracket
  | closeBracket
  | openBrace
  | closeBrace
  | comma
  /-- An item of a list that is laid out by indentation begins. -/
  | item
  /-- The key of an entry begins. -/
  | key
  /-- The value of an entry begins. -/
  | value
  | scalar (quoted : Bool) (t : Text)
  /-- The mark before a document. -/
  | start
  /-- The mark after a document. -/
  | stop

end EightBit.Yaml
