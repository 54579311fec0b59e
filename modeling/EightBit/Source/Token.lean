/-
  EightBit.Source.Token
  ─────────────────────
  **TOKENS.**
-/
import EightBit.Isa.Register
import EightBit.Source.Span

namespace EightBit

/-- What kind of token it is. -/
inductive Token.Kind where
  | colon
  | comma
  /-- A word of hexadecimal digits. -/
  | number
  /-- A word that names a register. -/
  | register (r : Register)
  /-- A body in brackets. -/
  | address
  /-- A body in quotes. -/
  | string
  /-- Any other word. -/
  | ident
  deriving DecidableEq, Repr

/-- A token: a word's text is in upper case, an address's is the trimmed body,
a string's is the body with its escapes. -/
structure Token where
  kind : Token.Kind
  text : Text
  span : Span
  deriving DecidableEq, Repr

namespace Token

/-- Whether the token can begin a statement or name a label. -/
def isWord (t : Token) : Bool := t.kind = .number || t.kind = .ident

/-- How the token reads in a message. -/
def describe (t : Token) : Text :=
  match t.kind with
  | .colon | .comma | .ident => "`".toList ++ t.text ++ "`".toList
  | .number => "number `".toList ++ t.text ++ "`".toList
  | .register _ => "register `".toList ++ t.text ++ "`".toList
  | .address => "address `[".toList ++ t.text ++ "]`".toList
  | .string => "string \"".toList ++ t.text ++ "\"".toList

end Token

end EightBit
