/-
  EightBit.Source.Error
  ─────────────────────
  **WHAT CAN BE WRONG WITH A SOURCE.**

  An error is a cause and the span it is about.  The wording of every cause
  stands here.
-/
import EightBit.Isa.Form
import EightBit.Source.Span

namespace EightBit

namespace SourceError

/-- Why a source is refused. -/
inductive Cause where
  /-- A character that begins no token. -/
  | unexpectedCharacter (c : Char)
  /-- A bracket that is not closed on its line. -/
  | unterminatedAddress
  /-- A quote that is not closed on its line. -/
  | unterminatedString
  /-- Something that begins no statement. -/
  | statement (found : Text)
  /-- A label name with characters other than letters and underscores. -/
  | invalidLabel (name : Text)
  /-- The tokens run out before the directive that ends the program. -/
  | missingEnd
  /-- A number that is no byte. -/
  | invalidNumber (text : Text)
  /-- A bracket that holds neither number nor register. -/
  | invalidAddress (body : Text)
  /-- An operand of a kind that no form admits here. -/
  | operandType (expected : List OperandKind) (found : Text)
  | missingComma
  | duplicateLabel (name : Text)
  /-- A statement that does not fit before the end of memory. -/
  | endOfMemory
  /-- A label that is used and never declared. -/
  | unknownLabel (name : Text)
  /-- A label too far from the jump that uses it. -/
  | jumpDistance (distance : Int) (name : Text)
  deriving DecidableEq, Repr

/-- The names of the kinds, as a choice: `A`, `A or B`, `A, B or C`. -/
def kindChoice : List OperandKind → Text
  | [] => "nothing".toList
  | [k] => k.name
  | [k, l] => k.name ++ " or ".toList ++ l.name
  | k :: ks => k.name ++ ", ".toList ++ kindChoice ks

def Cause.message : Cause → Text
  | .unexpectedCharacter c =>
    "Unexpected character `".toList ++ [c] ++ "`".toList
      ++ (if c = '\x27' then ": strings are written with `\"`" else "").toList
  | .unterminatedAddress => "Unterminated address: expected `]`".toList
  | .unterminatedString => "Unterminated string: expected `\"`".toList
  | .statement found => "Expected a label or an instruction, found ".toList ++ found
  | .invalidLabel name =>
    "Invalid label `".toList ++ name ++ "`: only letters and underscores are allowed".toList
  | .missingEnd => "Expected `END` at the end of the program".toList
  | .invalidNumber text =>
    "Invalid number `".toList ++ text ++ "`: expected a hex value from 00 to FF".toList
  | .invalidAddress body =>
    "Invalid address `[".toList ++ body ++ "]`: expected a number or a register".toList
  | .operandType expected found =>
    "Expected ".toList ++ kindChoice expected ++ ", found ".toList ++ found
  | .missingComma => "Missing comma between operands".toList
  | .duplicateLabel name => "Duplicate label `".toList ++ name ++ "`".toList
  | .endOfMemory => "Program runs past the end of memory".toList
  | .unknownLabel name => "Label `".toList ++ name ++ "` does not exist".toList
  | .jumpDistance distance name =>
    "Jump distance ".toList ++ Text.decimalInt distance ++ " to `".toList ++ name
      ++ "` is out of range -128..=127".toList

end SourceError

/-- A cause and the span it is about. -/
structure SourceError where
  cause : SourceError.Cause
  span : Span
  deriving DecidableEq, Repr

end EightBit
