/-
  EightBit.Yaml.Character
  ───────────────────────
  **THE CHARACTERS OF A DOCUMENT.**

  Which characters a document may hold, which of them end a line or stand
  between words, and which have a meaning of their own.
-/
import EightBit.Text.Basic

namespace EightBit.Yaml

/-! ## §1. Classes. -/

/-- Whether the character stands between words on one line: a space or a tab. -/
def isBlank (c : Char) : Bool := c = ' ' || c = '\t'

/-- Whether the character ends a line. -/
def isBreak (c : Char) : Bool := c = '\n' || c = '\u2028' || c = '\u2029'

/-- Whether no word goes on at the head of the text: it is empty, or begins with
a blank or a line end. -/
def startsGap : Text → Bool
  | [] => true
  | c :: _ => isBlank c || isBreak c

/-- Whether the character has a meaning of its own inside brackets. -/
def isBracketMark (c : Char) : Bool := c ∈ [',', '[', ']', '\x7b', '\x7d']

/-- Whether no text without quotes begins with the character. -/
def isIndicator (c : Char) : Bool :=
  isBracketMark c || c ∈ "#&*!|>%@`\x22\x27".toList

/-- Whether a document may hold the character: no control character but tab,
line ends and U+0085, and none of the noncharacters U+FFFE and U+FFFF. -/
def isAllowed (c : Char) : Bool :=
  let n := c.toNat
  c ∈ ['\t', '\n', '\r', '\u0085'] || (0x20 ≤ n && n ≤ 0x7E) || (0xA0 ≤ n && n ≤ 0xFFFD)
    || 0x10000 ≤ n

/-- Whether the text begins with three dashes or three dots, which separate
documents when they stand at the beginning of a line. -/
def startsDocumentMark (t : Text) : Bool :=
  (t.take 3 = "---".toList || t.take 3 = "...".toList) && startsGap (t.drop 3)

/-! ## §2. Line ends. -/

/-- The text with a newline for each carriage return, with or without a newline
after it, and for each U+0085. -/
def withNewlines : Text → Text
  | [] => []
  | c :: cs =>
    if c = '\r' ∧ cs.head? = some '\n' then withNewlines cs
    else (if c = '\r' ∨ c = '\u0085' then '\n' else c) :: withNewlines cs

/-- The text with newlines as line ends, if a document may hold it. -/
def readable? (t : Text) : Option Text :=
  if t.all isAllowed then some (withNewlines t) else none

end EightBit.Yaml
