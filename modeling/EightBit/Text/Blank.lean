/-
  EightBit.Text.Blank
  ───────────────────
  **BLANK CHARACTERS.**

  The characters with the Unicode property White_Space.  They separate
  tokens and are trimmed from the body of an address.
-/
import EightBit.Text.Basic

namespace EightBit.Text

/-! ## §1. The property. -/

/-- Whether the character has the property White_Space: tab to carriage
return, blank, next line, no-break space, ogham mark, the spaces U+2000 to
U+200A, line and paragraph separator, and three more spaces. -/
def isBlank (c : Char) : Bool :=
  let n := c.toNat
  (0x09 ≤ n && n ≤ 0x0D) || n == 0x20 || n == 0x85 || n == 0xA0 || n == 0x1680
    || (0x2000 ≤ n && n ≤ 0x200A) || n == 0x2028 || n == 0x2029 || n == 0x202F
    || n == 0x205F || n == 0x3000

/-! ## §2. Trimming. -/

def trimLeft (t : Text) : Text := t.dropWhile isBlank

def trimRight (t : Text) : Text := (t.reverse.dropWhile isBlank).reverse

/-- The text without the blanks at its two ends. -/
def trim (t : Text) : Text := trimRight (trimLeft t)

end EightBit.Text
