/-
  EightBit.Text.Quoted
  ────────────────────
  **NAMES IN QUOTES.**

  A name is shown between double quotes.  The quote, the backslash and the
  characters that do not show by themselves are written as escapes.
-/
import EightBit.Text.Graphic

namespace EightBit.Text

def quotedChar (c : Char) : Text :=
  if c = '\x22' ∨ c = '\\' then ['\\', c]
  else if c = '\n' then ['\\', 'n']
  else if c = '\r' then ['\\', 'r']
  else if c = '\t' then ['\\', 't']
  else if c = '\x00' then ['\\', '0']
  else if isGraphic c then [c]
  else "\\u\x7b".toList ++ lower (Hex.ofNat c.toNat) ++ "\x7d".toList

def quoted (t : Text) : Text := '\x22' :: (t.map quotedChar).flatten ++ ['\x22']

end EightBit.Text
