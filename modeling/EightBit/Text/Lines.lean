/-
  EightBit.Text.Lines
  ───────────────────
  **THE LINES OF A TEXT.**

  A line ends at a newline and loses one carriage return in front of it.
  What follows the last newline is a line if it is not empty, and keeps a
  carriage return at its end.
-/
import EightBit.Text.Basic

namespace EightBit.Text

/-- The lines of the text, without their line ends. -/
def lines : Text → List Text
  | [] => []
  | c :: cs =>
    if c = '\n' then [] :: lines cs
    else if c = '\r' ∧ cs.head? = some '\n' then lines cs
    else
      match lines cs with
      | [] => [[c]]
      | line :: rest => (c :: line) :: rest

/-- A carriage return is dropped in front of a newline and kept elsewhere. -/
example : lines "a\r\nb\r\r\n\nc\r".toList = ["a", "b\r", "", "c\r"].map String.toList := by
  decide

end EightBit.Text
