/-
  EightBit.Program.Diagnostic
  ───────────────────────────
  **SHOWING AN ERROR IN ITS SOURCE.**

  The message, the place, the source line and carets under what is wrong.
-/
import EightBit.Source.Error
import EightBit.Text.Lines
import EightBit.Text.Styled

namespace EightBit

/-- An error with what is needed to show it. -/
structure Diagnostic where
  message : Text
  file : Text
  position : Position
  /-- The source line on which the error starts. -/
  line : Text
  carets : Nat
  deriving DecidableEq, Repr

namespace Diagnostic

/-- Number of carets for a span with this text: the characters of its first
line, and at least one. -/
def caretCount (slice : Text) : Nat :=
  match Text.lines slice with
  | [] => 1
  | line :: _ => max line.length 1

/-- The error in the source of this name; none if its span starts inside a
character. -/
def ofError? (file source : Text) (e : SourceError) : Option Diagnostic :=
  (e.span.position? source).map fun position =>
    { message := e.cause.message
      file := file
      position := position
      line := (Text.lines source)[position.line]?.getD []
      carets := caretCount (e.span.slice source) }

def errorWord : Styled := .paint (.strong .red) (.ofText "error".toList)

def margin (t : String) : Styled := .paint (.colored .blue) (.ofText t.toList)

/-- The place, with line and column counted from one. -/
def place (d : Diagnostic) : Text :=
  d.file ++ ":".toList ++ Text.decimal (d.position.line + 1) ++ ":".toList
    ++ Text.decimal (d.position.column + 1)

def lines (d : Diagnostic) : List Styled :=
  [ errorWord ++ .ofText (": ".toList ++ d.message),
    .ofText "     ".toList ++ margin "-->" ++ .ofText " ".toList
      ++ .paint .underline (.ofText d.place),
    .ofText "      ".toList ++ margin "|",
    .ofText " ".toList
      ++ .paint (.colored .blue)
        (.ofText ((Text.decimal (d.position.line + 1)).padLeft ' ' 4 ++ " |".toList))
      ++ .ofText (' ' :: d.line),
    .ofText "      ".toList ++ margin "|"
      ++ .ofText (' ' :: List.replicate d.position.column ' ')
      ++ .paint (.strong .red) (.ofText (List.replicate d.carets '^')) ]

end Diagnostic

end EightBit
