/-
  EightBit.Command.Source
  ───────────────────────
  **READING A SOURCE FILE.**

  Both commands read sources and show what is wrong with them in the same
  way.
-/
import EightBit.Command.Script
import EightBit.Program.Assembly
import EightBit.Program.Diagnostic
import EightBit.Text.Utf8

namespace EightBit.Command

/-- The name of the source when none is given. -/
def defaultInput : Text := "main.asm".toList

def failure : Nat := 1

def misuse : Nat := 2

/-- A file that could not be used, and why. -/
def fileError (what : String) (file reason : Text) : Styled :=
  .paint (.strong .red) (.ofText what.toList)
    ++ .ofText (": ".toList ++ file ++ ": ".toList ++ reason)

/-- End because the file cannot be read. -/
def cannotOpen (file reason : Text) : Script :=
  .sayAll [fileError "Failed to open File" file reason] fun _ => .done failure

/-- Why bytes are no text. -/
def notText : Text := "stream did not contain valid UTF-8".toList

def readSource (file : Text) (next : Text → Script) : Script :=
  .read file fun result =>
    match result with
    | .error reason => cannotOpen file reason
    | .ok bytes =>
      match Text.Utf8.decode? bytes with
      | none => cannotOpen file notText
      | some source => next source

/-- Show what is wrong with the source, and end. -/
def refuse (file source : Text) (e : SourceError) : Script :=
  .sayAll ((Diagnostic.ofError? file source e).map Diagnostic.lines |>.getD [])
    fun _ => .done failure

def assembleSource (file source : Text) (next : Assembled → Script) : Script :=
  match assemble source with
  | .error e => refuse file source e
  | .ok p => next p

end EightBit.Command
