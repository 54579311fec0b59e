/-
  EightBit.Command.Assembler
  ──────────────────────────
  **THE COMMAND `s8asm`.**

  Assembles a source into a binary file and shows the listing if asked.
-/
import EightBit.Command.Arguments
import EightBit.Command.Source
import EightBit.Program.Listing

namespace EightBit.Command.Assembler

def options : List OptionSpec :=
  [⟨'o', "output".toList, true, false⟩, ⟨'d', "dump".toList, false, false⟩]

/-- The line that shows the version. -/
def version : Text := "s8asm 0.1.0".toList

def line (t : Text) : Styled := .ofText t

/-- How much was assembled. -/
def summary (p : Assembled) : Text :=
  "  ".toList ++ Text.decimal p.image.size ++ " bytes, ".toList
    ++ Text.decimal p.labels.size ++ " labels".toList

/-- Write the program to the file, and show the listing if it is wanted. -/
def writeBinary (source output : Text) (dump : Bool) (p : Assembled) : Script :=
  .sayAll [line "3. Write Binary".toList, line ("  > ".toList ++ output)] fun _ =>
    .write output p.bytes fun result =>
      match result with
      | .error reason =>
        .sayAll [fileError "Failed to write File" output reason] fun _ => .done failure
      | .ok () =>
        .sayAll (if dump then Listing.lines source p else []) fun _ => .done 0

def assembleFile (input output : Text) (dump : Bool) : Script :=
  .sayAll
    [line "S8 Assembler".toList, line "1. Read File".toList, line ("  < ".toList ++ input)]
    fun _ => readSource input fun source =>
      .sayAll [line "2. Assemble".toList] fun _ => assembleSource input source fun p =>
        .sayAll [line (summary p)] fun _ => writeBinary source output dump p

def script (arguments : List Text) : Script :=
  match Arguments.parse options arguments with
  | .error .version => .say version fun _ => .done 0
  | .error .misuse => .done misuse
  | .ok a =>
    let input := a.positional.getD defaultInput
    assembleFile input ((a.value? "output").getD (input ++ ".bin".toList)) (a.has "dump")

end EightBit.Command.Assembler
