/-
  EightBit.Main
  ─────────────
  **THE COMMAND LINE.**

  Performs the script of a command on real files.  The first argument names
  the command.
-/
import EightBit.Command.Assembler
import EightBit.Command.Emulator

namespace EightBit.Main

/-- The wording of a failure of the file system. -/
def reason (e : IO.Error) : Text :=
  match e with
  | .noFileOrDirectory .. => Disk.notFound
  | e => (toString e).toList

/-- Performs the script, and returns its exit code. -/
def perform : Script → IO UInt32
  | .done code => pure (UInt32.ofNat code)
  | .say line next => do
    IO.println (String.ofList line)
    perform (next ())
  | .read file next => do
    match ← (IO.FS.readBinFile (String.ofList file)).toBaseIO with
    | .ok bytes => perform (next (.ok bytes.toList))
    | .error e => perform (next (.error (reason e)))
  | .write file bytes next => do
    match ← (IO.FS.writeBinFile (String.ofList file) ⟨bytes.toArray⟩).toBaseIO with
    | .ok () => perform (next (.ok ()))
    | .error e => perform (next (.error (reason e)))

end EightBit.Main

/-- Runs the command that the first argument names. -/
def main (arguments : List String) : IO UInt32 :=
  match arguments with
  | "s8asm" :: rest => EightBit.Main.perform (EightBit.Command.Assembler.script (rest.map String.toList))
  | "s8emu" :: rest => EightBit.Main.perform (EightBit.Command.Emulator.script (rest.map String.toList))
  | _ => pure (UInt32.ofNat EightBit.Command.misuse)
