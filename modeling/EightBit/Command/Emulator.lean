/-
  EightBit.Command.Emulator
  ─────────────────────────
  **THE COMMAND `s8emu`.**

  Runs a source or a binary file and shows what happens.  Here the arguments are
  read, and the documents of the configuration.
-/
import EightBit.Command.Arguments
import EightBit.Command.Request
import EightBit.Emulator.Config

namespace EightBit.Command.Emulator

def options : List OptionSpec :=
  [ ⟨'t', "tmax".toList, true, true⟩, ⟨'d', "dump-cfg".toList, true, false⟩,
    ⟨'a', "dump-all".toList, false, false⟩, ⟨'i', "intr-cfg".toList, true, false⟩,
    ⟨'p', "port-cfg".toList, true, false⟩, ⟨'v', "vdu".toList, false, false⟩,
    ⟨'s', "snapshot".toList, true, false⟩ ]

/-- The line that shows the version. -/
def version : Text := "S8 Emulator 0.1.0".toList

/-- What the arguments ask for. -/
def Request.ofArguments (a : Arguments) : Request where
  input := a.positional.getD defaultInput
  limit := (a.value? "tmax").bind Text.Decimal.count?
  interrupts := a.value? "intr-cfg"
  channels := a.value? "port-cfg"
  views := a.value? "dump-cfg"
  everywhere := a.has "dump-all"
  display := a.has "vdu"
  snapshot := a.value? "snapshot"

/-- What a document says, if the bytes are one. -/
def readYaml {α : Type} (read : Yaml.Node → Option α) (bytes : List Byte) : Option α :=
  ((Text.Utf8.decode? bytes).bind Yaml.document?).bind read

/-- The readers of the command. -/
def yaml : Readers :=
  ⟨readYaml Config.interruptTimes?, readYaml Config.queues?, readYaml Config.views?⟩

def script (arguments : List Text) : Script :=
  match Arguments.parse options arguments with
  | .error .version => .say version fun _ => .done 0
  | .error .misuse => .done misuse
  | .ok a => runRequest yaml (.ofArguments a)

end EightBit.Command.Emulator
