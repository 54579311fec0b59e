/-
  EightBit.Emulator.Config
  ────────────────────────
  **CONFIGURATION OF A RUN.**

  Times of interrupts, data for channels, and what to show at which address,
  each read from a document.  Of two entries for one key the later counts.
-/
import EightBit.Emulator.Report
import EightBit.Text.Decimal
import EightBit.Yaml.Document

namespace EightBit.Config

open Yaml

/-- The map with the entries, of which a later one replaces an earlier one. -/
def toOrderedMap {ν : Type} (entries : List (Byte × ν)) : OrderedMap Byte ν :=
  entries.foldl (fun m e => m.insert e.1 e.2) .empty

/-- The times at which interrupts are raised, each once. -/
def interruptTimes? (n : Node) : Option (List Nat) :=
  (n.list? (Node.nat? Text.Decimal.maxCount)).map List.eraseDups

def datum? (n : Node) : Option UInt16 := (n.nat? 65535).map UInt16.ofNat

/-- The data for each channel. -/
def queues? (n : Node) : Option Queues :=
  (n.map? Node.byte? (Node.list? datum?)).map toOrderedMap

/-- The one value of the field, the default if it is left out, and none if it
is given twice. -/
def field? {α : Type} (fields : List (Text × Node)) (name : String) (default : α)
    (f : Node → Option α) : Option α :=
  match fields.filter fun e => e.1 = name.toList with
  | [] => some default
  | [e] => f e.2
  | _ => none

/-- What to show: a map of fields; unknown fields do not count. -/
def view? (n : Node) : Option Report.View := do
  let fields ← n.map? Node.text? some
  let stack ← field? fields "stack" false Node.bool?
  let memory ← field? fields "memory" [] (Node.list? Node.byte?)
  pure ⟨stack, memory⟩

/-- What to show after the instruction at each address. -/
def views? (n : Node) : Option (OrderedMap Byte Report.View) :=
  (n.map? Node.byte? view?).map toOrderedMap

end EightBit.Config
