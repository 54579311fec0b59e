/-
  EightBit.Emulator.Snapshot
  ──────────────────────────
  **THE CORE AS A DOCUMENT.**

  Registers as fields and memory as sixteen rows of hexadecimal bytes.
-/
import EightBit.Emulator.Report
import EightBit.Machine.Core

namespace EightBit.Snapshot

/-- A truth value. -/
def boolText (b : Bool) : Text := (if b then "true" else "false").toList

def field (indent : Nat) (name : String) (value : Text) : Text :=
  List.replicate indent ' ' ++ name.toList ++ ": ".toList ++ value

def registerLines (rs : Registers) : List Text :=
  ["registers:".toList, "  gpr:".toList]
    ++ (Register.all.map fun r => "  - ".toList ++ Text.decimal (rs.get r).toNat)
    ++ [ field 2 "ip" (Text.decimal rs.ip.toNat),
         field 2 "sp" (Text.decimal rs.sp.toNat),
         "  sr:".toList,
         field 4 "zero" (boolText rs.sr.zero),
         field 4 "overflow" (boolText rs.sr.overflow),
         field 4 "sign" (boolText rs.sr.sign),
         field 4 "interrupt" (boolText rs.sr.interrupt) ]

def memoryLines (m : Memory) : List Text :=
  "memory:".toList
    :: (Report.rowsOf16 m.toList).map fun r =>
        "- ".toList ++ Text.joinWith [' '] (r.map Text.Hex.ofByte)

/-- The document. -/
def text (c : Core) : Text :=
  ((registerLines c.registers ++ memoryLines c.memory).map fun line => line ++ ['\n']).flatten

end EightBit.Snapshot
