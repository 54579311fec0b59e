/-
  EightBit.Command.Script
  ───────────────────────
  **WHAT A COMMAND DOES.**

  A script says what a command prints, reads and writes, and with which code
  it ends.  It can be performed on files in memory, which gives a transcript,
  or by a program on real ones.

  Main results:
    • `Disk.read?_write?` — what was written is read back;
    • `perform_sayAll`    — lines that are said come first in the transcript.
-/
import EightBit.Byte
import EightBit.OrderedMap
import EightBit.Text.Styled

namespace EightBit

/-! ## §1. Scripts. -/

/-- What a command does. -/
inductive Script where
  /-- End with this exit code. -/
  | done (code : Nat)
  /-- Print a line. -/
  | say (line : Text) (next : Unit → Script)
  /-- Read the bytes of a file, or learn why it cannot be read. -/
  | read (file : Text) (next : Except Text (List Byte) → Script)
  /-- Write the bytes to a file, or learn why it cannot be written. -/
  | write (file : Text) (bytes : List Byte) (next : Except Text Unit → Script)

namespace Script

/-- Print the lines, then go on. -/
def sayAll (lines : List Styled) (next : Unit → Script) : Script :=
  match lines with
  | [] => next ()
  | line :: rest => .say line.render fun _ => sayAll rest next

end Script

/-! ## §2. Files in memory. -/

/-- Files by name.  A directory is there when a file in it is. -/
abbrev Disk := OrderedMap Text (List Byte)

namespace Disk

/-- Why a file that is not there, or whose directory is not there, is of no
use. -/
def notFound : Text := "No such file or directory (os error 2)".toList

/-- The names of the directories and of the file that lie on the way to it; a dot
stays where one is. -/
def path (file : Text) : List Text :=
  (Text.fields '/' file).filter fun name => !name.isEmpty && name != ['.']

def name (file : Text) : Text := Text.joinWith ['/'] (path file)

def hasDirectory (disk : Disk) (directory : List Text) : Bool :=
  directory.isEmpty
    || disk.keys.any fun file =>
      directory.isPrefixOf (path file) && directory.length < (path file).length

def read? (disk : Disk) (file : Text) : Option (List Byte) := disk.get? (name file)

def write? (disk : Disk) (file : Text) (bytes : List Byte) : Option Disk :=
  if !(path file).isEmpty && disk.hasDirectory (path file).dropLast then
    some (disk.insert (name file) bytes)
  else none

/-- What was written is read back. -/
theorem read?_write? {disk disk' : Disk} {file : Text} {bytes : List Byte}
    (h : disk.write? file bytes = some disk') : disk'.read? file = some bytes := by
  unfold write? at h
  split at h
  · obtain rfl := Option.some.inj h
    rw [read?, OrderedMap.get?_insert, if_pos rfl]
  · exact absurd h (by simp)

end Disk

/-- What a script did. -/
structure Transcript where
  lines : List Text
  code : Nat
  disk : Disk

namespace Script

def perform (disk : Disk) : Script → Transcript
  | .done code => ⟨[], code, disk⟩
  | .say line next =>
    let t := (next ()).perform disk
    { t with lines := line :: t.lines }
  | .read file next =>
    match disk.read? file with
    | some bytes => (next (.ok bytes)).perform disk
    | none => (next (.error Disk.notFound)).perform disk
  | .write file bytes next =>
    match disk.write? file bytes with
    | some disk => (next (.ok ())).perform disk
    | none => (next (.error Disk.notFound)).perform disk

/-- Lines that are said come first in the transcript. -/
theorem perform_sayAll (disk : Disk) (lines : List Styled) (next : Unit → Script) :
    (sayAll lines next).perform disk
      = { (next ()).perform disk with
          lines := lines.map Styled.render ++ ((next ()).perform disk).lines } := by
  induction lines with
  | nil => rfl
  | cons line rest ih => simp [sayAll, perform, ih]

end Script

end EightBit
