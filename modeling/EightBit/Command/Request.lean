/-
  EightBit.Command.Request
  ────────────────────────
  **RUNNING WHAT IS ASKED FOR.**

  A request says which file to run, for how long, with which configuration, and
  what to show.  The files of the configuration are documents; how a document is
  read is left to readers.
-/
import EightBit.Command.Course
import EightBit.Text.Decimal

namespace EightBit.Command.Emulator

/-! ## §1. Requests. -/

/-- What is asked for. -/
structure Request where
  input : Text
  /-- The most steps to run, if there is a limit. -/
  limit : Option Nat
  /-- The file of the times of interrupts. -/
  interrupts : Option Text
  /-- The file of the data for channels. -/
  channels : Option Text
  /-- The file of what to show at which address. -/
  views : Option Text
  /-- Whether to show the registers everywhere. -/
  everywhere : Bool
  /-- Whether to show the display at the end. -/
  display : Bool
  /-- The file for the final state. -/
  snapshot : Option Text
  deriving DecidableEq, Repr

/-- The most steps to run; without a limit as many as can be counted. -/
def Request.steps (r : Request) : Nat := r.limit.getD Text.Decimal.maxCount

/-- How the files of a configuration are read. -/
structure Readers where
  /-- The times at which interrupts are raised. -/
  times? : List Byte → Option (List Nat)
  /-- The data for each channel. -/
  queues? : List Byte → Option Queues
  /-- What to show after the instruction at each address. -/
  views? : List Byte → Option (OrderedMap Byte Report.View)

/-- What a request has loaded from its files. -/
structure Setup where
  memory : Memory
  times : List Nat
  queues : Queues
  views : OrderedMap Byte Report.View

/-! ## §2. Loading. -/

def line (t : Text) : Styled := .ofText t

def isSource (file : Text) : Bool := ".asm".toList.isSuffixOf file

/-- Read the file into memory, and go on with it. -/
def loadMemory (file : Text) (next : Memory → Script) : Script :=
  if isSource file then
    readSource file fun source => assembleSource file source fun p => next p.memory
  else
    .read file fun result =>
      match result with
      | .error reason => cannotOpen file reason
      | .ok bytes => next (.ofBytes bytes)

def loadConfig {α : Type} (file : Option Text) (read : List Byte → Option α) (default : α)
    (next : α → Script) : Script :=
  match file with
  | none => next default
  | some file =>
    let fail (what : String) : Script :=
      .sayAll [Report.error (what.toList ++ ": ".toList ++ file)] fun _ => .done failure
    .read file fun result =>
      match result with
      | .error _ => fail "Failed to open file"
      | .ok bytes =>
        match read bytes with
        | none => fail "Failed to parse file"
        | some config => next config

/-! ## §3. Running. -/

def titleLines (file : Text) : List Styled :=
  let rule : Styled := line ("+".toList ++ List.replicate 47 '-' ++ "+".toList)
  [ line "S8 Emulator".toList, rule,
    line ("| ".toList ++ file.padRight 45 ++ " |".toList), rule ]

/-- The hooks of a request, in the order of their calls. -/
def Request.hooks (r : Request) (s : Setup) : List Hook :=
  [ .interrupts r.interrupts s.times, .channels r.channels s.queues,
    .dumps r.views ⟨s.views, r.everywhere⟩, .display r.display, .snapshot r.snapshot ]

/-- The hooks at the start, and the state that they hand on. -/
def Setup.start (s : Setup) (r : Request) : Round State :=
  Hook.initAll (r.hooks s) (.initial s.memory)

/-- **The course of the request.** -/
def Setup.course (s : Setup) (r : Request) : Course :=
  .run r.steps 0 (s.start r).hooks (s.start r).value

/-- What is done once memory is loaded. -/
def runFrom (readers : Readers) (r : Request) (memory : Memory) : Script :=
  .sayAll [line "[INIT]".toList] fun _ =>
    loadConfig r.interrupts readers.times? [] fun times =>
    loadConfig r.channels readers.queues? .empty fun queues =>
    loadConfig r.views readers.views? .empty fun views =>
      let s : Setup := ⟨memory, times, queues, views⟩
      .act ((s.start r).actions ++ [.say (line "[RUN]".toList)]) fun _ => (s.course r).script

def runRequest (readers : Readers) (r : Request) : Script :=
  .sayAll (titleLines r.input) fun _ => loadMemory r.input (runFrom readers r)

end EightBit.Command.Emulator
