/-
  EightBit.Command.Hook
  ─────────────────────
  **HOOKS.**

  A run is fed and watched by hooks.  A hook has something of its own, which it
  may change at every call.  It is called before the run, before each step,
  after each step that does not fail, and at the end; it prints lines or writes
  a file, and hands on the state, or the signals for the step, changed or not.
  Hooks are called one after another, and each is given what the one before it
  hands on.

  There are five: one raises interrupts, one feeds the channels and ends a run that
  waits in vain, and three show the registers, the display and the final state.
-/
import EightBit.Command.Source
import EightBit.Emulator.Snapshot
import EightBit.Text.Quoted

namespace EightBit

/-! ## §1. What a hook is. -/

/-- What a hook does besides what it hands on. -/
inductive Action where
  | say (line : Styled)
  /-- Write the bytes to a file, and say how that went. -/
  | save (file : Text) (bytes : List Byte) (report : Except Text Unit → Styled)

/-- A call of a hook. -/
structure Call (Own α : Type) where
  actions : List Action
  own : Own
  /-- What is handed on. -/
  value : α

/-- A hook; what it does not care about it hands on as it is. -/
structure Hook where
  /-- What the hook keeps between two calls. -/
  Own : Type
  own : Own
  init : Own → State → Call Own State := fun own s => ⟨[], own, s⟩
  /-- Before the step at the time, from the state. -/
  input : Own → Nat → State → InputSignals → Call Own InputSignals :=
    fun own _ _ signals => ⟨[], own, signals⟩
  /-- After the step at the time, of the instruction at the address. -/
  exec : Own → Nat → Byte → State → Call Own State
  exit : Own → State → Call Own State := fun own s => ⟨[], own, s⟩

/-- What hooks do one after another, what becomes of them, and what the last one
hands on. -/
structure Round (α : Type) where
  actions : List Action
  hooks : List Hook
  value : α

namespace Hook

/-- Call each hook in turn with what the one before it hands on. -/
def callAll {α : Type} (call : (h : Hook) → α → Call h.Own α) : List Hook → α → Round α
  | [], a => ⟨[], [], a⟩
  | h :: hooks, a =>
    let called := call h a
    let round := callAll call hooks called.value
    ⟨called.actions ++ round.actions, { h with own := called.own } :: round.hooks, round.value⟩

def initAll (hooks : List Hook) (s : State) : Round State :=
  callAll (fun h s => h.init h.own s) hooks s

def inputAll (time : Nat) (s : State) (hooks : List Hook) (signals : InputSignals) :
    Round InputSignals :=
  callAll (fun h signals => h.input h.own time s signals) hooks signals

def execAll (time : Nat) (ip : Byte) (hooks : List Hook) (s : State) : Round State :=
  callAll (fun h s => h.exec h.own time ip s) hooks s

def exitAll (hooks : List Hook) (s : State) : Round State :=
  callAll (fun h s => h.exit h.own s) hooks s

/-! ## §2. The hooks. -/

/-- The line for a configuration of `count` entries from the file, if there is
one. -/
def configLine (what : String) (count : Nat) (file : Option Text) : List Styled :=
  file.toList.map fun file =>
    .ofText (" * ".toList ++ what.toList ++ "[".toList ++ Text.decimal count ++ "] ".toList
      ++ Text.quoted file)

/-- Raises the interrupt at each of the times. -/
def interrupts (file : Option Text) (times : List Nat) : Hook where
  Own := List Nat
  own := times
  init times s := ⟨(configLine "Intr" times.length file).map .say, times, s⟩
  input times time s signals :=
    if times.contains time then
      ⟨[.say (Report.interruptLine s.core.registers.sr.interrupt)], times,
        { signals with interrupt := true }⟩
    else ⟨[], times, signals⟩
  exec times _ _ s := ⟨[], times, s⟩

/-- Feeds what is queued to the input instruction that waits, and shows what is
sent.  If nothing is queued for it the run is ended. -/
def channels (file : Option Text) (queues : Queues) : Hook where
  Own := Queues
  own := queues
  init queues s :=
    ⟨(configLine "Port" queues.total file ++ (Queues.unreadable queues).map fun channel =>
        Report.warning ("port ".toList ++ Text.Hex.ofByte channel ++ " is never read".toList)).map
          .say,
      queues, s⟩
  input queues _ s signals :=
    match s.signals.waiting with
    | none => ⟨[], queues, signals⟩
    | some channel =>
      -- a step that takes the interrupt does not look at the datum
      if s.core.traps signals then ⟨[], queues, signals⟩
      else
        match queues.take? channel with
        | none => ⟨[], queues, signals⟩
        | some (content, queues) => ⟨[], queues, { signals with datum := some ⟨content, channel⟩ }⟩
  exec queues _ _ s :=
    let session : Session := ⟨s, queues⟩
    ⟨(Report.signalLines session).map .say, queues,
      if session.starved?.isSome then s.terminate else s⟩

/-- Shows registers, stack and memory where that is wanted. -/
def dumps (file : Option Text) (views : Report.Views) : Hook where
  Own := Report.Views
  own := views
  init views s :=
    ⟨((if views.everywhere then [Styled.ofText " * Dump all".toList] else [])
        ++ configLine "Dump" views.atAddress.size file).map .say,
      views, s⟩
  exec views _ ip s := ⟨(Report.viewLines views ip s).map .say, views, s⟩

/-- Shows the display at the end. -/
def display (wanted : Bool) : Hook where
  Own := Bool
  own := wanted
  exec wanted _ _ s := ⟨[], wanted, s⟩
  exit wanted s :=
    ⟨(if wanted then Report.displayLines s.core.memory else []).map .say, wanted, s⟩

/-- How it went to write the file. -/
def savedLine (file : Text) : Except Text Unit → Styled
  | .error reason => Command.fileError "Failed to write File" file reason
  | .ok () => .ofText ("  > ".toList ++ file)

/-- Writes the final state to the file, if one is given. -/
def snapshot (file : Option Text) : Hook where
  Own := Option Text
  own := file
  exec file _ _ s := ⟨[], file, s⟩
  exit file s :=
    ⟨file.toList.map fun file =>
        .save file (Text.Utf8.encode (Snapshot.text s.core)) (savedLine file),
      file, s⟩

end Hook

end EightBit
