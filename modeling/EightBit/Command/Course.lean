/-
  EightBit.Command.Course
  ───────────────────────
  **THE MAIN LOOP.**

  At each time the hooks make up the signals, a line tells which instruction is at
  hand, the step is made, and the hooks look at the state after it and hand it
  on.  The loop ends when that state is over, with a step that fails, or at the
  limit; then the hooks are called for the last time.

  The course of the loop is unfolded one turn at a time, so that what is done
  in a turn can be done before the next one begins.
-/
import EightBit.Command.Hook

namespace EightBit

/-- One turn of the loop. -/
structure Turn where
  time : Nat
  before : State
  /-- The signals that are given to the step. -/
  input : InputSignals
  /-- The state that the hooks hand on after the step, or why there is none. -/
  outcome : Except Fault State

/-- The course of the loop, unfolded one turn at a time. -/
inductive Course where
  /-- The loop is left with this state, and this is done at the end. -/
  | over (last : State) (actions : List Action)
  /-- A turn, and what is done in it. -/
  | turn (t : Turn) (actions : List Action) (rest : Unit → Course)

namespace Course

def turns : Course → List Turn
  | .over _ _ => []
  | .turn t _ rest => t :: (rest ()).turns

def last : Course → State
  | .over s _ => s
  | .turn _ _ rest => (rest ()).last

def leave (hooks : List Hook) (s : State) : Course := .over s (Hook.exitAll hooks s).actions

/-- The course of the loop from the state, from `time` on for at most `limit`
turns. -/
def run : (limit time : Nat) → List Hook → State → Course
  | 0, _, hooks, s => leave hooks s
  | limit + 1, time, hooks, s =>
    let asked := Hook.inputAll time s hooks .none
    let input := asked.value
    let traced := asked.actions ++ [.say (Report.traceLine time s.core (s.core.traps input))]
    match s.exec input with
    | .error f =>
      .turn ⟨time, s, input, .error f⟩
        (traced ++ (Report.faultLines f s.core.memory).map .say)
        fun _ => leave asked.hooks s
    | .ok next =>
      let seen := Hook.execAll time s.core.registers.ip asked.hooks next
      let next := seen.value
      .turn ⟨time, s, input, .ok next⟩ (traced ++ seen.actions)
        fun _ => if next.isOver then leave seen.hooks next else run limit (time + 1) seen.hooks next

end Course

/-! ## What is done. -/

namespace Script

/-- Do all this, then go on. -/
def act : List Action → (Unit → Script) → Script
  | [], next => next ()
  | .say line :: actions, next => .say line.render fun _ => act actions next
  | .save file bytes report :: actions, next =>
    .write file bytes fun result => .say (report result).render fun _ => act actions next

end Script

/-- The rule below everything. -/
def lastLine : Styled := .ofText (List.replicate 49 '=')

/-- Do what the hooks do in the course of the loop and at its end. -/
def Course.script : Course → Script
  | .over _ actions =>
    .act (.say (.ofText "[EXIT]".toList) :: actions ++ [.say lastLine]) fun _ => .done 0
  | .turn _ actions rest => .act actions fun _ => (rest ()).script

end EightBit
