/-
  EightBit.Machine.State
  ──────────────────────
  **THE STATE OF A RUN.**

  The core, what the last step signalled and changed, and whether the run is
  terminated from outside.  A run is over when it is terminated or halted,
  but a step from there is still defined.
-/
import EightBit.Machine.Step

namespace EightBit

/-- The state between two steps. -/
structure State where
  core : Core
  /-- What the last step signalled. -/
  signals : OutputSignals
  /-- Where the last step wrote, in order. -/
  changes : List Location
  /-- Whether the run is terminated from outside. -/
  terminated : Bool
  deriving DecidableEq, Repr

namespace State

/-- The state before the first step. -/
def initial (m : Memory) : State := ⟨.initial m, .none, [], false⟩

/-- Whether the run is over. -/
def isOver (s : State) : Bool := s.terminated || s.signals.halted

def terminate (s : State) : State := { s with terminated := true }

def exec (s : State) (input : InputSignals) : Except Fault State :=
  (s.core.step input).map fun t => ⟨t.core, t.signals, t.changes, s.terminated⟩

end State

end EightBit
