/-
  EightBit.Emulator.Session
  ─────────────────────────
  **A RUN WITH QUEUED INPUT AND TIMED INTERRUPTS.**

  A session is a state and the data still queued.  At each time it raises the
  interrupt if that is due, offers the head of the queue on which the last
  step waits, and makes a step.  A datum is not offered to a step that takes
  the interrupt, because such a step does not look at it.  The run is over
  when the state is, after a fault, when a step waits on an empty queue, or
  at the limit.

  A run is unfolded one step at a time.  The main loop, which calls hooks, goes
  through the same steps, whatever its hooks show on the way.
-/
import EightBit.Emulator.Queues
import EightBit.Machine.State

namespace EightBit

/-! ## §1. Sessions. -/

/-- A state and the data still queued. -/
structure Session where
  state : State
  queues : Queues

namespace Session

/-- The session before the first step. -/
def initial (m : Memory) (q : Queues) : Session := ⟨.initial m, q⟩

/-- The channel on which the last step waits, if nothing is queued there. -/
def starved? (s : Session) : Option Byte :=
  s.state.signals.waiting.filter fun channel => (s.queues.queue channel).isEmpty

/-- The datum to offer to the next step, with the queues without it, when the
interrupt is `raised`. -/
def offer (s : Session) (raised : Bool) : Option InputDatum × Queues :=
  match s.state.signals.waiting with
  | none => (none, s.queues)
  | some channel =>
    if s.state.core.traps ⟨none, raised⟩ then (none, s.queues)
    else
      match s.queues.take? channel with
      | none => (none, s.queues)
      | some (content, queues) => (some ⟨content, channel⟩, queues)

/-- The session, terminated if it is starved. -/
def settle (s : Session) : Session :=
  if s.starved?.isSome then { s with state := s.state.terminate } else s

end Session

/-! ## §2. Ticks. -/

/-- What happens at one time of a run. -/
structure Tick where
  time : Nat
  before : Session
  input : InputSignals
  /-- The session after the step, or why there is none. -/
  outcome : Except Fault Session

namespace Session

/-- What happens at the time, when interrupts are raised at `times`. -/
def tick (times : List Nat) (time : Nat) (s : Session) : Tick :=
  let raised := times.contains time
  let (datum, queues) := s.offer raised
  { time := time
    before := s
    input := ⟨datum, raised⟩
    outcome := (s.state.exec ⟨datum, raised⟩).map fun state => settle ⟨state, queues⟩ }

end Session

/-! ## §3. Runs. -/

/-- A run, unfolded one tick at a time. -/
inductive Run where
  /-- The run is over and leaves this session. -/
  | over (last : Session)
  | tick (t : Tick) (rest : Unit → Run)

namespace Run

def ticks : Run → List Tick
  | .over _ => []
  | .tick t rest => t :: (rest ()).ticks

def last : Run → Session
  | .over s => s
  | .tick _ rest => (rest ()).last

end Run

namespace Session

/-- The run from the session, from `time` on for at most `limit` steps.  A
fault leaves the session as it was before the step. -/
def run (times : List Nat) : (limit time : Nat) → Session → Run
  | 0, _, s => .over s
  | limit + 1, time, s =>
    let t := s.tick times time
    .tick t fun _ =>
      match t.outcome with
      | .error _ => .over s
      | .ok next => if next.state.isOver then .over next else run times limit (time + 1) next

end Session

end EightBit
