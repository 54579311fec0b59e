/-
  EightBit.Proofs.Run.Stuttering
  ──────────────────────────────
  **WAITING IS STUTTERING.**

  An input instruction that is not served leaves the core as it is.  So whoever
  drives the machine may ask again as often as he likes, offer data for other
  channels in between, or raise interrupts that are masked: the machine reports the
  same channel each time, and nothing that comes later can tell whether it was asked
  before.

  Main results:
    • `exec_of_idle`   — one step that waits changes the signals only;
    • `exec_waitingOn` — a step from there is the step from the old state;
    • `trace_of_idle`  — any number of steps that wait, with any steps behind them;
    • `wait_stutters`  — waiting is stuttering.
-/
import EightBit.Machine.State
import EightBit.Proofs.Machine.Failure

namespace EightBit

/-! ## §1. Waiting. -/

/-- **The core is at an input instruction**, which has its operand in memory and
names a channel. -/
structure Core.AtInput (c : Core) (channel : Byte) : Prop where
  opcode : Opcode.ofByte? (c.memory.get c.registers.ip) = some .input
  operand : c.fetch 1 = .ok channel
  valid : channel ≤ maxChannel

/-- **The signals have nothing for an input on the channel**: they take no trap, and
what they offer, if anything, is on another channel. -/
structure Core.Idle (c : Core) (channel : Byte) (input : InputSignals) : Prop where
  masked : c.traps input = false
  unserved : ∀ content, input.datum ≠ some ⟨content, channel⟩

namespace State

/-- The states behind one step after another, if all of them succeed. -/
def trace (s : State) : List InputSignals → Except Fault (List State)
  | [] => .ok []
  | input :: inputs => do
    let next ← s.exec input
    let states ← next.trace inputs
    pure (next :: states)

/-- The state, when it waits on the channel. -/
def waitingOn (s : State) (channel : Byte) : State :=
  { s with signals := { OutputSignals.none with waiting := some channel }, changes := [] }

/-- **Stuttering.**  The signals, given one after another, lead through the states,
in which the machine waits on the channel; and nothing later depends on them. -/
structure Stutters (s : State) (channel : Byte) (inputs : List InputSignals)
    (states : List State) : Prop where
  /-- Every step succeeds. -/
  trace_eq : s.trace inputs = .ok states
  length_eq : states.length = inputs.length
  /-- Memory and registers are kept. -/
  core_eq : ∀ t ∈ states, t.core = s.core
  changes_eq : ∀ t ∈ states, t.changes = []
  /-- The channel is reported, and nothing else. -/
  signals_eq : ∀ t ∈ states, t.signals = { OutputSignals.none with waiting := some channel }
  terminated_eq : ∀ t ∈ states, t.terminated = s.terminated
  /-- A step from there, under any signals, is the step from the old state. -/
  exec_eq : ∀ t ∈ states, ∀ input, t.exec input = s.exec input
  /-- So are any steps from there, up to the failure if one fails. -/
  trace_append : ∀ rest, s.trace (inputs ++ rest) = (s.trace rest).map (states ++ ·)

/-! ## §2. One step. -/

variable {s : State} {channel : Byte} {input : InputSignals}

/-- **One step that waits changes the signals only.** -/
theorem exec_of_idle (hat : s.core.AtInput channel) (hidle : s.core.Idle channel input) :
    s.exec input = .ok (s.waitingOn channel) := by
  have hchannel : s.core.channel = .ok channel :=
    Core.channel_eq_ok_iff.2 ⟨hat.operand, UInt8.not_lt.2 hat.valid⟩
  have hexecutes : s.core.Executes input .input := ⟨hidle.masked, hat.opcode⟩
  have heffect : s.core.effect input
      = .ok ⟨[], { OutputSignals.none with waiting := some channel }⟩ := by
    rw [hexecutes.effect_eq]
    exact Core.exec_of_performs (.wait hchannel hidle.unserved)
  unfold exec Core.step
  rw [heffect]
  rfl

/-- A step looks at the core alone, and hands on whether the run is terminated. -/
theorem exec_waitingOn (s : State) (channel : Byte) (input : InputSignals) :
    (s.waitingOn channel).exec input = s.exec input := rfl

/-- So do any steps. -/
theorem trace_waitingOn (s : State) (channel : Byte) (inputs : List InputSignals) :
    (s.waitingOn channel).trace inputs = s.trace inputs := by
  cases inputs with
  | nil => rfl
  | cons input inputs =>
    unfold trace
    rw [exec_waitingOn]

/-! ## §3. Any number of steps. -/

/-- **Any number of steps that wait, with any steps behind them.** -/
theorem trace_of_idle (hat : s.core.AtInput channel) {inputs : List InputSignals}
    (hidle : ∀ input ∈ inputs, s.core.Idle channel input) (rest : List InputSignals) :
    s.trace (inputs ++ rest)
      = (s.trace rest).map (List.replicate inputs.length (s.waitingOn channel) ++ ·) := by
  -- the state that waits has the core of the old one, so it waits again
  induction inputs with
  | nil =>
    rw [List.nil_append]
    cases s.trace rest <;> rfl
  | cons input inputs ih =>
    have hfirst := exec_of_idle hat (hidle input List.mem_cons_self)
    have hothers := ih fun other hother => hidle other (List.mem_cons_of_mem _ hother)
    rw [List.cons_append, trace, hfirst, ok_bind, trace_waitingOn, hothers]
    cases s.trace rest <;> rfl

/-- **Waiting is stuttering.** -/
theorem wait_stutters (hat : s.core.AtInput channel) {inputs : List InputSignals}
    (hidle : ∀ input ∈ inputs, s.core.Idle channel input) :
    s.Stutters channel inputs (List.replicate inputs.length (s.waitingOn channel)) := by
  have hsame : ∀ t ∈ List.replicate inputs.length (s.waitingOn channel),
      t = s.waitingOn channel := by
    intro t ht
    exact List.eq_of_mem_replicate ht
  constructor
  case trace_eq =>
    have htrace := trace_of_idle hat hidle []
    rwa [List.append_nil, trace, Except.map, List.append_nil] at htrace
  case length_eq => exact List.length_replicate
  case core_eq | changes_eq | signals_eq | terminated_eq =>
    intro t ht
    rw [hsame t ht]
    rfl
  case exec_eq =>
    intro t ht input
    rw [hsame t ht, exec_waitingOn]
  case trace_append => exact trace_of_idle hat hidle

/-- An input on channel 3 at the first address. -/
def awaitingThird : State := .initial ((Memory.blank.set 0x00 0xF0).set 0x01 0x03)

/-- Nothing, a datum on another channel, and a masked interrupt with a datum that no
register could hold. -/
def unserving : List InputSignals :=
  [.none, ⟨some ⟨0x42, 0x04⟩, false⟩, ⟨some ⟨0x142, 0x00⟩, true⟩]

/-- None of this is seen in the step that reads the datum on channel 3. -/
theorem wait_stutters_unserving : awaitingThird.core.AtInput 0x03
    ∧ (∀ input ∈ unserving, awaitingThird.core.Idle 0x03 input)
    ∧ (awaitingThird.trace (unserving ++ [⟨some ⟨0x41, 0x03⟩, false⟩])).map
        (List.map fun t => (t.signals.waiting, t.core.registers.ip, t.core.registers.al))
      = .ok [(some 0x03, 0, 0), (some 0x03, 0, 0), (some 0x03, 0, 0), (none, 2, 0x41)] := by
  have hat : awaitingThird.core.AtInput 0x03 :=
    ⟨by decide +kernel, by decide +kernel, by decide⟩
  have hidle : ∀ input ∈ unserving, awaitingThird.core.Idle 0x03 input := by
    intro input hinput
    simp only [unserving, List.mem_cons, List.not_mem_nil, or_false] at hinput
    obtain rfl | rfl | rfl := hinput <;> exact ⟨by decide +kernel, by simp [InputSignals.none]⟩
  refine ⟨hat, hidle, ?_⟩
  rw [(wait_stutters hat hidle).trace_append]
  decide +kernel

end State

end EightBit
