/-
  EightBit.Proofs.Run.Input
  ─────────────────────────
  **NO DATUM IS LOST.**

  A datum leaves its queue before the step that is to read it is made, only
  because the last step was an input instruction that waited.  That is enough:
  an instruction that waits leaves the core as it is, so it is executed again,
  and nothing is offered to a step that takes an interrupt instead.  So every
  datum that leaves a queue is read by an input instruction on its channel, and
  what was read and what is queued are always what was configured.

  Main results:
    • `ready_of_tick`      — a session that waits stands on its input instruction;
    • `conserved_of_ticks` — the queues of a run, from any session that is ready;
    • `run_conserves`      — the queues of a run from the start.
-/
import EightBit.Emulator.Session
import EightBit.Proofs.Machine.Effect

namespace EightBit

/-! ## §1. What is read, and what is left. -/

/-- The step executes an input instruction on the channel. -/
def Core.Reads (c : Core) (input : InputSignals) (channel : Byte) : Prop :=
  c.Executes input .input ∧ c.channel = .ok channel

instance (c : Core) (input : InputSignals) (channel : Byte) :
    Decidable (c.Reads input channel) := inferInstanceAs (Decidable (_ ∧ _))

namespace Tick

/-- The queues without the datum that is offered. -/
def left (t : Tick) : Queues := (t.before.offer t.input.interrupt).2

/-- What is handed to an input instruction on the channel. -/
def handed (t : Tick) (channel : Byte) : List UInt16 :=
  if t.before.state.core.Reads t.input channel then
    ((t.input.datum.filter fun d => d.channel = channel).map InputDatum.content).toList
  else []

/-- The datum on the channel leaves its queue. -/
structure Takes (t : Tick) (content : UInt16) (channel : Byte) : Prop where
  queue : t.before.queues.queue channel = content :: t.left.queue channel
  other : ∀ p, p ≠ channel → t.left.queue p = t.before.queues.queue p
  datum : t.input.datum = some ⟨content, channel⟩
  reads : t.before.state.core.Reads t.input channel

end Tick

/-- An input instruction reads the datum: it is behind the instruction, and the
content is in the register, unless it says to leave that alone.  Nothing else
has changed. -/
structure Core.Received (c : Core) (content : UInt16) (c' : Core) : Prop where
  ip_eq : c'.registers.ip.toNat = c.registers.ip.toNat + 2
  skip : content = InputDatum.skip → c'.registers.al = c.registers.al
  al_eq : content ≠ InputDatum.skip → c'.registers.al.toNat = content.toNat
  other : c' = { c with registers :=
    { c.registers with al := c'.registers.al, ip := c'.registers.ip } }

/-- **No datum is lost** up to the tick `t`, which stands behind the ticks `ts`
and in front of the ticks `rest` in a run that started with the queues. -/
structure Conserved (q : Queues) (ts : List Tick) (t : Tick) (rest : List Tick) : Prop where
  before : ∀ p, q.queue p = ts.flatMap (·.handed p) ++ t.before.queues.queue p
  after : ∀ p, q.queue p = (ts ++ [t]).flatMap (·.handed p) ++ t.left.queue p
  /-- What is left is what the next session starts with. -/
  next : ∀ s, t.outcome = .ok s → s.queues = t.left
  /-- A datum that leaves its queue is read, or the run ends with a fault. -/
  taken : ∀ p, t.left.queue p ≠ t.before.queues.queue p → ∃ content, t.Takes content p
    ∧ ((∃ s, t.outcome = .ok s ∧ t.before.state.core.Received content s.state.core
        ∧ s.state.signals = .none)
      ∨ ∃ f, t.outcome = .error f ∧ rest = [])

namespace Session

variable {s next : Session} {raised : Bool} {times : List Nat} {time : Nat}

/-! ## §2. Waiting. -/

/-- If the last step waits, the instruction pointer is on an input instruction
with that channel. -/
def Ready (s : Session) : Prop := ∀ channel, s.state.signals.waiting = some channel →
  Opcode.ofByte? (s.state.core.memory.get s.state.core.registers.ip) = some .input
    ∧ s.state.core.channel = .ok channel

theorem ready_initial (m : Memory) (q : Queues) : (initial m q).Ready := by
  intro channel hwaiting
  exact absurd hwaiting (by simp [initial, State.initial, OutputSignals.none])

@[simp] theorem queues_settle (s : Session) : s.settle.queues = s.queues := by
  unfold settle
  split <;> rfl

@[simp] theorem core_settle (s : Session) : s.settle.state.core = s.state.core := by
  unfold settle
  split <;> rfl

@[simp] theorem signals_settle (s : Session) : s.settle.state.signals = s.state.signals := by
  unfold settle
  split <;> rfl

/-- A tick that does not fail makes a step, and goes on with the queues that are
left. -/
theorem outcome_tick_eq_ok (h : (s.tick times time).outcome = .ok next) :
    ∃ step, s.state.core.step (s.tick times time).input = .ok step
      ∧ next.queues = (s.tick times time).left ∧ next.state.core = step.core
      ∧ next.state.signals = step.signals := by
  obtain ⟨state, hstate, rfl⟩ := map_eq_ok_iff.1 h
  obtain ⟨step, hstep, rfl⟩ := map_eq_ok_iff.1 hstate
  exact ⟨step, hstep, queues_settle _, core_settle _, signals_settle _⟩

end Session

/-- Only an input instruction waits, and it changes nothing. -/
theorem Core.reads_of_waiting {c : Core} {input : InputSignals} {step : Step} {channel : Byte}
    (h : c.step input = .ok step) (hwaiting : step.signals.waiting = some channel) :
    step.core = c ∧ c.Reads input channel := by
  obtain ⟨e, hsteps, rfl⟩ := Core.steps_of_step h
  cases hsteps with
  | trap _ _ => exact absurd hwaiting (by simp [Effect.silent, OutputSignals.none])
  | instruction hop hperforms =>
    -- of all rules only one signals that it waits
    cases hperforms with
    | wait hchannel _ =>
      obtain rfl := Option.some.inj hwaiting
      exact ⟨rfl, hop, hchannel⟩
    | _ => exact absurd hwaiting (by simp [Effect.silent, OutputSignals.none])

namespace Session

variable {s next : Session} {times : List Nat} {time : Nat} {channel : Byte}

/-- After a tick a session that waits stands on its input instruction, whatever
it waited for before. -/
theorem ready_of_tick (h : (s.tick times time).outcome = .ok next) : next.Ready := by
  intro channel hwaiting
  obtain ⟨step, hstep, -, hcore, hsignals⟩ := outcome_tick_eq_ok h
  rw [hsignals] at hwaiting
  obtain ⟨hsame, ⟨-, hop⟩, hchannel⟩ := Core.reads_of_waiting hstep hwaiting
  rw [hcore, hsame]
  exact ⟨hop, hchannel⟩

/-! ## §3. One tick. -/

/-- Either nothing is offered and the queues stay as they are, or the last step
waits, no interrupt is taken, and the head of the queue is offered. -/
theorem offer_cases (s : Session) (raised : Bool) : s.offer raised = (none, s.queues)
    ∨ ∃ content channel queues, s.state.signals.waiting = some channel
      ∧ s.state.core.traps ⟨none, raised⟩ = false
      ∧ s.queues.take? channel = some (content, queues)
      ∧ s.offer raised = (some ⟨content, channel⟩, queues) := by
  unfold offer
  split
  · exact Or.inl rfl
  · next channel hwaiting =>
    split
    · exact Or.inl rfl
    · next htraps =>
      split
      · exact Or.inl rfl
      · next content queues htake =>
        exact Or.inr ⟨content, channel, queues, hwaiting, by simpa using htraps, htake, rfl⟩

/-- In a session that is ready, what is offered is read. -/
theorem takes_of_ready (hready : s.Ready) (times : List Nat) (time : Nat) :
    ((s.tick times time).input.datum = none ∧ (s.tick times time).left = s.queues)
      ∨ ∃ content channel, (s.tick times time).Takes content channel := by
  have hinput : (s.tick times time).input.datum = (s.offer (times.contains time)).1 := rfl
  have hleft : (s.tick times time).left = (s.offer (times.contains time)).2 := rfl
  rcases s.offer_cases (times.contains time) with
    hnone | ⟨content, channel, queues, hwaiting, htraps, htake, hsome⟩
  · rw [hinput, hleft, hnone]
    exact Or.inl ⟨rfl, rfl⟩
  · -- the instruction that waited is still there, and no interrupt comes first
    obtain ⟨hop, hchannel⟩ := hready channel hwaiting
    rw [hsome] at hinput hleft
    refine Or.inr ⟨content, channel, ?_, ?_, hinput, ⟨htraps, hop⟩, hchannel⟩
    · rw [hleft]
      exact Queues.queue_take? htake
    · intro p hp
      rw [hleft]
      exact Queues.queue_take?_of_ne htake hp

end Session

namespace Tick

variable {t : Tick} {content : UInt16} {channel p : Byte}

theorem handed_of_none (h : t.input.datum = none) (p : Byte) : t.handed p = [] := by
  unfold handed
  rw [h]
  split <;> rfl

theorem Takes.handed_self (h : t.Takes content channel) : t.handed channel = [content] := by
  rw [handed, if_pos h.reads, h.datum]
  simp

theorem Takes.handed_of_ne (h : t.Takes content channel) (hp : p ≠ channel) :
    t.handed p = [] := by
  unfold handed
  rw [h.datum]
  split <;> simp [hp.symm]

end Tick

/-- An input instruction that is offered the datum reads it. -/
theorem Core.Reads.received {c : Core} {input : InputSignals} {content : UInt16} {channel : Byte}
    {step : Step} (h : c.Reads input channel) (hdatum : input.datum = some ⟨content, channel⟩)
    (hstep : c.step input = .ok step) : c.Received content step.core ∧ step.signals = .none := by
  obtain ⟨hop, hchannel⟩ := h
  obtain ⟨e, hperforms, rfl⟩ := hop.performs hstep
  rw [hdatum] at hperforms
  cases hperforms with
  | wait hchannel' hno =>
    -- it does not wait: the datum is on its channel
    rw [hchannel] at hchannel'
    obtain rfl := Except.ok.inj hchannel'
    exact absurd rfl (hno content)
  | skip _ hdatum' hnext =>
    obtain ⟨rfl, -⟩ := InputDatum.mk.inj (Option.some.inj hdatum')
    exact ⟨⟨successor_eq_ok_iff.1 hnext, fun _ => rfl, fun hskip => absurd rfl hskip, rfl⟩, rfl⟩
  | receive _ hdatum' hskip hb hnext =>
    obtain ⟨rfl, -⟩ := InputDatum.mk.inj (Option.some.inj hdatum')
    exact ⟨⟨successor_eq_ok_iff.1 hnext, fun h => absurd h hskip, fun _ => hb, rfl⟩, rfl⟩

namespace Session

variable {s next : Session} {times : List Nat} {time : Nat}

/-- **One tick.**  What is queued is handed out, or still queued. -/
theorem queue_eq_handed_append (hready : s.Ready) (times : List Nat) (time : Nat) (p : Byte) :
    s.queues.queue p
      = (s.tick times time).handed p ++ (s.tick times time).left.queue p := by
  rcases takes_of_ready hready times time with ⟨hnone, hleft⟩ | ⟨content, channel, htakes⟩
  · rw [Tick.handed_of_none hnone, hleft]
    rfl
  · by_cases hp : p = channel
    · subst hp
      rw [htakes.handed_self]
      exact htakes.queue
    · rw [htakes.handed_of_ne hp, htakes.other p hp]
      rfl

/-- A datum that leaves its queue is read, or there is a fault. -/
theorem takes_of_queue_ne (hready : s.Ready) {p : Byte}
    (hp : (s.tick times time).left.queue p ≠ s.queues.queue p) :
    ∃ content, (s.tick times time).Takes content p
      ∧ ∀ next, (s.tick times time).outcome = .ok next →
        s.state.core.Received content next.state.core ∧ next.state.signals = .none := by
  rcases takes_of_ready hready times time with ⟨-, hleft⟩ | ⟨content, channel, htakes⟩
  · rw [hleft] at hp
    exact absurd rfl hp
  · have hchannel : p = channel := by
      by_contra hne
      exact hp (htakes.other p hne)
    subst hchannel
    refine ⟨content, htakes, fun next hnext => ?_⟩
    obtain ⟨step, hstep, -, hcore, hsignals⟩ := outcome_tick_eq_ok hnext
    rw [hcore, hsignals]
    exact htakes.reads.received htakes.datum hstep

/-! ## §4. Runs. -/

/-- The ticks of a run: the first, and those from the session that it leaves. -/
theorem ticks_run_succ (s : Session) (times : List Nat) (limit time : Nat) :
    (s.run times (limit + 1) time).ticks = s.tick times time ::
      match (s.tick times time).outcome with
      | .error _ => []
      | .ok next => if next.state.isOver then [] else (next.run times limit (time + 1)).ticks := by
  rw [run, Run.ticks]
  cases houtcome : (s.tick times time).outcome with
  | error f => rfl
  | ok next =>
    by_cases hover : next.state.isOver = true
    · simp only [hover]
      rfl
    · simp only [hover]
      rfl

variable {limit : Nat}

/-- A run with a fault is over and leaves the session before it. -/
theorem run_succ_of_error {f : Fault} (h : (s.tick times time).outcome = .error f) :
    s.run times (limit + 1) time = .tick (s.tick times time) fun _ => .over s := by
  simp only [run, h]

/-- A run is over with its session. -/
theorem run_succ_of_over (h : (s.tick times time).outcome = .ok next)
    (hover : next.state.isOver = true) :
    s.run times (limit + 1) time = .tick (s.tick times time) fun _ => .over next := by
  simp only [run, h, hover, if_true]

/-- Any other run goes on from the session that its first tick leaves. -/
theorem run_succ_of_next (h : (s.tick times time).outcome = .ok next)
    (hover : next.state.isOver = false) :
    s.run times (limit + 1) time
      = .tick (s.tick times time) fun _ => next.run times limit (time + 1) := by
  simp only [run, h, hover, Bool.false_eq_true, if_false]

variable {t : Tick} {ts rest : List Tick}

/-- A run with a tick starts with that of its session; a tick behind that one
belongs to the run from the session that it leaves. -/
theorem ticks_run_eq_cons (h : (s.run times limit time).ticks = t :: rest) :
    t = s.tick times time ∧ (rest = [] ∨ ∃ next limit, t.outcome = .ok next
      ∧ (next.run times limit (time + 1)).ticks = rest) := by
  cases limit with
  | zero => exact absurd h (by simp [run, Run.ticks])
  | succ limit =>
    rw [ticks_run_succ, List.cons.injEq] at h
    obtain ⟨rfl, hrest⟩ := h
    refine ⟨rfl, ?_⟩
    cases houtcome : (s.tick times time).outcome with
    | error f =>
      rw [houtcome] at hrest
      exact Or.inl hrest.symm
    | ok next =>
      rw [houtcome] at hrest
      by_cases hover : next.state.isOver = true
      · simp only [hover] at hrest
        exact Or.inl hrest.symm
      · simp only [hover] at hrest
        exact Or.inr ⟨next, limit, rfl, hrest⟩

/-- The first tick of a run from a session that is ready. -/
theorem conserved_tick (hready : s.Ready)
    (hrest : rest = [] ∨ ∃ next, (s.tick times time).outcome = .ok next) :
    Conserved s.queues [] (s.tick times time) rest where
  before _ := rfl
  after p := by
    rw [List.nil_append, List.flatMap_singleton]
    exact queue_eq_handed_append hready times time p
  next next hnext := by
    obtain ⟨-, -, hqueues, -, -⟩ := outcome_tick_eq_ok hnext
    exact hqueues
  taken p hp := by
    obtain ⟨content, htakes, hreceived⟩ := takes_of_queue_ne hready hp
    refine ⟨content, htakes, ?_⟩
    cases houtcome : (s.tick times time).outcome with
    | ok next =>
      obtain ⟨hcore, hsignals⟩ := hreceived next houtcome
      exact Or.inl ⟨next, rfl, hcore, hsignals⟩
    | error f =>
      -- there is no session to go on with
      rcases hrest with hrest | ⟨next, hnext⟩
      · exact Or.inr ⟨f, rfl, hrest⟩
      · rw [houtcome] at hnext
        exact absurd hnext (by simp)

/-- **Runs**, from any session that is ready. -/
theorem conserved_of_ticks (hready : s.Ready)
    (h : (s.run times limit time).ticks = ts ++ t :: rest) : Conserved s.queues ts t rest := by
  -- the induction is on the ticks before; each leaves a session that is ready
  induction ts generalizing s limit time with
  | nil =>
    obtain ⟨rfl, hrest⟩ := ticks_run_eq_cons h
    refine conserved_tick hready (hrest.imp_right ?_)
    rintro ⟨next, -, hnext, -⟩
    exact ⟨next, hnext⟩
  | cons t₀ ts ih =>
    obtain ⟨rfl, hrest⟩ := ticks_run_eq_cons h
    obtain ⟨next, limit, hnext, hticks⟩ : ∃ next limit, (s.tick times time).outcome = .ok next
        ∧ (next.run times limit (time + 1)).ticks = ts ++ t :: rest := by
      rcases hrest with hnil | hrest
      · exact absurd hnil (by simp)
      · exact hrest
    obtain ⟨-, -, hqueues, -, -⟩ := outcome_tick_eq_ok hnext
    have hconserved := ih (ready_of_tick hnext) hticks
    -- what the first tick hands out comes in front of what the others do
    have hfirst : ∀ p, s.queues.queue p
        = (s.tick times time).handed p ++ next.queues.queue p := by
      intro p
      rw [hqueues]
      exact queue_eq_handed_append hready times time p
    refine ⟨fun p => ?_, fun p => ?_, hconserved.next, hconserved.taken⟩
    · rw [hfirst, hconserved.before, List.flatMap_cons, List.append_assoc]
    · rw [hfirst, hconserved.after, List.cons_append, List.flatMap_cons, List.append_assoc]

end Session

/-- **Input.**  In a run from the start, with any memory, any data queued, any
interrupts and any limit, at each tick: what was queued on a channel at the
start is what was handed to the input instructions on it, in order, followed by
what is still queued.  And a datum that leaves its queue is read in the same
tick, by an input instruction on its channel that no interrupt replaces; or
this instruction fails, and the run is over. -/
theorem run_conserves {m : Memory} {q : Queues} {times : List Nat} {limit : Nat}
    {ts rest : List Tick} {t : Tick}
    (h : ((Session.initial m q).run times limit 0).ticks = ts ++ t :: rest) :
    Conserved q ts t rest :=
  Session.conserved_of_ticks (Session.ready_initial m q) h

/-- Interrupts are allowed, a datum is read, and an interrupt starts it all
again. -/
def interrupted : Memory := .ofBytes [0xFC, 0xF0, 0x00, 0x00]

/-- A datum on the first channel. -/
def oneDatum : Queues := OrderedMap.empty.insert 0 [0x41]

/-- The interrupt at time 2 comes when the program waits.  The datum stays where
it is, and is read at time 5, when the program waits again. -/
theorem run_conserves_interrupted : ∃ ts t rest,
    ((Session.initial interrupted oneDatum).run [2] 10 0).ticks = ts ++ t :: rest
    ∧ t.time = 5 ∧ (∃ t₂ ∈ ts, t₂.time = 2 ∧ t₂.before.state.core.traps t₂.input = true)
    ∧ Conserved oneDatum ts t rest ∧ t.Takes 0x41 0
    ∧ ts.flatMap (·.handed 0) = [] ∧ t.left.queue 0 = [] := by
  have hticks : ((Session.initial interrupted oneDatum).run [2] 10 0).ticks.map
      (fun t => (t.time, t.before.state.core.traps t.input, t.before.queues.queue 0,
        t.left.queue 0))
      = [(0, false, [0x41], [0x41]), (1, false, [0x41], [0x41])]
        ++ (2, true, [0x41], [0x41])
        :: ([(3, false, [0x41], [0x41]), (4, false, [0x41], [0x41])]
        ++ (5, false, [0x41], []) :: [(6, false, [], [])]) := by
    decide +kernel
  obtain ⟨ts₁, tail, htail, -, hmap⟩ := List.map_eq_append_iff.1 hticks
  obtain ⟨t₂, tail, rfl, h₂, hmap⟩ := List.map_eq_cons_iff.1 hmap
  obtain ⟨ts₂, tail, rfl, -, hmap⟩ := List.map_eq_append_iff.1 hmap
  obtain ⟨t, rest, rfl, ht, -⟩ := List.map_eq_cons_iff.1 hmap
  simp only [Prod.mk.injEq] at h₂ ht
  obtain ⟨htime₂, htraps, -, -⟩ := h₂
  obtain ⟨htime, -, hbefore, hleft⟩ := ht
  have hsplit : ((Session.initial interrupted oneDatum).run [2] 10 0).ticks
      = (ts₁ ++ t₂ :: ts₂) ++ t :: rest := by rw [htail, List.append_assoc, List.cons_append]
  have hconserved := run_conserves hsplit
  obtain ⟨content, htakes, -⟩ := hconserved.taken 0 (by rw [hbefore, hleft]; simp)
  have hqueue := htakes.queue
  rw [hbefore, hleft] at hqueue
  obtain rfl : 0x41 = content := (List.cons.inj hqueue).1
  have hnone := hconserved.before 0
  rw [hbefore] at hnone
  exact ⟨_, t, rest, hsplit, htime, ⟨t₂, by simp, htime₂, htraps⟩, hconserved, htakes,
    List.append_left_eq_self.1 hnone.symm, hleft⟩

end EightBit
