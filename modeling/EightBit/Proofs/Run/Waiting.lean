/-
  EightBit.Proofs.Run.Waiting
  ───────────────────────────
  **A RUN DOES NOT SPIN ON AN INPUT.**

  An input instruction that waits is executed again, and a run may have no limit.
  So it is to be seen that the second time comes to something.  Either nothing is
  queued, which is noticed behind the step, and the run is over; or the head of the
  queue is offered next, to the same instruction; or an interrupt is taken in its
  place.  Whatever it is, the tick behind one that waits does not wait.

  Main results:
    • `isOver_of_waiting` — a session that waits is over when nothing is queued;
    • `resumed_of_queued` — the next tick, when something is;
    • `awaits_of_run`     — what follows a tick that waits, in any run;
    • `run_does_not_spin` — and how often a run waits.
-/
import EightBit.Proofs.Run.Input

namespace EightBit

/-! ## §1. What follows a tick that waits. -/

namespace Tick

/-- The channel on which the step waits. -/
def waiting? (t : Tick) : Option Byte :=
  match t.outcome with
  | .ok s => s.state.signals.waiting
  | .error _ => none

/-- A datum is handed out. -/
def serves (t : Tick) : Bool := t.input.datum.isSome

/-- The interrupt is taken. -/
def enters (t : Tick) : Bool := t.before.state.core.traps t.input && t.outcome.isOk

/-- **What becomes of a step that waited** on the channel, in the tick `t` behind it
and in front of the ticks `rest`. -/
inductive Resumed (channel : Byte) (t : Tick) (rest : List Tick) : Prop
  /-- The interrupt is taken. -/
  | trap {s : Session} (htraps : t.before.state.core.traps t.input = true)
      (houtcome : t.outcome = .ok s) (hsignals : s.state.signals = .none)
  /-- The head of the queue is read. -/
  | served {content : UInt16} {s : Session} (htakes : t.Takes content channel)
      (houtcome : t.outcome = .ok s) (hsignals : s.state.signals = .none)
      (hreceived : t.before.state.core.Received content s.state.core)
  /-- The run ends with a fault. -/
  | fault {f : Fault} (houtcome : t.outcome = .error f) (hrest : rest = [])

/-- **What follows the tick `t`**, in which an input instruction waits on the channel,
in a run up to the time `stop`. -/
structure Awaits (stop : Nat) (t : Tick) (channel : Byte) (rest : List Tick) : Prop where
  reads : t.before.state.core.Reads t.input channel
  /-- With nothing queued on the channel the run is over. -/
  starved : t.left.queue channel = [] → rest = []
  /-- With something queued it goes on, up to the limit. -/
  fed : t.left.queue channel ≠ [] → rest = [] → t.time + 1 = stop
  /-- The next tick is at the same instruction, and does not wait. -/
  next : ∀ t' rest', rest = t' :: rest' → t'.before.state.core = t.before.state.core
    ∧ t'.before.queues = t.left ∧ t'.waiting? = none ∧ t'.Resumed channel rest'

theorem waiting?_eq_some {t : Tick} {channel : Byte} (h : t.waiting? = some channel) :
    ∃ next, t.outcome = .ok next ∧ next.state.signals.waiting = some channel := by
  unfold waiting? at h
  split at h
  · next next hnext => exact ⟨next, hnext, h⟩
  · exact absurd h (by simp)

end Tick

/-- A step that waits does not halt. -/
theorem Core.halted_of_waiting {c : Core} {input : InputSignals} {step : Step} {channel : Byte}
    (h : c.step input = .ok step) (hwaiting : step.signals.waiting = some channel) :
    step.signals.halted = false := by
  obtain ⟨e, hsteps, rfl⟩ := Core.steps_of_step h
  cases hsteps with
  | trap _ _ => rfl
  | instruction hop hperforms =>
    cases hperforms with
    | halt => exact absurd hwaiting (by simp [OutputSignals.none])
    | _ => rfl

namespace Session

/-! ## §2. One tick. -/

/-- **A session that a run goes on from**: it is ready, and not terminated. -/
structure Live (s : Session) : Prop where
  ready : s.Ready
  running : s.state.terminated = false

theorem live_initial (m : Memory) (q : Queues) : (initial m q).Live := ⟨ready_initial m q, rfl⟩

variable {s next : Session} {times : List Nat} {time : Nat} {channel : Byte}
  {rest : List Tick}

/-- A session that goes on is live. -/
theorem live_of_tick (h : (s.tick times time).outcome = .ok next)
    (hover : next.state.isOver = false) : next.Live := by
  obtain ⟨hrunning, -⟩ := Bool.or_eq_false_iff.1 hover
  exact ⟨ready_of_tick h, hrunning⟩

/-- A session that waits is terminated when nothing is queued on its channel. -/
theorem terminated_settle (hrunning : s.state.terminated = false)
    (hwaiting : s.state.signals.waiting = some channel) :
    s.settle.state.terminated = (s.queues.queue channel).isEmpty := by
  rw [settle, starved?, hwaiting, Option.filter_some]
  cases hempty : (s.queues.queue channel).isEmpty with
  | true => rfl
  | false => exact hrunning

/-- **A session that waits is over** when nothing is queued on its channel. -/
theorem isOver_of_waiting (hlive : s.Live) (h : (s.tick times time).outcome = .ok next)
    (hwaiting : next.state.signals.waiting = some channel) :
    next.state.isOver = (next.queues.queue channel).isEmpty := by
  obtain ⟨step, hstep, -, -, hsignals⟩ := outcome_tick_eq_ok h
  have hhalted : next.state.signals.halted = false := by
    rw [hsignals] at hwaiting ⊢
    exact Core.halted_of_waiting hstep hwaiting
  rw [State.isOver, hhalted, Bool.or_false]
  obtain ⟨state, hstate, rfl⟩ := map_eq_ok_iff.1 h
  obtain ⟨_, -, rfl⟩ := map_eq_ok_iff.1 hstate
  -- it is the check behind the step that terminates the session, or nothing does
  rw [signals_settle] at hwaiting
  rw [queues_settle]
  exact terminated_settle hlive.running hwaiting

/-- With something queued, the next step is offered the head of the queue, unless it
takes an interrupt. -/
theorem takes_of_queued (hready : s.Ready) (hwaiting : s.state.signals.waiting = some channel)
    (hqueued : s.queues.queue channel ≠ [])
    (htraps : s.state.core.traps (s.tick times time).input = false) :
    ∃ content, (s.tick times time).Takes content channel := by
  have hoffer : (s.tick times time).input.datum = (s.offer (times.contains time)).1 := rfl
  have htraps : s.state.core.traps ⟨none, times.contains time⟩ = false := htraps
  rcases takes_of_ready hready times time with ⟨hnone, -⟩ | ⟨content, other, htakes⟩
  · -- the queue has a head
    obtain ⟨content, rest, hqueue⟩ := List.exists_cons_of_ne_nil hqueued
    simp only [hoffer, offer, hwaiting, htraps, Queues.take?, hqueue] at hnone
    exact absurd hnone (by simp)
  · have hchannel : s.state.core.channel = .ok other := htakes.reads.2
    rw [(hready channel hwaiting).2] at hchannel
    obtain rfl : channel = other := Except.ok.inj hchannel
    exact ⟨content, htakes⟩

/-- A tick that takes the interrupt does not wait. -/
theorem signals_of_traps (htraps : s.state.core.traps (s.tick times time).input = true)
    (h : (s.tick times time).outcome = .ok next) : next.state.signals = .none := by
  obtain ⟨step, hstep, -, -, hsignals⟩ := outcome_tick_eq_ok h
  obtain ⟨e, hsteps, rfl⟩ := Core.steps_of_step hstep
  cases hsteps with
  | trap _ _ => exact hsignals
  | instruction hop _ => exact absurd (htraps.symm.trans hop.1) (by simp)

/-- **One tick** from a session that waits with something queued. -/
theorem resumed_of_queued (hready : s.Ready) (hwaiting : s.state.signals.waiting = some channel)
    (hqueued : s.queues.queue channel ≠ [])
    (hrest : ∀ f, (s.tick times time).outcome = .error f → rest = []) :
    (s.tick times time).Resumed channel rest := by
  cases houtcome : (s.tick times time).outcome with
  | error f => exact .fault houtcome (hrest f houtcome)
  | ok next =>
    cases htraps : s.state.core.traps (s.tick times time).input with
    | true => exact .trap htraps houtcome (signals_of_traps htraps houtcome)
    | false =>
      obtain ⟨content, htakes⟩ := takes_of_queued hready hwaiting hqueued htraps
      obtain ⟨step, hstep, -, hcore, hsignals⟩ := outcome_tick_eq_ok houtcome
      obtain ⟨hreceived, hsilent⟩ := htakes.reads.received htakes.datum hstep
      refine .served htakes houtcome (hsignals.trans hsilent) ?_
      rw [hcore]
      exact hreceived

end Session

/-- The tick behind one that waits does not wait. -/
theorem Tick.Resumed.waiting?_eq {channel : Byte} {t : Tick} {rest : List Tick}
    (h : t.Resumed channel rest) : t.waiting? = none := by
  unfold Tick.waiting?
  cases h with
  | trap _ houtcome hsignals | served _ houtcome hsignals =>
    rw [houtcome]
    exact congrArg OutputSignals.waiting hsignals
  | fault houtcome =>
    rw [houtcome]

namespace Session

/-! ## §3. Runs. -/

/-- What comes behind the tick in a run with so many steps left. -/
inductive Continues (times : List Nat) (left : Nat) (t : Tick) : List Tick → Prop
  | fault {f : Fault} (houtcome : t.outcome = .error f) : Continues times left t []
  | ended {next : Session} (houtcome : t.outcome = .ok next) (hover : next.state.isOver = true) :
      Continues times left t []
  | next {next : Session} (houtcome : t.outcome = .ok next) (hover : next.state.isOver = false) :
      Continues times left t (next.run times left (t.time + 1)).ticks

section Runs

variable {s : Session} {times : List Nat} {limit time left : Nat} {channel : Byte} {t : Tick}
  {ts rest : List Tick}

/-- A run with a tick has a step for it, and starts with the tick of its session. -/
theorem continues_of_ticks (h : (s.run times limit time).ticks = t :: rest) :
    t = s.tick times time ∧ ∃ left, limit = left + 1 ∧ Continues times left t rest := by
  cases limit with
  | zero => exact absurd h (by simp [run, Run.ticks])
  | succ left =>
    cases houtcome : (s.tick times time).outcome with
    | error f =>
      rw [run_succ_of_error houtcome] at h
      obtain ⟨rfl, rfl⟩ := List.cons.inj h
      exact ⟨rfl, left, rfl, .fault houtcome⟩
    | ok next =>
      cases hover : next.state.isOver with
      | true =>
        rw [run_succ_of_over houtcome hover] at h
        obtain ⟨rfl, rfl⟩ := List.cons.inj h
        exact ⟨rfl, left, rfl, .ended houtcome hover⟩
      | false =>
        rw [run_succ_of_next houtcome hover] at h
        obtain ⟨rfl, rfl⟩ := List.cons.inj h
        exact ⟨rfl, left, rfl, .next houtcome hover⟩

/-- The ticks of a run from some tick on are a run of their own, from a session that
is live. -/
theorem run_of_ticks (hlive : s.Live) (h : (s.run times limit time).ticks = ts ++ t :: rest) :
    t.before.Live ∧ ∃ left, t.time + left = time + limit
      ∧ (t.before.run times left t.time).ticks = t :: rest := by
  -- the induction is on the ticks before; each leaves a session that is live
  induction ts generalizing s limit time with
  | nil =>
    obtain ⟨rfl, -⟩ := continues_of_ticks h
    exact ⟨hlive, limit, rfl, h⟩
  | cons t₀ ts ih =>
    rw [List.cons_append] at h
    obtain ⟨rfl, left, rfl, hcontinues⟩ := continues_of_ticks h
    generalize hrest : ts ++ t :: rest = ticks at hcontinues
    cases hcontinues with
    | fault | ended => exact absurd hrest (by simp)
    | next houtcome hover =>
      obtain ⟨hlive', left', htime, hticks⟩ := ih (live_of_tick houtcome hover) hrest.symm
      have hlimit : time + 1 + left = time + (left + 1) := by omega
      exact ⟨hlive', left', htime.trans hlimit, hticks⟩

/-- **The first tick of a run**, from any session that is live. -/
theorem awaits_of_run (hlive : s.Live) (h : (s.run times limit time).ticks = t :: rest)
    (hwaiting : t.waiting? = some channel) : t.Awaits (time + limit) channel rest := by
  obtain ⟨rfl, left, rfl, hcontinues⟩ := continues_of_ticks h
  obtain ⟨next, hnext, hwaiting⟩ := Tick.waiting?_eq_some hwaiting
  obtain ⟨step, hstep, hqueues, hcore, hsignals⟩ := outcome_tick_eq_ok hnext
  obtain ⟨hsame, hreads⟩ := Core.reads_of_waiting hstep (hsignals ▸ hwaiting)
  have hover := isOver_of_waiting hlive hnext hwaiting
  rw [hqueues] at hover
  cases hcontinues with
  | fault houtcome => exact absurd (hnext.symm.trans houtcome) (by simp)
  | ended houtcome hisOver =>
    -- it is over for its queue
    obtain rfl := Except.ok.inj (hnext.symm.trans houtcome)
    rw [hisOver, eq_comm, List.isEmpty_iff] at hover
    exact ⟨hreads, fun _ => rfl, fun hqueued => absurd hover hqueued, by simp⟩
  | next houtcome hisOver =>
    obtain rfl := Except.ok.inj (hnext.symm.trans houtcome)
    rw [hisOver, eq_comm, List.isEmpty_eq_false_iff] at hover
    refine ⟨hreads, fun hempty => absurd hempty hover, fun _ hrest => ?_, ?_⟩
    · cases left with
      | zero => rfl
      | succ left =>
        rw [ticks_run_succ] at hrest
        exact absurd hrest (by simp)
    · intro t' rest' hrest
      obtain ⟨rfl, left', rfl, hcontinues'⟩ := continues_of_ticks hrest
      have hresumed : Tick.Resumed channel (next.tick times (time + 1)) rest' := by
        refine resumed_of_queued (ready_of_tick hnext) hwaiting (by rwa [hqueues]) ?_
        intro f hfault
        cases hcontinues' with
        | fault => rfl
        | ended houtcome' | next houtcome' => exact absurd (hfault.symm.trans houtcome') (by simp)
      exact ⟨hcore.trans hsame, hqueues, hresumed.waiting?_eq, hresumed⟩

end Runs

end Session

/-! ## §4. How often a run waits. -/

/-- A tick behind one that waits hands out a datum or takes an interrupt, or is the
last one. -/
theorem Tick.Resumed.counts {channel : Byte} {t : Tick} {rest : List Tick}
    (h : t.Resumed channel rest) : t.serves = true ∨ t.enters = true ∨ rest = [] := by
  cases h with
  | trap htraps houtcome =>
    refine Or.inr (Or.inl ?_)
    rw [enters, htraps, houtcome]
    rfl
  | served htakes =>
    refine Or.inl ?_
    rw [serves, htakes.datum]
    rfl
  | fault _ hrest => exact Or.inr (Or.inr hrest)

/-- Among ticks of which each that waits is followed so, those that wait are at most
one more than those that hand out a datum or take an interrupt. -/
theorem countP_waiting_le {stop : Nat} : ∀ {ticks : List Tick},
    (∀ ts t rest channel, ticks = ts ++ t :: rest → t.waiting? = some channel →
      t.Awaits stop channel rest) →
    ticks.countP (·.waiting?.isSome) ≤ ticks.countP Tick.serves + ticks.countP Tick.enters + 1
  | [], _ => Nat.zero_le _
  | t :: rest, h => by
    have hrest : ∀ ts t' rest' channel, rest = ts ++ t' :: rest' → t'.waiting? = some channel →
        t'.Awaits stop channel rest' :=
      fun ts t' rest' channel heq hw => h (t :: ts) t' rest' channel (congrArg _ heq) hw
    have hserves := (List.sublist_cons_self t rest).countP_le (p := Tick.serves)
    have henters := (List.sublist_cons_self t rest).countP_le (p := Tick.enters)
    cases hw : t.waiting? with
    | none =>
      have ih := countP_waiting_le hrest
      rw [List.countP_cons_of_neg (by simp [hw])]
      omega
    | some channel =>
      have hawaits := h [] t rest channel rfl hw
      rw [List.countP_cons_of_pos (by simp [hw])]
      match rest, hrest, hawaits with
      | [], _, _ => exact Nat.le_add_left 1 _
      | t' :: rest', hrest, hawaits =>
        -- the tick behind it does not wait, and makes up for it
        obtain ⟨-, -, hnone, hresumed⟩ := hawaits.next t' rest' rfl
        have ih : rest'.countP (·.waiting?.isSome)
            ≤ rest'.countP Tick.serves + rest'.countP Tick.enters + 1 :=
          countP_waiting_le fun ts t'' rest'' channel heq =>
            hrest (t' :: ts) t'' rest'' channel (congrArg _ heq)
        have hserves' := (List.sublist_cons_self t' rest').countP_le (p := Tick.serves)
        have henters' := (List.sublist_cons_self t' rest').countP_le (p := Tick.enters)
        rw [List.countP_cons_of_neg (by simp [hnone])]
        rcases hresumed.counts with hmore | hmore | rfl
        · have hone := List.countP_cons_of_pos (l := rest') hmore
          omega
        · have hone := List.countP_cons_of_pos (l := rest') hmore
          omega
        · exact Nat.le_add_left 1 _

/-- **No spinning.**  In a run from the start, with any memory, any data queued, any
interrupts and any limit: no tick waits behind one that waits.  Behind a tick that
waits the run is over if nothing is queued on the channel; else it goes on, unless
it is at its limit, and takes an interrupt, or reads the head of the queue at the
same instruction, or ends with a fault.  So it waits at most once more than it hands
out a datum or takes an interrupt. -/
theorem run_does_not_spin (m : Memory) (q : Queues) (times : List Nat) (limit : Nat) :
    (∀ ts t rest channel, ((Session.initial m q).run times limit 0).ticks = ts ++ t :: rest →
      t.waiting? = some channel → t.Awaits limit channel rest)
    ∧ (∀ ts t t' rest, ((Session.initial m q).run times limit 0).ticks = ts ++ t :: t' :: rest →
      t.waiting? ≠ none → t'.waiting? = none)
    ∧ ((Session.initial m q).run times limit 0).ticks.countP (·.waiting?.isSome)
      ≤ ((Session.initial m q).run times limit 0).ticks.countP Tick.serves
        + ((Session.initial m q).run times limit 0).ticks.countP Tick.enters + 1 := by
  have hawaits : ∀ ts t rest channel,
      ((Session.initial m q).run times limit 0).ticks = ts ++ t :: rest →
      t.waiting? = some channel → t.Awaits limit channel rest := by
    intro ts t rest channel hticks hwaiting
    obtain ⟨hlive, left, htime, hrun⟩ := Session.run_of_ticks (Session.live_initial m q) hticks
    have hstop : t.time + left = limit := htime.trans (Nat.zero_add limit)
    rw [← hstop]
    exact Session.awaits_of_run hlive hrun hwaiting
  refine ⟨hawaits, fun ts t t' rest hticks hwaiting => ?_, countP_waiting_le hawaits⟩
  obtain ⟨channel, hchannel⟩ := Option.ne_none_iff_exists'.1 hwaiting
  exact ((hawaits ts t (t' :: rest) channel hticks hchannel).next t' rest rfl).2.2.1

/-- The program waits twice: once the interrupt at time 2 is taken, and once the datum
is read. -/
theorem run_does_not_spin_interrupted : ∃ ts t t' rest,
    ((Session.initial interrupted oneDatum).run [2] 10 0).ticks = ts ++ t :: t' :: rest
    ∧ t.waiting? = some 0 ∧ t.Awaits 10 0 (t' :: rest) ∧ t'.waiting? = none
    ∧ (∃ content, t'.Takes content 0)
    ∧ (ts ++ t :: t' :: rest).countP (·.waiting?.isSome) = 2 := by
  have hticks : ((Session.initial interrupted oneDatum).run [2] 10 0).ticks.map
      (fun t => (t.waiting?, t.before.state.core.traps t.input, t.outcome.isOk))
      = [(none, false, true), (some 0, false, true), (none, true, true), (none, false, true)]
        ++ (some 0, false, true) :: (none, false, true) :: [(none, false, true)] := by
    decide +kernel
  obtain ⟨ts, tail, htail, -, hmap⟩ := List.map_eq_append_iff.1 hticks
  obtain ⟨t, tail, rfl, ht, hmap⟩ := List.map_eq_cons_iff.1 hmap
  obtain ⟨t', rest, rfl, ht', -⟩ := List.map_eq_cons_iff.1 hmap
  simp only [Prod.mk.injEq] at ht ht'
  have hspin := run_does_not_spin interrupted oneDatum [2] 10
  have hawaits := hspin.1 ts t (t' :: rest) 0 htail ht.1
  have hcount : ((Session.initial interrupted oneDatum).run [2] 10 0).ticks.countP
      (·.waiting?.isSome) = 2 := by decide +kernel
  rw [htail] at hcount
  refine ⟨ts, t, t', rest, htail, ht.1, hawaits, hspin.2.1 ts t t' rest htail (by simp [ht.1]),
    ?_, hcount⟩
  -- the second time neither an interrupt nor a fault comes
  obtain ⟨-, -, -, hresumed⟩ := hawaits.next t' rest rfl
  cases hresumed with
  | trap htraps => exact absurd (htraps.symm.trans ht'.2.1) (by simp)
  | served htakes => exact ⟨_, htakes⟩
  | fault houtcome =>
    rw [houtcome] at ht'
    exact absurd ht'.2.2 (by simp [Except.isOk, Except.toBool])

end EightBit
