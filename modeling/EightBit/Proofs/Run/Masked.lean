/-
  EightBit.Proofs.Run.Masked
  ──────────────────────────
  **MASKED INTERRUPTS ARE INVISIBLE.**

  An interrupt that is raised while the flag is clear is not taken.  The step
  asks for that, the offer of a datum asks for it, and so does the line that is
  printed.  If every interrupt is masked all three answer as if none was raised,
  and the run is the one without interrupts: in particular an input instruction
  that waits gets its datum all the same.

  Main results:
    • `Core.step_of_not_traps`    — a step does not see a masked interrupt;
    • `Session.offer_of_not_traps` — nor does the offer of a datum;
    • `Session.tick_nil_of_masked` — nor does a tick;
    • `run_masked`                — nor does a run.
-/
import EightBit.Emulator.Report
import EightBit.Proofs.Run.Input

namespace EightBit

/-! ## §1. One step. -/

/-- Whether an interrupt is taken depends on the flag and on the interrupt only. -/
theorem Core.traps_eq_false_iff {c : Core} {input : InputSignals} : c.traps input = false
    ↔ (input.interrupt = true → c.registers.sr.interrupt = false) := by
  rw [traps, Bool.and_eq_false_imp]

/-- A step does not see an interrupt that it does not take. -/
theorem Core.step_of_not_traps {c : Core} {datum : Option InputDatum} {raised : Bool}
    (h : c.traps ⟨datum, raised⟩ = false) : c.step ⟨datum, raised⟩ = c.step ⟨datum, false⟩ := by
  have heffect : c.effect ⟨datum, raised⟩ = c.effect ⟨datum, false⟩ := by
    unfold effect
    rw [h]
    rfl
  unfold step
  rw [heffect]

/-! ## §2. One tick. -/

/-- The tick as it is when no interrupt is raised: the same time, the same
session before it, the same datum and the same outcome. -/
def Tick.unraised (t : Tick) : Tick := { t with input := { t.input with interrupt := false } }

/-- An interrupt that is raised finds the flag clear. -/
def Tick.Masked (t : Tick) : Prop :=
  t.input.interrupt = true → t.before.state.core.registers.sr.interrupt = false

namespace Session

variable {s : Session} {times : List Nat} {limit time : Nat} {t : Tick}

/-- A datum is offered when an interrupt is not taken as it is without it. -/
theorem offer_of_not_traps {raised : Bool} (h : s.state.core.traps ⟨none, raised⟩ = false) :
    s.offer raised = s.offer false := by
  have hfalse : s.state.core.traps ⟨none, false⟩ = false := rfl
  simp only [offer, h, hfalse]

/-- **One tick** that does not take the interrupt is a tick without one. -/
theorem tick_nil_of_masked (h : (s.tick times time).Masked) :
    s.tick [] time = (s.tick times time).unraised := by
  have htraps : ∀ datum, s.state.core.traps ⟨datum, times.contains time⟩ = false := by
    intro datum
    exact Core.traps_eq_false_iff.2 h
  have hexec : ∀ datum, s.state.exec ⟨datum, times.contains time⟩ = s.state.exec ⟨datum, false⟩ := by
    intro datum
    unfold State.exec
    rw [Core.step_of_not_traps (htraps datum)]
  simp only [tick, Tick.unraised, List.contains_nil, offer_of_not_traps (htraps none), hexec]

/-- Every tick of a run is that of the session before it. -/
theorem tick_of_mem_ticks (h : t ∈ (s.run times limit time).ticks) :
    t = t.before.tick times t.time := by
  induction hts : (s.run times limit time).ticks generalizing s limit time with
  | nil =>
    rw [hts] at h
    exact absurd h (by simp)
  | cons first rest ih =>
    obtain ⟨rfl, hrest⟩ := ticks_run_eq_cons hts
    rw [hts, List.mem_cons] at h
    rcases h with rfl | h
    · rfl
    · -- the tick belongs to the run from the session that the first tick leaves
      rcases hrest with rfl | ⟨next, limit, -, hnext⟩
      · exact absurd h (by simp)
      · rw [← hnext] at h
        exact ih h hnext

/-! ## §3. Runs. -/

/-- **A run** in which every interrupt is masked is the run without interrupts. -/
theorem run_nil_of_masked (h : ∀ t ∈ (s.run times limit time).ticks, t.Masked) :
    (s.run [] limit time).ticks = (s.run times limit time).ticks.map Tick.unraised
      ∧ (s.run [] limit time).last = (s.run times limit time).last := by
  -- the outcome of a tick does not tell the two runs apart, so both go on alike
  induction limit generalizing s time with
  | zero => exact ⟨rfl, rfl⟩
  | succ limit ih =>
    have hfirst : (s.tick times time).Masked := by
      rw [ticks_run_succ] at h
      exact h _ List.mem_cons_self
    have htick := tick_nil_of_masked hfirst
    have hsame : (s.tick [] time).outcome = (s.tick times time).outcome := by
      rw [htick]
      rfl
    cases houtcome : (s.tick times time).outcome with
    | error f =>
      rw [run_succ_of_error houtcome, run_succ_of_error (hsame.trans houtcome), htick]
      exact ⟨rfl, rfl⟩
    | ok next =>
      cases hover : next.state.isOver with
      | true =>
        rw [run_succ_of_over houtcome hover, run_succ_of_over (hsame.trans houtcome) hover, htick]
        exact ⟨rfl, rfl⟩
      | false =>
        rw [run_succ_of_next houtcome hover] at h ⊢
        rw [run_succ_of_next (hsame.trans houtcome) hover, htick]
        obtain ⟨hticks, hlast⟩ := ih fun t ht => h t (List.mem_cons_of_mem _ ht)
        exact ⟨congrArg _ hticks, hlast⟩

end Session

namespace Tick.Masked

variable {t : Tick}

/-- The same datum leaves the same queue. -/
theorem left_unraised (h : t.Masked) : t.unraised.left = t.left := by
  have hoffer := Session.offer_of_not_traps (Core.traps_eq_false_iff.2 h)
  exact congrArg Prod.snd hoffer.symm

/-- The same datum is handed to the same input instruction. -/
theorem handed_unraised (h : t.Masked) (channel : Byte) :
    t.unraised.handed channel = t.handed channel := by
  have htraps : t.before.state.core.traps t.input = false := Core.traps_eq_false_iff.2 h
  have htraps' : t.before.state.core.traps t.unraised.input = false := rfl
  simp only [handed, Core.Reads, Core.Executes, htraps, unraised] at htraps' ⊢
  simp only [htraps']

/-- The same lines are printed, behind the note that the interrupt is masked. -/
theorem tickLines_unraised (h : t.Masked) (v : Report.Views) : Report.tickLines v t
    = (if t.input.interrupt then [Report.interruptLine false] else [])
      ++ Report.tickLines v t.unraised := by
  have htraps : t.before.state.core.traps t.input = false := Core.traps_eq_false_iff.2 h
  have htraps' : t.before.state.core.traps t.unraised.input = false := rfl
  simp only [Report.tickLines, htraps, unraised] at htraps' ⊢
  simp only [htraps', Bool.false_eq_true, if_false, List.nil_append, List.append_assoc]

end Tick.Masked

/-- **Masked interrupts are invisible.**  A run from the start, with any memory,
any data queued and any limit, in which the flag is clear whenever an interrupt
is due, is the run without interrupts: the same sessions follow each other, and
in each tick the same datum leaves the same queue for the same input instruction.
All that is printed beside is the note that an interrupt was masked. -/
theorem run_masked {m : Memory} {q : Queues} {times : List Nat} {limit : Nat}
    (h : ∀ t ∈ ((Session.initial m q).run times limit 0).ticks, t.time ∈ times →
      t.before.state.core.registers.sr.interrupt = false) :
    ((Session.initial m q).run [] limit 0).ticks
        = ((Session.initial m q).run times limit 0).ticks.map Tick.unraised
      ∧ ((Session.initial m q).run [] limit 0).last
        = ((Session.initial m q).run times limit 0).last
      ∧ ∀ t ∈ ((Session.initial m q).run times limit 0).ticks, t.unraised.left = t.left
        ∧ (∀ channel, t.unraised.handed channel = t.handed channel)
        ∧ ∀ v, Report.tickLines v t
          = (if t.input.interrupt then [Report.interruptLine false] else [])
            ++ Report.tickLines v t.unraised := by
  have hmasked : ∀ t ∈ ((Session.initial m q).run times limit 0).ticks, t.Masked := by
    intro t ht hraised
    rw [Session.tick_of_mem_ticks ht] at hraised
    exact h t ht (List.contains_iff_mem.1 hraised)
  obtain ⟨hticks, hlast⟩ := Session.run_nil_of_masked hmasked
  refine ⟨hticks, hlast, fun t ht => ?_⟩
  have hmasked := hmasked t ht
  exact ⟨hmasked.left_unraised, hmasked.handed_unraised, hmasked.tickLines_unraised⟩

/-- Interrupts are allowed and masked again, and then a datum is read. -/
def maskedAgain : Memory := .ofBytes [0xFC, 0xFD, 0xF0, 0x00, 0x00]

/-- The interrupt at time 3 comes when the program waits, and is masked.  The
datum is read all the same. -/
theorem run_masked_whileWaiting : ∃ ts t rest,
    ((Session.initial maskedAgain oneDatum).run [0, 3] 10 0).ticks = ts ++ t :: rest
    ∧ t.time = 3 ∧ t.input.interrupt = true ∧ t.before.state.signals.waiting = some 0
    ∧ (∃ t₁ ∈ ts, t₁.before.state.core.registers.sr.interrupt = true)
    ∧ t.handed 0 = [0x41] ∧ t.unraised.handed 0 = [0x41]
    ∧ ((Session.initial maskedAgain oneDatum).run [] 10 0).ticks
      = (ts ++ t :: rest).map Tick.unraised := by
  have hticks : ((Session.initial maskedAgain oneDatum).run [0, 3] 10 0).ticks.map
      (fun t => (t.time, t.input.interrupt, t.before.state.core.registers.sr.interrupt,
        t.before.state.signals.waiting, t.handed 0))
      = [(0, true, false, none, []), (1, false, true, none, []), (2, false, false, none, [])]
        ++ (3, true, false, some 0, [0x41]) :: [(4, false, false, none, [])] := by
    decide +kernel
  have hclear : ∀ t ∈ ((Session.initial maskedAgain oneDatum).run [0, 3] 10 0).ticks,
      t.time ∈ [0, 3] → t.before.state.core.registers.sr.interrupt = false := by
    decide +kernel
  obtain ⟨hsame, -, hall⟩ := run_masked hclear
  obtain ⟨ts, tail, hsplit, hts, hmap⟩ := List.map_eq_append_iff.1 hticks
  obtain ⟨t, rest, rfl, ht, -⟩ := List.map_eq_cons_iff.1 hmap
  obtain ⟨t₀, ts', rfl, -, hts⟩ := List.map_eq_cons_iff.1 hts
  obtain ⟨t₁, ts'', rfl, h₁, -⟩ := List.map_eq_cons_iff.1 hts
  simp only [Prod.mk.injEq] at ht h₁
  obtain ⟨htime, hraised, -, hwaiting, hhanded⟩ := ht
  obtain ⟨-, -, hallowed, -⟩ := h₁
  obtain ⟨-, hunraised, -⟩ := hall t (by rw [hsplit]; simp)
  rw [hsplit] at hsame
  exact ⟨_, t, rest, hsplit, htime, hraised, hwaiting, ⟨t₁, by simp, hallowed⟩, hhanded,
    (hunraised 0).trans hhanded, hsame⟩

end EightBit
