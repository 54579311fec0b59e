/-
  EightBit.Proofs.Command.Observation
  ───────────────────────────────────
  **WATCHING A RUN DOES NOT DISTURB IT.**

  What is shown on the way, of the display and in the snapshot is shown by hooks that
  are given the state and hand it on as it is, so the course is that of the session
  alone.  A limit only cuts a run off: up to there it is the run without the limit, and
  a run that is over before is not touched at all.

  Main results:
    • `Session.run_add`          — a run that is cut off goes on from where it was;
    • `Setup.run_eq_of_runFiles` — what is watched does not matter for what is run;
    • `extends_course`           — the courses of two requests that watch in different ways.
-/
import EightBit.Proofs.Command.SameRun
import EightBit.Proofs.Run.Input

namespace EightBit

/-! ## §1. Runs that are cut off. -/

/-- The run is cut off at the limit: it has made so many steps, none of them
failed, and it is not over. -/
structure Run.CutOff (r : Run) (limit : Nat) : Prop where
  length : r.ticks.length = limit
  passed : ∀ t ∈ r.ticks, ∀ f, t.outcome ≠ .error f
  pending : r.last.state.isOver = false

/-- The run goes through the ticks and then on as `rest` does. -/
structure Run.GoesOn (ts : List Tick) (rest r : Run) : Prop where
  ticks : r.ticks = ts ++ rest.ticks
  last : r.last = rest.last

theorem Run.cutOff_tick {t : Tick} {rest : Unit → Run} {limit : Nat} :
    (Run.tick t rest).CutOff (limit + 1)
      ↔ (∀ f, t.outcome ≠ .error f) ∧ (rest ()).CutOff limit := by
  constructor
  · rintro ⟨hlength, hpassed, hpending⟩
    rw [ticks, List.forall_mem_cons] at hpassed
    rw [ticks, List.length_cons] at hlength
    exact ⟨hpassed.1, Nat.succ.inj hlength, hpassed.2, hpending⟩
  · rintro ⟨hfirst, hlength, hpassed, hpending⟩
    refine ⟨?_, ?_, hpending⟩
    · rw [ticks, List.length_cons, hlength]
    · rw [ticks, List.forall_mem_cons]
      exact ⟨hfirst, hpassed⟩

namespace Session

variable {s next : Session} {times : List Nat} {limit time : Nat}

/-- **A higher limit.**  A run that is not cut off at its limit is the same with
a higher one; one that is cut off goes on from the session where it was. -/
theorem run_add (hs : s.state.isOver = false) (times : List Nat) (limit more time : Nat) :
    (¬ (s.run times limit time).CutOff limit
        ∧ s.run times (limit + more) time = s.run times limit time)
      ∨ ((s.run times limit time).CutOff limit
        ∧ Run.GoesOn (s.run times limit time).ticks
          ((s.run times limit time).last.run times more (time + limit))
          (s.run times (limit + more) time)) := by
  -- the induction is on the limit, from any session that is not over
  induction limit generalizing s time with
  | zero =>
    have hnone : ∀ t ∈ (s.run times 0 time).ticks, ∀ f, t.outcome ≠ .error f := by
      intro t ht
      exact absurd ht (by simp [run, Run.ticks])
    refine .inr ⟨⟨rfl, hnone, hs⟩, ?_⟩
    rw [Nat.zero_add, Nat.add_zero]
    exact ⟨rfl, rfl⟩
  | succ limit ih =>
    rw [Nat.succ_add]
    cases houtcome : (s.tick times time).outcome with
    | error f =>
      rw [run_succ_of_error houtcome, run_succ_of_error houtcome, Run.cutOff_tick]
      exact .inl ⟨fun hcut => hcut.1 f houtcome, rfl⟩
    | ok next =>
      cases hover : next.state.isOver with
      | true =>
        rw [run_succ_of_over houtcome hover, run_succ_of_over houtcome hover, Run.cutOff_tick]
        refine .inl ⟨fun hcut => ?_, rfl⟩
        have hpending : next.state.isOver = false := hcut.2.pending
        rw [hover] at hpending
        exact absurd hpending (by simp)
      | false =>
        rw [run_succ_of_next houtcome hover, run_succ_of_next houtcome hover, Run.cutOff_tick]
        have hpassed : ∀ f, (s.tick times time).outcome ≠ .error f := by simp [houtcome]
        rcases ih hover (time + 1) with ⟨hcut, hsame⟩ | ⟨hcut, hticks, hlast⟩
        · rw [hsame]
          exact .inl ⟨fun h => hcut h.2, rfl⟩
        · rw [Nat.add_right_comm] at hticks hlast
          exact .inr ⟨⟨hpassed, hcut⟩, congrArg _ hticks, hlast⟩

/-- Up to its limit a run is the beginning of the run with a higher one. -/
theorem ticks_run_prefix (hs : s.state.isOver = false) {limit' : Nat} (hle : limit ≤ limit') :
    (s.run times limit time).ticks <+: (s.run times limit' time).ticks := by
  obtain ⟨more, rfl⟩ := Nat.exists_eq_add_of_le hle
  rcases run_add hs times limit more time with ⟨-, hsame⟩ | ⟨-, hon⟩
  · exact ⟨[], by rw [List.append_nil, hsame]⟩
  · exact ⟨_, hon.ticks.symm⟩

/-- A run that is not cut off at its limit is the same with a higher one. -/
theorem run_eq_of_not_cutOff (hs : s.state.isOver = false) {limit' : Nat} (hle : limit ≤ limit')
    (h : ¬ (s.run times limit time).CutOff limit) :
    s.run times limit' time = s.run times limit time := by
  obtain ⟨more, rfl⟩ := Nat.exists_eq_add_of_le hle
  rcases run_add hs times limit more time with ⟨-, hsame⟩ | ⟨hcut, -⟩
  · exact hsame
  · exact absurd hcut h

end Session

/-! ## §2. Courses that are cut off. -/

/-- What is handed to an input instruction on the channel. -/
def Turn.handed (t : Turn) (channel : Byte) : List UInt16 :=
  if t.before.core.Reads t.input channel then
    ((t.input.datum.filter fun d => d.channel = channel).map InputDatum.content).toList
  else []

namespace Course

/-- The loop is cut off at the limit: it has made so many turns, none of them
failed, and the state is not over. -/
structure CutOff (c : Course) (limit : Nat) : Prop where
  length : c.turns.length = limit
  passed : ∀ t ∈ c.turns, ∀ f, t.outcome ≠ .error f
  pending : c.last.isOver = false

/-- **The second course goes on where the first ends.**  Up to there each turn is the
same, with its states and signals, and on every channel the same data are handed out.  If
the first is not cut off at its limit, the second does not go on at all. -/
structure Extends (limit : Nat) (first second : Course) : Prop where
  turns : first.turns <+: second.turns
  handed : ∀ channel,
    first.turns.flatMap (·.handed channel) <+: second.turns.flatMap (·.handed channel)
  same : ¬ first.CutOff limit → second.turns = first.turns ∧ second.last = first.last

theorem cutOff_watched {run : Run} {hooks : List Hook} {limit : Nat} (h : run.CutOff limit) :
    (watched run hooks).CutOff limit := by
  refine ⟨?_, ?_, ?_⟩
  · rw [turns_watched, List.length_map]
    exact h.length
  · intro t ht f hfault
    rw [turns_watched] at ht
    obtain ⟨tick, htick, rfl⟩ := List.mem_map.1 ht
    exact h.passed tick htick f (map_eq_error_iff.1 hfault)
  · rw [last_watched]
    exact h.pending

end Course

namespace Command.Emulator

/-! ## §3. What is run, and what is watched. -/

/-- The files of a request that make its run: those of memory, of the interrupts
and of the data.  All else is the limit, and what is watched. -/
def Request.runFiles (r : Request) : Text × Option Text × Option Text :=
  (r.input, r.interrupts, r.channels)

section TwoRequests

variable {readers : Readers} {disk : Disk} {r r' : Request} {s s' : Setup}

/-- What is watched does not matter for what is run. -/
theorem Setup.run_eq_of_runFiles (h : r'.runFiles = r.runFiles)
    (hs : r.setup? readers disk = some s) (hs' : r'.setup? readers disk = some s') (limit : Nat) :
    s'.run limit = s.run limit := by
  simp only [Request.runFiles, Prod.mk.injEq] at h
  obtain ⟨hinput, hinterrupts, hchannels⟩ := h
  obtain ⟨hmemory, htimes, hqueues, -⟩ := Request.setup?_eq_some_iff.1 hs
  obtain ⟨hmemory', htimes', hqueues', -⟩ := Request.setup?_eq_some_iff.1 hs'
  rw [hinput, hmemory] at hmemory'
  rw [hinterrupts, htimes] at htimes'
  rw [hchannels, hqueues] at hqueues'
  unfold Setup.run
  rw [Option.some.inj hmemory', Option.some.inj htimes', Option.some.inj hqueues']

/-- Two courses with the same run, but for its limit. -/
theorem extends_course (hlimit : r.steps ≤ r'.steps)
    (hrun : ∀ limit, s'.run limit = s.run limit) :
    Course.Extends r.steps (s.course r) (s'.course r') := by
  have hbegins : (s.run r.steps).ticks <+: (s'.run r'.steps).ticks := by
    rw [hrun]
    exact Session.ticks_run_prefix rfl hlimit
  have hturns : (s.course r).turns <+: (s'.course r').turns := by
    rw [turns_course, turns_course]
    exact hbegins.map Tick.turn
  refine ⟨hturns, fun channel => ?_, fun hcut => ?_⟩
  · obtain ⟨rest, hrest⟩ := hturns
    rw [← hrest, List.flatMap_append]
    exact List.prefix_append _ _
  · have hsame : s'.run r'.steps = s.run r.steps := by
      rw [hrun]
      refine Session.run_eq_of_not_cutOff rfl hlimit fun hcut' => hcut ?_
      rw [course_eq]
      exact Course.cutOff_watched hcut'
    rw [turns_course, turns_course, last_course, last_course, hsame]
    exact ⟨rfl, rfl⟩

end TwoRequests

/-- **Watching a run does not disturb it.**  Two requests are given that differ
in what they show on the way, in the display, in the snapshot and in the limit,
which is at least as high for the second.  Then the course of the second goes on where
that of the first is cut off, and is the same if it is not; and each does what its hooks
do in its course. -/
theorem runs_of_watched {readers : Readers} {disk : Disk} {r r' : Request} {s s' : Setup}
    (hs : r.setup? readers disk = some s) (hs' : r'.setup? readers disk = some s')
    (hfiles : r'.runFiles = r.runFiles) (hlimit : r.steps ≤ r'.steps) :
    Course.Extends r.steps (s.course r) (s'.course r')
      ∧ Script.DoesAs disk (runRequest readers r)
        (.sayAll (openingLines r s) fun _ => (s.course r).script)
      ∧ Script.DoesAs disk (runRequest readers r')
        (.sayAll (openingLines r' s') fun _ => (s'.course r').script) :=
  ⟨extends_course hlimit (Setup.run_eq_of_runFiles hfiles hs hs'), does_course hs, does_course hs'⟩

/-- The source with its data, and what to show after its first instruction. -/
def watchedDisk : Disk :=
  OrderedMap.insert (echoDisk "port.yml".toList) "view.yml".toList
    (Text.Utf8.encode "0: {stack: true, memory: [192]}".toList)

/-- Run the source with the data for at most so many steps. -/
def briefRequest (limit : Nat) : Request :=
  ⟨"p.asm".toList, some limit, none, some "port.yml".toList, none, false, false, none⟩

/-- Run the source with the data and show all that can be shown. -/
def watchedRequest : Request :=
  ⟨"p.asm".toList, none, none, some "port.yml".toList, some "view.yml".toList, true, true,
    some "out.yml".toList⟩

/-- Two steps are the first of the four, and nine are more than there are. -/
theorem runs_of_watched_echo : ∃ brief long all,
    (briefRequest 2).course? yaml watchedDisk = some brief
    ∧ (briefRequest 9).course? yaml watchedDisk = some long
    ∧ watchedRequest.course? yaml watchedDisk = some all
    ∧ brief.turns.length = 2 ∧ brief.turns <+: all.turns
    ∧ long.turns.length = 4 ∧ all.turns = long.turns ∧ all.last = long.last := by
  have hbrief : ((briefRequest 2).setup? yaml watchedDisk).map
      (fun s => (s.course (briefRequest 2)).turns.length) = some 2 := by decide +kernel
  have hlong : ((briefRequest 9).setup? yaml watchedDisk).map
      (fun s => (s.course (briefRequest 9)).turns.length) = some 4 := by decide +kernel
  have hall : (watchedRequest.setup? yaml watchedDisk).isSome = true := by decide +kernel
  obtain ⟨s, hs, hlength⟩ := Option.map_eq_some_iff.1 hbrief
  obtain ⟨s₁, hs₁, hlength₁⟩ := Option.map_eq_some_iff.1 hlong
  obtain ⟨s₂, hs₂⟩ := Option.isSome_iff_exists.1 hall
  obtain ⟨hbegins, -⟩ := runs_of_watched hs hs₂ rfl (by decide)
  obtain ⟨hsame, -⟩ := runs_of_watched hs₁ hs₂ rfl (by decide)
  have hcut : ¬ (s₁.course (briefRequest 9)).CutOff 9 := by
    intro hcut
    have hnine := hcut.length
    omega
  refine ⟨s.course _, s₁.course _, s₂.course _, ?_, ?_, ?_, hlength, hbegins.turns, hlength₁,
    hsame.same hcut⟩
  · rw [Request.course?, hs, Option.map_some]
  · rw [Request.course?, hs₁, Option.map_some]
  · rw [Request.course?, hs₂, Option.map_some]

end Command.Emulator

end EightBit
