/-
  EightBit.Proofs.Command.Hooks
  ─────────────────────────────
  **WHO WATCHES DOES NOT DISTURB.**

  Every hook is given the state and could hand on another one.  A hook observes
  if it never does, neither with the state nor with the signals, whatever it keeps
  for itself and whatever it prints.  The loop with the two hooks that feed a run and
  any observers behind them goes the way of the session alone: in every turn the
  signals are those of the tick, and the state is that of the next session.

  Main results:
    • `run_eq_watched`   — the loop with observers is a session that is watched;
    • `turns_watched`    — what is watched goes on as it does unwatched;
    • `script_watched`   — what the hooks of the emulator show of it.
-/
import EightBit.Command.Course
import EightBit.Proofs.Command.Performance
import EightBit.Proofs.Run.Input

namespace EightBit

/-! ## §1. Observers. -/

/-- **An observer** hands on everything as it is. -/
structure Hook.Observes (h : Hook) : Prop where
  init : ∀ own s, (h.init own s).value = s
  input : ∀ own time s signals, (h.input own time s signals).value = signals
  exec : ∀ own time ip s, (h.exec own time ip s).value = s
  exit : ∀ own s, (h.exit own s).value = s

namespace Hook

theorem observes_dumps (file : Option Text) (views : Report.Views) : (dumps file views).Observes :=
  ⟨fun _ _ => rfl, fun _ _ _ _ => rfl, fun _ _ _ _ => rfl, fun _ _ => rfl⟩

theorem observes_display (wanted : Bool) : (display wanted).Observes :=
  ⟨fun _ _ => rfl, fun _ _ _ _ => rfl, fun _ _ _ _ => rfl, fun _ _ => rfl⟩

theorem observes_snapshot (file : Option Text) : (snapshot file).Observes :=
  ⟨fun _ _ => rfl, fun _ _ _ _ => rfl, fun _ _ _ _ => rfl, fun _ _ => rfl⟩

section Calls

variable {α : Type} {call : (h : Hook) → α → Call h.Own α} {hooks : List Hook}

/-- What is handed from observer to observer stays as it is. -/
theorem value_callAll (h : ∀ hook ∈ hooks, ∀ a, (call hook a).value = a) (a : α) :
    (callAll call hooks a).value = a := by
  induction hooks generalizing a with
  | nil => rfl
  | cons hook hooks ih =>
    obtain ⟨hhook, hrest⟩ := List.forall_mem_cons.1 h
    rw [callAll, hhook a]
    exact ih hrest a

/-- An observer remains one, whatever it keeps. -/
theorem observes_of_mem_callAll (h : ∀ hook ∈ hooks, hook.Observes) {a : α} {hook : Hook}
    (hmem : hook ∈ (callAll call hooks a).hooks) : hook.Observes := by
  induction hooks generalizing a with
  | nil => exact absurd hmem (by simp [callAll])
  | cons first hooks ih =>
    obtain ⟨hfirst, hrest⟩ := List.forall_mem_cons.1 h
    rcases List.mem_cons.1 hmem with rfl | hmem
    · exact ⟨hfirst.init, hfirst.input, hfirst.exec, hfirst.exit⟩
    · exact ih hrest hmem

end Calls

/-! ## §2. The hooks that feed a run. -/

section Feeding

variable (file : Option Text) (times : List Nat) (queues : Queues) (hooks : List Hook)
  (time : Nat) (s : State)

/-- The interrupt is raised at its times. -/
theorem inputAll_interrupts :
    inputAll time s (interrupts file times :: hooks) .none =
      let round := inputAll time s hooks ⟨none, times.contains time⟩
      ⟨(if times.contains time then [.say (Report.interruptLine s.core.registers.sr.interrupt)]
          else []) ++ round.actions,
        interrupts file times :: round.hooks, round.value⟩ := by
  simp only [inputAll, callAll, interrupts]
  cases times.contains time <;> rfl

theorem execAll_interrupts (ip : Byte) :
    execAll time ip (interrupts file times :: hooks) s =
      let round := execAll time ip hooks s
      ⟨round.actions, interrupts file times :: round.hooks, round.value⟩ := rfl

/-- The datum is what a session offers. -/
theorem inputAll_channels (raised : Bool) :
    inputAll time s (channels file queues :: hooks) ⟨none, raised⟩ =
      let offered := (⟨s, queues⟩ : Session).offer raised
      let round := inputAll time s hooks ⟨offered.1, raised⟩
      ⟨round.actions, channels file offered.2 :: round.hooks, round.value⟩ := by
  simp only [inputAll, callAll, channels, Session.offer]
  cases s.signals.waiting with
  | none => rfl
  | some channel =>
    dsimp only
    split
    · rfl
    · cases queues.take? channel <;> rfl

/-- A session that is starved is ended. -/
theorem execAll_channels (ip : Byte) :
    execAll time ip (channels file queues :: hooks) s =
      let session := Session.settle ⟨s, queues⟩
      let round := execAll time ip hooks session.state
      ⟨(Report.signalLines session).map .say ++ round.actions,
        channels file queues :: round.hooks, round.value⟩ := by
  simp only [execAll, callAll, channels, Session.settle]
  split <;> rfl

end Feeding

end Hook

/-! ## §3. A session that is watched. -/

/-- What a tick is to the hooks. -/
def Tick.turn (t : Tick) : Turn :=
  ⟨t.time, t.before.state, t.input, t.outcome.map Session.state⟩

namespace Course

/-- **A run that is watched.**  The hooks see every tick, and nothing that they hand on
goes back to the run. -/
def watched : Run → List Hook → Course
  | .over s, hooks => leave hooks s.state
  | .tick t rest, hooks =>
    let core := t.before.state.core
    let taken := core.traps t.input
    let asked := Hook.inputAll t.time t.before.state hooks t.input
    let traced := (if t.input.interrupt then [.say (Report.interruptLine taken)] else [])
      ++ asked.actions ++ [.say (Report.traceLine t.time core taken)]
    match t.outcome with
    | .error f =>
      .turn t.turn (traced ++ (Report.faultLines f core.memory).map .say)
        fun _ => watched (rest ()) asked.hooks
    | .ok next =>
      let seen := Hook.execAll t.time core.registers.ip asked.hooks next.state
      .turn t.turn (traced ++ ((Report.signalLines next).map .say ++ seen.actions))
        fun _ => watched (rest ()) seen.hooks

section Observers

variable {hooks : List Hook} {times : List Nat} {time : Nat} {s : Session}

/-- Before a step the two hooks make up the signals of the tick. -/
theorem inputAll_feeding (file file' : Option Text) (h : ∀ hook ∈ hooks, hook.Observes) :
    Hook.inputAll time s.state (.interrupts file times :: .channels file' s.queues :: hooks) .none
      = ⟨(if (s.tick times time).input.interrupt then
            [.say (Report.interruptLine (s.state.core.traps (s.tick times time).input))] else [])
          ++ (Hook.inputAll time s.state hooks (s.tick times time).input).actions,
        .interrupts file times :: .channels file' (s.tick times time).left
          :: (Hook.inputAll time s.state hooks (s.tick times time).input).hooks,
        (s.tick times time).input⟩ := by
  have hobserved : (Hook.inputAll time s.state hooks (s.tick times time).input).value
      = (s.tick times time).input :=
    Hook.value_callAll (fun hook hmem a => (h hook hmem).input hook.own time s.state a) _
  -- the interrupt that is raised is taken where interrupts are allowed
  have hline : (if times.contains time then
        [Action.say (Report.interruptLine s.state.core.registers.sr.interrupt)] else [])
      = if (s.tick times time).input.interrupt then
        [.say (Report.interruptLine (s.state.core.traps (s.tick times time).input))] else [] := by
    have hraised : (s.tick times time).input.interrupt = times.contains time := rfl
    rw [Core.traps, hraised]
    cases times.contains time <;> rfl
  rw [Hook.inputAll_interrupts, Hook.inputAll_channels, hline]
  show (Round.mk _ _ (Hook.inputAll time s.state hooks (s.tick times time).input).value) = _
  rw [hobserved]
  rfl

/-- After a step the two hooks hand on the state of the next session. -/
theorem execAll_feeding (file file' : Option Text) (h : ∀ hook ∈ hooks, hook.Observes) (ip : Byte)
    (queues : Queues) (next : State) :
    Hook.execAll time ip (.interrupts file times :: .channels file' queues :: hooks) next
      = ⟨(Report.signalLines (Session.settle ⟨next, queues⟩)).map .say
          ++ (Hook.execAll time ip hooks (Session.settle ⟨next, queues⟩).state).actions,
        .interrupts file times :: .channels file' queues
          :: (Hook.execAll time ip hooks (Session.settle ⟨next, queues⟩).state).hooks,
        (Session.settle ⟨next, queues⟩).state⟩ := by
  have hobserved : (Hook.execAll time ip hooks (Session.settle ⟨next, queues⟩).state).value
      = (Session.settle ⟨next, queues⟩).state :=
    Hook.value_callAll (fun hook hmem a => (h hook hmem).exec hook.own time ip a) _
  rw [Hook.execAll_interrupts, Hook.execAll_channels]
  dsimp only
  rw [hobserved]

end Observers

/-- **The loop with observers is a session that is watched.**  Two hooks feed the run,
and behind them observers stand, any number of them and of any kind. -/
theorem run_eq_watched (file file' : Option Text) (times : List Nat) (limit : Nat) :
    ∀ (time : Nat) (s : Session) {hooks : List Hook}, (∀ hook ∈ hooks, hook.Observes) →
    run limit time (.interrupts file times :: .channels file' s.queues :: hooks) s.state
      = watched (s.run times limit time) hooks := by
  -- on the limit, with whatever the observers keep
  induction limit with
  | zero => exact fun time s hooks _ => rfl
  | succ limit ih =>
    intro time s hooks h
    -- whatever they keep from the call before the step, they are observers at the call after it
    have hoffered : ∀ hook ∈ (Hook.inputAll time s.state hooks (s.tick times time).input).hooks,
        hook.Observes := fun hook hmem => Hook.observes_of_mem_callAll h hmem
    have htick : (s.tick times time).outcome = (s.state.exec (s.tick times time).input).map
        fun state => Session.settle ⟨state, (s.tick times time).left⟩ := rfl
    rw [run, inputAll_feeding file file' h]
    dsimp only
    cases hexec : s.state.exec (s.tick times time).input with
    | error f =>
      rw [hexec] at htick
      rw [Session.run_succ_of_error htick, watched, Tick.turn, htick]
      rfl
    | ok next =>
      rw [hexec] at htick
      dsimp only
      rw [execAll_feeding file file' hoffered]
      have hseen : ∀ hook ∈ (Hook.execAll time s.state.core.registers.ip
          (Hook.inputAll time s.state hooks (s.tick times time).input).hooks
          (Session.settle ⟨next, (s.tick times time).left⟩).state).hooks, hook.Observes :=
        fun hook hmem => Hook.observes_of_mem_callAll hoffered hmem
      cases hover : (Session.settle ⟨next, (s.tick times time).left⟩).state.isOver with
      | true =>
        rw [Session.run_succ_of_over htick hover, watched, Tick.turn, htick]
        rfl
      | false =>
        -- settling ends a session but leaves its queues, so the channels go on with those
        have hnext := ih (time + 1) (Session.settle ⟨next, (s.tick times time).left⟩) hseen
        rw [Session.queues_settle] at hnext
        rw [Session.run_succ_of_next htick hover, watched, Tick.turn, htick]
        simp only [Bool.false_eq_true, if_false, hnext]
        rfl

/-! ## §4. What is watched goes on as it does unwatched. -/

theorem turns_watched (run : Run) (hooks : List Hook) :
    (watched run hooks).turns = run.ticks.map Tick.turn := by
  induction run generalizing hooks with
  | «over» s => rfl
  | tick t rest ih =>
    rw [watched]
    cases t.outcome with
    | error f => exact congrArg (t.turn :: ·) (ih () _)
    | ok next => exact congrArg (t.turn :: ·) (ih () _)

theorem last_watched (run : Run) (hooks : List Hook) :
    (watched run hooks).last = run.last.state := by
  induction run generalizing hooks with
  | «over» s => rfl
  | tick t rest ih =>
    rw [watched]
    cases t.outcome with
    | error f => exact ih () _
    | ok next => exact ih () _

end Course

/-! ## §5. What the emulator shows. -/

namespace Script

/-- Doing all this is doing the first part, then the second. -/
theorem act_append (actions actions' : List Action) (next : Unit → Script) :
    act (actions ++ actions') next = act actions fun _ => act actions' next := by
  induction actions with
  | nil => rfl
  | cons action actions ih =>
    cases action with
    | say line => exact congrArg (Script.say _) (funext fun _ => ih)
    | save file bytes report =>
      refine congrArg (Script.write _ _) (funext fun result => ?_)
      exact congrArg (Script.say _) (funext fun _ => ih)

theorem act_say (lines : List Styled) (next : Unit → Script) :
    act (lines.map .say) next = sayAll lines next := by
  induction lines with
  | nil => rfl
  | cons line lines ih => exact congrArg (Script.say _) (funext fun _ => ih)

theorem sayAll_append (lines lines' : List Styled) (next : Unit → Script) :
    sayAll (lines ++ lines') next = sayAll lines fun _ => sayAll lines' next := by
  rw [← act_say, ← act_say, List.map_append, act_append]
  simp only [act_say]

end Script

/-- The hooks that show something. -/
def Hook.watchers (file : Option Text) (v : Report.Views) (wanted : Bool)
    (target : Option Text) : List Hook :=
  [.dumps file v, .display wanted, .snapshot target]

section Watchers

variable (file : Option Text) (v : Report.Views) (wanted : Bool) (target : Option Text)

theorem Hook.observes_of_mem_watchers :
    ∀ hook ∈ watchers file v wanted target, hook.Observes := by
  simp only [watchers, List.forall_mem_cons]
  exact ⟨observes_dumps file v, observes_display wanted, observes_snapshot target, by simp⟩

/-- At each tick its lines are shown, and the hooks stay as they are. -/
theorem Course.watched_tick (t : Tick) (rest : Unit → Run) :
    watched (.tick t rest) (Hook.watchers file v wanted target)
      = .turn t.turn ((Report.tickLines v t).map .say)
          fun _ => watched (rest ()) (Hook.watchers file v wanted target) := by
  have hasked : ∀ time s signals,
      Hook.inputAll time s (Hook.watchers file v wanted target) signals
        = ⟨[], Hook.watchers file v wanted target, signals⟩ := fun _ _ _ => rfl
  have hseen : ∀ time ip s, Hook.execAll time ip (Hook.watchers file v wanted target) s
      = ⟨(Report.viewLines v ip s).map .say, Hook.watchers file v wanted target, s⟩ := by
    intro time ip s
    simp only [Hook.execAll, Hook.watchers, Hook.callAll, Hook.dumps, Hook.display, Hook.snapshot,
      List.append_nil]
  rw [watched, Report.tickLines]
  by_cases hraised : t.input.interrupt = true
  · cases t.outcome <;> simp [hraised, hasked, hseen]
  · cases t.outcome <;> simp [hraised, hasked, hseen]

/-- **What the emulator shows of a run** are the lines of its ticks, and behind them what
stands at the end. -/
theorem Course.script_watched (run : Run) :
    (watched run (Hook.watchers file v wanted target)).script
      = .sayAll (run.ticks.flatMap (Report.tickLines v)) fun _ =>
          (leave (Hook.watchers file v wanted target) run.last.state).script := by
  induction run with
  | «over» s => rfl
  | tick t rest ih =>
    rw [watched_tick, Course.script, Script.act_say, ih (), Run.ticks, List.flatMap_cons,
      Script.sayAll_append]
    rfl

end Watchers

end EightBit
