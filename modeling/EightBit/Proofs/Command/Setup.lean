/-
  EightBit.Proofs.Command.Setup
  ─────────────────────────────
  **WHAT A REQUEST DOES.**

  A request loads a file into memory and reads the files of its configuration;
  how these are read is left open.  What it does from there on is what the hooks do in
  the course of the main loop.  The hooks that show something only observe, so the course
  is that of the session alone, and what is shown are the lines of its ticks.

  Main results:
    • `does_course`  — a request does what its hooks do in the course of the loop;
    • `course_eq`    — that course is the run of the session, which is watched;
    • `does_run`     — a request shows the ticks of the run.
-/
import EightBit.Command.Request
import EightBit.Proofs.Command.Hooks

namespace EightBit

/-- On the disk both scripts do the same. -/
structure Script.DoesAs (disk : Disk) (script script' : Script) : Prop where
  perform : script.perform disk = script'.perform disk
  writes : script.writes disk = script'.writes disk

namespace Script.DoesAs

variable {disk : Disk} {first second third : Script}

theorem trans (h : DoesAs disk first second) (h' : DoesAs disk second third) :
    DoesAs disk first third :=
  ⟨h.perform.trans h'.perform, h.writes.trans h'.writes⟩

theorem sayAll (lines : List Styled) {next next' : Unit → Script}
    (h : DoesAs disk (next ()) (next' ())) :
    DoesAs disk (.sayAll lines next) (.sayAll lines next') := by
  constructor
  · rw [perform_sayAll, perform_sayAll, h.perform]
  · rw [writes_sayAll, writes_sayAll, h.writes]

end Script.DoesAs

namespace Command.Emulator

/-! ## §1. What a request loads. -/

/-- The memory that is loaded from the file. -/
def loaded? (disk : Disk) (file : Text) : Option Memory :=
  (disk.read? file).bind fun bytes =>
    if isSource file then
      (Text.Utf8.decode? bytes).bind fun source => (assemble source).toOption.map Assembled.memory
    else some (.ofBytes bytes)

/-- The configuration that is loaded from the file, and the default without one. -/
def configured? {α : Type} (disk : Disk) (file : Option Text) (read : List Byte → Option α)
    (default : α) : Option α :=
  match file with
  | none => some default
  | some file => (disk.read? file).bind read

/-- What the request has loaded from its files, if all of them can be used. -/
def Request.setup? (readers : Readers) (disk : Disk) (r : Request) : Option Setup :=
  (loaded? disk r.input).bind fun memory =>
    (configured? disk r.interrupts readers.times? []).bind fun times =>
      (configured? disk r.channels readers.queues? .empty).bind fun queues =>
        (configured? disk r.views readers.views? .empty).map fun views =>
          ⟨memory, times, queues, views⟩

/-- **The course of the request**, if its files can be used. -/
def Request.course? (readers : Readers) (disk : Disk) (r : Request) : Option Course :=
  (r.setup? readers disk).map fun s => s.course r

variable {readers : Readers} {disk : Disk} {r : Request} {s : Setup}

theorem Request.setup?_eq_some_iff : r.setup? readers disk = some s
    ↔ loaded? disk r.input = some s.memory
      ∧ configured? disk r.interrupts readers.times? [] = some s.times
      ∧ configured? disk r.channels readers.queues? .empty = some s.queues
      ∧ configured? disk r.views readers.views? .empty = some s.views := by
  constructor
  · intro h
    obtain ⟨memory, hmemory, h⟩ := Option.bind_eq_some_iff.1 h
    obtain ⟨times, htimes, h⟩ := Option.bind_eq_some_iff.1 h
    obtain ⟨queues, hqueues, h⟩ := Option.bind_eq_some_iff.1 h
    obtain ⟨views, hviews, rfl⟩ := Option.map_eq_some_iff.1 h
    exact ⟨hmemory, htimes, hqueues, hviews⟩
  · rintro ⟨hmemory, htimes, hqueues, hviews⟩
    simp only [setup?, hmemory, htimes, hqueues, hviews, Option.bind_some, Option.map_some]

theorem does_loadMemory {file : Text} {m : Memory} (h : loaded? disk file = some m)
    (next : Memory → Script) : Script.DoesAs disk (loadMemory file next) (next m) := by
  obtain ⟨bytes, hread, h⟩ := Option.bind_eq_some_iff.1 h
  unfold loadMemory
  split at h
  · next hsource =>
    obtain ⟨source, htext, h⟩ := Option.bind_eq_some_iff.1 h
    obtain ⟨p, hp, rfl⟩ := exists_of_toOption_map h
    constructor <;>
      simp only [hsource, if_true, readSource, Script.perform, Script.writes, hread, htext,
        assembleSource, hp]
  · next hsource =>
    obtain rfl := Option.some.inj h
    constructor <;>
      simp only [hsource, Bool.false_eq_true, if_false, Script.perform, Script.writes, hread]

theorem does_loadConfig {α : Type} {file : Option Text} {read : List Byte → Option α}
    {default config : α} (h : configured? disk file read default = some config)
    (next : α → Script) :
    Script.DoesAs disk (loadConfig file read default next) (next config) := by
  cases file with
  | none =>
    obtain rfl := Option.some.inj h
    exact ⟨rfl, rfl⟩
  | some file =>
    obtain ⟨bytes, hread, hconfig⟩ := Option.bind_eq_some_iff.1 h
    constructor <;> simp only [loadConfig, Script.perform, Script.writes, hread, hconfig]

/-! ## §2. The course of a request. -/

/-- The lines of the hooks before the run. -/
def hookLines (r : Request) (s : Setup) : List Styled :=
  Hook.configLine "Intr" s.times.length r.interrupts
    ++ (Hook.configLine "Port" s.queues.total r.channels
      ++ s.queues.unreadable.map fun channel =>
        Report.warning ("port ".toList ++ Text.Hex.ofByte channel ++ " is never read".toList))
    ++ ((if r.everywhere then [.ofText " * Dump all".toList] else [])
      ++ Hook.configLine "Dump" s.views.size r.views)

/-- What is shown before the run. -/
def openingLines (r : Request) (s : Setup) : List Styled :=
  titleLines r.input ++ [line "[INIT]".toList] ++ (hookLines r s ++ [line "[RUN]".toList])

/-- At the start no hook changes the state or what it keeps. -/
theorem Setup.start_eq (s : Setup) (r : Request) :
    s.start r = ⟨(hookLines r s).map .say, r.hooks s, .initial s.memory⟩ := by
  have hactions : (s.start r).actions = (hookLines r s).map .say := by
    simp only [Setup.start, Hook.initAll, Request.hooks, Hook.callAll, Hook.interrupts,
      Hook.channels, Hook.dumps, Hook.display, Hook.snapshot, hookLines, List.map_append,
      List.append_nil, List.append_assoc]
  rw [← hactions]
  rfl

theorem does_runFrom (hs : r.setup? readers disk = some s) :
    Script.DoesAs disk (runFrom readers r s.memory)
      (.sayAll ([line "[INIT]".toList] ++ (hookLines r s ++ [line "[RUN]".toList]))
        fun _ => (s.course r).script) := by
  obtain ⟨-, htimes, hqueues, hviews⟩ := Request.setup?_eq_some_iff.1 hs
  rw [Script.sayAll_append]
  -- the files of the configuration are read in the order of the hooks
  refine .sayAll _ ?_
  refine (does_loadConfig htimes _).trans ?_
  refine (does_loadConfig hqueues _).trans ?_
  refine (does_loadConfig hviews _).trans ?_
  have hlines : ((s.start r).actions ++ [.say (line "[RUN]".toList)])
      = (hookLines r s ++ [line "[RUN]".toList]).map .say := by
    rw [s.start_eq r, List.map_append]
    rfl
  show Script.DoesAs disk (.act ((s.start r).actions ++ _) fun _ => (s.course r).script) _
  rw [hlines, Script.act_say]
  exact ⟨rfl, rfl⟩

/-- **A request does what its hooks do in the course of the loop.** -/
theorem does_course (hs : r.setup? readers disk = some s) :
    Script.DoesAs disk (runRequest readers r)
      (.sayAll (openingLines r s) fun _ => (s.course r).script) := by
  obtain ⟨hmemory, -⟩ := Request.setup?_eq_some_iff.1 hs
  rw [openingLines, List.append_assoc, Script.sayAll_append]
  exact .sayAll _ ((does_loadMemory hmemory _).trans (does_runFrom hs))

/-! ## §3. The run of a request. -/

/-- The states that are run through, and the data that are taken. -/
def Setup.run (s : Setup) (limit : Nat) : Run :=
  (Session.initial s.memory s.queues).run s.times limit 0

/-- The hooks of a request that show something. -/
def Request.watchers (r : Request) (s : Setup) : List Hook :=
  Hook.watchers r.views ⟨s.views, r.everywhere⟩ r.display r.snapshot

/-- **The course of a request is the run of the session**, which is watched. -/
theorem course_eq (s : Setup) (r : Request) :
    s.course r = .watched (s.run r.steps) (r.watchers s) := by
  have hfed : r.hooks s = .interrupts r.interrupts s.times :: .channels r.channels s.queues
      :: r.watchers s := rfl
  rw [Setup.course, s.start_eq r, hfed]
  exact Course.run_eq_watched r.interrupts r.channels s.times r.steps 0
    (Session.initial s.memory s.queues) (Hook.observes_of_mem_watchers _ _ _ _)

theorem turns_course (s : Setup) (r : Request) :
    (s.course r).turns = (s.run r.steps).ticks.map Tick.turn := by
  rw [course_eq, Course.turns_watched]

theorem last_course (s : Setup) (r : Request) :
    (s.course r).last = (s.run r.steps).last.state := by
  rw [course_eq, Course.last_watched]

/-- **A request shows the ticks of its run**, and then what stands at the end. -/
theorem does_run (hs : r.setup? readers disk = some s) :
    Script.DoesAs disk (runRequest readers r)
      (.sayAll (openingLines r s
          ++ (s.run r.steps).ticks.flatMap (Report.tickLines ⟨s.views, r.everywhere⟩))
        fun _ => (Course.leave (r.watchers s) (s.course r).last).script) := by
  have hcourse := does_course hs
  rw [course_eq, Request.watchers, Course.script_watched, ← Script.sayAll_append] at hcourse
  rw [last_course]
  exact hcourse

end Command.Emulator

end EightBit
