/-
  EightBit.Proofs.Command.Snapshot
  ────────────────────────────────
  **THE SNAPSHOT IS THE LAST GOOD STATE.**

  The emulator ends a run for one of four reasons, and then writes the core to a
  file.  The file can be read back, so it tells all of the core; and the core is that
  of the steps that succeeded.  A step that fails may have pushed a byte before it
  did: nothing of this is in the file.

  Main results:
    • `core?_text`          — the document is read back;
    • `foldlM_exec_of_run`  — a run is its successful steps, one after another;
    • `core_of_fault`       — a step that fails leaves the core as it was;
    • `does_saveAndEnd`     — a request writes at its end, and nothing else;
    • `snapshot_of_run`     — what it holds, whatever run it is of.
-/
import EightBit.Command.Emulator
import EightBit.Proofs.Command.Setup
import EightBit.Proofs.Program.Loading

namespace EightBit

/-! ## §1. Rows. -/

theorem flatten_rowsOf16 {bytes : List Byte} : (Report.rowsOf16 bytes).flatten = bytes := by
  have htake : ∀ k, ((List.range k).map fun n => (bytes.drop (16 * n)).take 16).flatten
      = bytes.take (16 * k) := by
    intro k
    induction k with
    | zero => simp
    | succ k ih =>
      rw [List.range_succ, List.map_append, List.flatten_append, ih, Nat.mul_succ, List.take_add]
      simp
  unfold Report.rowsOf16
  rw [htake, List.take_of_length_le (by omega)]

theorem ne_nil_of_mem_rowsOf16 {bytes row : List Byte} (h : row ∈ Report.rowsOf16 bytes) :
    row ≠ [] := by
  obtain ⟨n, hn, rfl⟩ := List.mem_map.1 h
  rw [List.mem_range] at hn
  rw [← List.length_pos_iff, List.length_take, List.length_drop]
  omega

theorem Memory.ofBytes_toList (m : Memory) : Memory.ofBytes m.toList = m := by
  refine Memory.ext_get fun a => ?_
  rw [Memory.get_ofBytes, Memory.getElem?_toList, Option.getD_some]

namespace Snapshot

/-! ## §2. Reading the document. -/

/-- What stands behind the label in the line, as it is read. -/
def labelled? {α : Type} (label : Text) (read : Text → Option α) (line : Text) : Option α :=
  if label.isPrefixOf line then read (line.drop label.length) else none

def byte? (t : Text) : Option Byte := (Text.Decimal.value? t).bind Byte.ofNat?

def bool? (t : Text) : Option Bool :=
  if t = "true".toList then some true else if t = "false".toList then some false else none

/-- The registers from their lines. -/
def registers? : List Text → Option Registers
  | [registers, gpr, al, bl, cl, dl, ip, sp, sr, zero, overflow, sign, interrupt] => do
    guard (registers = "registers:".toList ∧ gpr = "  gpr:".toList ∧ sr = "  sr:".toList)
    let al ← labelled? "  - ".toList byte? al
    let bl ← labelled? "  - ".toList byte? bl
    let cl ← labelled? "  - ".toList byte? cl
    let dl ← labelled? "  - ".toList byte? dl
    let ip ← labelled? "  ip: ".toList byte? ip
    let sp ← labelled? "  sp: ".toList byte? sp
    let zero ← labelled? "    zero: ".toList bool? zero
    let overflow ← labelled? "    overflow: ".toList bool? overflow
    let sign ← labelled? "    sign: ".toList bool? sign
    let interrupt ← labelled? "    interrupt: ".toList bool? interrupt
    pure ⟨al, bl, cl, dl, ip, sp, ⟨zero, overflow, sign, interrupt⟩⟩
  | _ => none

/-- The bytes of a row. -/
def row? (t : Text) : Option (List Byte) := (Text.fields ' ' t).mapM Text.Hex.byte?

/-- Memory from its lines, which must give all of it. -/
def memory? : List Text → Option Memory
  | [] => none
  | heading :: rows => do
    guard (heading = "memory:".toList)
    let rows ← rows.mapM (labelled? "- ".toList row?)
    guard (rows.flatten.length = 256)
    pure (.ofBytes rows.flatten)

/-- The core that the document is of; its lines end with a newline each. -/
def core? (t : Text) : Option Core := do
  let lines := (Text.fields '\n' t).dropLast
  let registers ← registers? (lines.take 13)
  let memory ← memory? (lines.drop 13)
  pure ⟨memory, registers⟩

/-- The core that is in the file. -/
def decode? (bytes : List Byte) : Option Core := (Text.Utf8.decode? bytes).bind core?

/-! ## §3. What is written is read back. -/

theorem labelled?_append {α : Type} (label : Text) (read : Text → Option α) (rest : Text) :
    labelled? label read (label ++ rest) = read rest := by
  unfold labelled?
  rw [if_pos (List.isPrefixOf_iff_prefix.2 (List.prefix_append label rest)), List.drop_left]

theorem byte?_decimal (b : Byte) : byte? (Text.decimal b.toNat) = some b := by
  rw [byte?, Text.Decimal.value?_decimal, Option.bind_some]
  exact Byte.ofNat?_eq_some_iff.2 rfl

theorem bool?_boolText (b : Bool) : bool? (boolText b) = some b := by cases b <;> rfl

theorem registerLines_eq (rs : Registers) : registerLines rs =
    [ "registers:".toList, "  gpr:".toList,
      "  - ".toList ++ Text.decimal rs.al.toNat, "  - ".toList ++ Text.decimal rs.bl.toNat,
      "  - ".toList ++ Text.decimal rs.cl.toNat, "  - ".toList ++ Text.decimal rs.dl.toNat,
      "  ip: ".toList ++ Text.decimal rs.ip.toNat, "  sp: ".toList ++ Text.decimal rs.sp.toNat,
      "  sr:".toList, "    zero: ".toList ++ boolText rs.sr.zero,
      "    overflow: ".toList ++ boolText rs.sr.overflow,
      "    sign: ".toList ++ boolText rs.sr.sign,
      "    interrupt: ".toList ++ boolText rs.sr.interrupt ] := rfl

/-- The registers are read back. -/
theorem registers?_registerLines (rs : Registers) : registers? (registerLines rs) = some rs := by
  have hbyte : ∀ (label : Text) (b : Byte),
      labelled? label byte? (label ++ Text.decimal b.toNat) = some b := by
    intro label b
    rw [labelled?_append, byte?_decimal]
  have hbool : ∀ (label : Text) (b : Bool),
      labelled? label bool? (label ++ boolText b) = some b := by
    intro label b
    rw [labelled?_append, bool?_boolText]
  simp only [registerLines_eq, registers?, hbyte, hbool]
  rfl

theorem row?_joinWith {row : List Byte} (hne : row ≠ []) :
    row? (Text.joinWith [' '] (row.map Text.Hex.ofByte)) = some row := by
  have hblank : ∀ part ∈ row.map Text.Hex.ofByte, ' ' ∉ part := by
    intro part hpart
    obtain ⟨b, -, rfl⟩ := List.mem_map.1 hpart
    exact Text.Hex.not_mem_ofByte (by decide) b
  rw [row?, Text.fields_joinWith (by simpa using hne) hblank]
  exact mapM_map_eq_some fun b _ => Text.Hex.byte?_ofByte b

/-- Memory is read back. -/
theorem memory?_memoryLines (m : Memory) : memory? (memoryLines m) = some m := by
  have hrows : ((Report.rowsOf16 m.toList).map fun row =>
        "- ".toList ++ Text.joinWith [' '] (row.map Text.Hex.ofByte)).mapM
        (labelled? "- ".toList row?)
      = some (Report.rowsOf16 m.toList) := by
    refine mapM_map_eq_some fun row hrow => ?_
    rw [labelled?_append, row?_joinWith (ne_nil_of_mem_rowsOf16 hrow)]
  have hlength : m.toList.length = 256 := Vector.length_toList
  simp only [memory?, memoryLines, hrows, Option.bind_eq_bind, Option.bind_some,
    flatten_rowsOf16, hlength, Memory.ofBytes_toList]
  rfl

theorem newline_not_mem {c : Core} : ∀ line ∈ registerLines c.registers ++ memoryLines c.memory,
    '\n' ∉ line := by
  have hnumber : ∀ n : Nat, '\n' ∉ Text.decimal n := by
    intro n hmem
    exact absurd (Nat.isDigit_of_mem_toDigits (by decide) (by decide) hmem) (by decide)
  have hbool : ∀ b : Bool, '\n' ∉ boolText b := by decide
  have hregisters : ∀ line ∈ registerLines c.registers, '\n' ∉ line := by
    simp [registerLines_eq, hnumber, hbool]
  have hrows : ∀ row : List Byte, '\n' ∉ Text.joinWith [' '] (row.map Text.Hex.ofByte) := by
    intro row
    refine Text.not_mem_joinWith (by decide) fun part hpart => ?_
    obtain ⟨b, -, rfl⟩ := List.mem_map.1 hpart
    exact Text.Hex.not_mem_ofByte (by decide) b
  have hmemory : ∀ line ∈ memoryLines c.memory, '\n' ∉ line := by
    simp [memoryLines, hrows]
  exact List.forall_mem_append.2 ⟨hregisters, hmemory⟩

/-- **The document is read back.** -/
theorem core?_text (c : Core) : core? (text c) = some c := by
  have hlines : (Text.fields '\n' (text c)).dropLast
      = registerLines c.registers ++ memoryLines c.memory := by
    rw [text, Text.fields_flatten_lines newline_not_mem, List.dropLast_concat]
  have htake : (registerLines c.registers ++ memoryLines c.memory).take 13
      = registerLines c.registers := List.take_left' rfl
  have hdrop : (registerLines c.registers ++ memoryLines c.memory).drop 13
      = memoryLines c.memory := List.drop_left' rfl
  simp only [core?, hlines, htake, hdrop, registers?_registerLines, memory?_memoryLines]
  rfl

theorem decode?_encode (c : Core) : decode? (Text.Utf8.encode (text c)) = some c := by
  rw [decode?, Text.Utf8.decode?_encode, Option.bind_some, core?_text]

end Snapshot

/-! ## §4. The steps of a run. -/

/-- The signals of the steps that succeed, in order. -/
def Run.inputs (r : Run) : List InputSignals :=
  (r.ticks.filter fun t => t.outcome.isOk).map Tick.input

namespace Session

variable {s : Session} {times : List Nat} {limit time : Nat}

/-- **A run is its successful steps, one after another**, from any state with the same
core. -/
theorem foldlM_exec_of_run {first : State} (hfirst : first.core = s.state.core)
    (times : List Nat) (limit time : Nat) :
    ∃ final, (s.run times limit time).inputs.foldlM State.exec first = .ok final
      ∧ final.core = (s.run times limit time).last.state.core := by
  -- on the limit; a session may be terminated from outside, so only the cores agree
  induction limit generalizing s first time with
  | zero => exact ⟨first, rfl, hfirst⟩
  | succ limit ih =>
    cases houtcome : (s.tick times time).outcome with
    | error f =>
      rw [run_succ_of_error houtcome]
      have hnone : (Run.tick (s.tick times time) fun _ => .over s).inputs = [] := by
        simp [Run.inputs, Run.ticks, houtcome, Except.isOk, Except.toBool]
      rw [hnone]
      exact ⟨first, rfl, hfirst⟩
    | ok next =>
      obtain ⟨step, hstep, -, hcore, -⟩ := outcome_tick_eq_ok houtcome
      have hexec : first.exec (s.tick times time).input
          = .ok ⟨step.core, step.signals, step.changes, first.terminated⟩ := by
        rw [State.exec, hfirst, hstep]
        rfl
      have hinputs : ∀ rest, (Run.tick (s.tick times time) rest).inputs
          = (s.tick times time).input :: (rest ()).inputs := by
        intro rest
        simp [Run.inputs, Run.ticks, houtcome, Except.isOk, Except.toBool]
      cases hover : next.state.isOver with
      | true =>
        rw [run_succ_of_over houtcome hover, hinputs, List.foldlM_cons, hexec, ok_bind]
        exact ⟨_, rfl, hcore.symm⟩
      | false =>
        rw [run_succ_of_next houtcome hover, hinputs, List.foldlM_cons, hexec, ok_bind]
        exact ih hcore.symm (time + 1)

/-- **A step that fails leaves the core as it was**, and the run is over. -/
theorem core_of_fault {t : Tick} (h : t ∈ (s.run times limit time).ticks) {f : Fault}
    (hfault : t.outcome = .error f) :
    (s.run times limit time).last.state.core = t.before.state.core := by
  induction limit generalizing s time with
  | zero => exact absurd h (by simp [run, Run.ticks])
  | succ limit ih =>
    cases houtcome : (s.tick times time).outcome with
    | error f' =>
      rw [run_succ_of_error houtcome] at h ⊢
      obtain rfl := List.mem_singleton.1 h
      rfl
    | ok next =>
      have hother : t ≠ s.tick times time := by
        rintro rfl
        exact absurd (hfault.symm.trans houtcome) (by simp)
      cases hover : next.state.isOver with
      | true =>
        rw [run_succ_of_over houtcome hover] at h
        exact absurd (List.mem_singleton.1 h) hother
      | false =>
        rw [run_succ_of_next houtcome hover] at h ⊢
        exact ih ((List.mem_cons.1 h).resolve_left hother)

end Session

/-- The signals of the turns whose steps succeed, in order. -/
def Course.inputs (c : Course) : List InputSignals :=
  (c.turns.filter fun t => t.outcome.isOk).map Turn.input

theorem Course.inputs_watched (run : Run) (hooks : List Hook) :
    (watched run hooks).inputs = run.inputs := by
  have hok : ∀ t : Tick, t.turn.outcome.isOk = t.outcome.isOk := by
    intro t
    rw [Tick.turn]
    cases t.outcome <;> rfl
  rw [inputs, turns_watched, List.filter_map, List.map_map]
  simp only [Function.comp_def, hok]
  rfl

/-! ## §5. The file. -/

/-- A file of this name can be written: it has a name, and its directory is there. -/
def Disk.Writable (disk : Disk) (file : Text) : Prop :=
  path file ≠ [] ∧ disk.hasDirectory (path file).dropLast = true

namespace Command.Emulator

section Request

variable {readers : Readers} {disk : Disk} {r : Request} {s : Setup}

/-- Write the document of the core to the file if there is one, and end. -/
def saveAndEnd (file : Option Text) (c : Core) : Script :=
  match file with
  | none => .sayAll [lastLine] fun _ => .done 0
  | some file =>
    .write file (Text.Utf8.encode (Snapshot.text c)) fun result =>
      .sayAll [Hook.savedLine file result, lastLine] fun _ => .done 0

/-- At the end of the run the display is shown, and the snapshot is written. -/
theorem script_leave (r : Request) (s : Setup) (last : State) :
    (Course.leave (r.watchers s) last).script
      = .sayAll (.ofText "[EXIT]".toList
          :: if r.display then Report.displayLines last.core.memory else [])
        fun _ => saveAndEnd r.snapshot last.core := by
  have hactions : (Hook.exitAll (r.watchers s) last).actions
      = (if r.display then Report.displayLines last.core.memory else []).map .say
        ++ r.snapshot.toList.map fun file =>
          .save file (Text.Utf8.encode (Snapshot.text last.core)) (Hook.savedLine file) := by
    simp only [Hook.exitAll, Request.watchers, Hook.watchers, Hook.callAll, Hook.dumps,
      Hook.display, Hook.snapshot, List.nil_append, List.append_nil]
  rw [Course.leave, Course.script, hactions]
  -- what is shown does not matter for what is saved behind it
  generalize (if r.display then Report.displayLines last.core.memory else []) = shown
  rw [← List.cons_append, ← List.map_cons, List.append_assoc, Script.act_append, Script.act_say]
  congr 1
  funext _
  cases r.snapshot with
  | none => rfl
  | some file => rfl

/-- A file that can be written is all that is written at the end, and it stays. -/
theorem saveAndEnd_of_writable {file : Text} (hwritable : disk.Writable file) (c : Core) :
    (saveAndEnd (some file) c).writes disk = [(file, Text.Utf8.encode (Snapshot.text c))]
      ∧ ((saveAndEnd (some file) c).perform disk).disk.read? file
        = some (Text.Utf8.encode (Snapshot.text c)) := by
  have hwrite : disk.write? file (Text.Utf8.encode (Snapshot.text c))
      = some (OrderedMap.insert disk (Disk.name file) (Text.Utf8.encode (Snapshot.text c))) :=
    Disk.write?_eq_some_iff.2 ⟨hwritable.1, hwritable.2, rfl⟩
  simp only [saveAndEnd, Script.writes, Script.perform, hwrite, Script.writes_sayAll,
    Script.perform_sayAll]
  exact ⟨trivial, Disk.read?_write? hwrite⟩

/-- Whatever is written at the end is the document of the core. -/
theorem eq_of_mem_saveAndEnd {target : Option Text} {c : Core} {file : Text} {bytes : List Byte}
    (h : (file, bytes) ∈ (saveAndEnd target c).writes disk) :
    bytes = Text.Utf8.encode (Snapshot.text c) := by
  cases target with
  | none => exact absurd h (by simp [saveAndEnd, Script.writes_sayAll, Script.writes])
  | some target =>
    simp only [saveAndEnd, Script.writes] at h
    split at h
    · simp only [Script.writes_sayAll, Script.writes, List.mem_singleton, Prod.mk.injEq] at h
      exact h.2
    · exact absurd h (by simp [Script.writes_sayAll, Script.writes])

/-- What a request writes is written at its end. -/
theorem does_saveAndEnd (hs : r.setup? readers disk = some s) : ∃ lines,
    Script.DoesAs disk (runRequest readers r)
      (.sayAll lines fun _ => saveAndEnd r.snapshot (s.course r).last.core) := by
  have hrun := does_run hs
  rw [script_leave, ← Script.sayAll_append] at hrun
  exact ⟨_, hrun⟩

end Request

/-! ## §6. The snapshot of a run. -/

/-- **The snapshot** of the request: it leaves the bytes in the file. -/
structure Recorded (readers : Readers) (disk : Disk) (r : Request) (s : Setup) (file : Text)
    (bytes : List Byte) : Prop where
  /-- This is the one file that is written. -/
  writes_eq : (runRequest readers r).writes disk = [(file, bytes)]
  read?_eq : ((runRequest readers r).perform disk).disk.read? file = some bytes
  /-- It is read back as the core to which the successful steps lead. -/
  iterated : ∃ final, (s.course r).inputs.foldlM State.exec (.initial s.memory) = .ok final
    ∧ Snapshot.decode? bytes = some final.core
  /-- That is the core at the end of the run. -/
  last : Snapshot.decode? bytes = some (s.course r).last.core
  /-- After a step that failed it is the core before this step. -/
  undone : ∀ t ∈ (s.course r).turns, ∀ f, t.outcome = .error f →
    Snapshot.decode? bytes = some t.before.core
  /-- No request that ends with another core writes these bytes. -/
  distinguishes : ∀ readers' disk' r' s' file', r'.setup? readers' disk' = some s' →
    (file', bytes) ∈ (runRequest readers' r').writes disk' →
    (s'.course r').last.core = (s.course r).last.core

/-- **The snapshot is the last good state**, whatever ends the run. -/
theorem snapshot_of_run {readers : Readers} {disk : Disk} {r : Request} {s : Setup} {file : Text}
    (hs : r.setup? readers disk = some s) (hfile : r.snapshot = some file)
    (hwritable : disk.Writable file) : ∃ bytes, Recorded readers disk r s file bytes := by
  obtain ⟨lines, hdoes⟩ := does_saveAndEnd hs
  rw [hfile] at hdoes
  obtain ⟨hwrites, hread⟩ := saveAndEnd_of_writable hwritable (s.course r).last.core
  obtain ⟨final, hfold, hfinal⟩ := Session.foldlM_exec_of_run
    (s := Session.initial s.memory s.queues) rfl s.times r.steps 0
  have hdecode := Snapshot.decode?_encode (s.course r).last.core
  refine ⟨Text.Utf8.encode (Snapshot.text (s.course r).last.core), ?_, ?_, ⟨final, ?_, ?_⟩, hdecode,
    ?_, ?_⟩
  · rw [hdoes.writes, Script.writes_sayAll, hwrites]
  · rw [hdoes.perform, Script.perform_sayAll]
    exact hread
  · rw [course_eq, Course.inputs_watched]
    exact hfold
  · rw [hdecode, last_course, hfinal]
    rfl
  · intro t ht f hfault
    rw [turns_course] at ht
    obtain ⟨tick, htick, rfl⟩ := List.mem_map.1 ht
    rw [hdecode, last_course, Setup.run,
      Session.core_of_fault htick (map_eq_error_iff.1 hfault)]
    rfl
  · intro readers' disk' r' s' file' hs' hmem
    obtain ⟨lines', hdoes'⟩ := does_saveAndEnd hs'
    rw [hdoes'.writes, Script.writes_sayAll] at hmem
    -- both are read back, so the same bytes are of the same core
    have hsame := eq_of_mem_saveAndEnd hmem
    rw [hsame, Snapshot.decode?_encode] at hdecode
    exact Option.some.inj hdecode

/-- A binary that puts 41 in AL and calls the last two bytes of memory, where AL is
pushed. -/
def lastPushDisk : Disk :=
  OrderedMap.insert .empty "p.bin".toList
    ([0xD0, 0x00, 0x41, 0xCA, 0xFE] ++ List.replicate 249 0x00 ++ [0xE0, 0x00])

/-- Run the binary and write a snapshot. -/
def lastPushRequest : Request :=
  ⟨"p.bin".toList, none, none, none, none, false, false, some "out.yml".toList⟩

/-- The push has no successor, so it fails; what it has pushed by then does not show. -/
theorem snapshot_of_run_lastPush : ∃ s bytes,
    lastPushRequest.setup? yaml lastPushDisk = some s
    ∧ Recorded yaml lastPushDisk lastPushRequest s "out.yml".toList bytes
    ∧ (s.course lastPushRequest).turns.map (fun t => t.outcome.toOption.isSome)
      = [true, true, false]
    ∧ (Snapshot.decode? bytes).map (fun c => (c.registers.al, c.registers.ip, c.registers.sp,
        c.memory.get 0xBF, c.memory.get 0xBE)) = some (0x41, 0xFE, 0xBE, 0x05, 0x00) := by
  have hrun : ((lastPushRequest.setup? yaml lastPushDisk).map fun s =>
        ((s.course lastPushRequest).turns.map (fun t => t.outcome.toOption.isSome),
          (s.course lastPushRequest).last.core.registers,
          (s.course lastPushRequest).last.core.memory.get 0xBF,
          (s.course lastPushRequest).last.core.memory.get 0xBE))
      = some ([true, true, false], ⟨0x41, 0, 0, 0, 0xFE, 0xBE, .clear⟩, 0x05, 0x00) := by
    decide +kernel
  obtain ⟨s, hs, hrun⟩ := Option.map_eq_some_iff.1 hrun
  simp only [Prod.mk.injEq] at hrun
  obtain ⟨hturns, hregisters, hbelow, htop⟩ := hrun
  have hwritable : lastPushDisk.Writable "out.yml".toList := ⟨by decide, by decide⟩
  obtain ⟨bytes, hbytes⟩ := snapshot_of_run hs rfl hwritable
  refine ⟨s, bytes, hs, hbytes, hturns, ?_⟩
  rw [hbytes.last, Option.map_some, hregisters, hbelow, htop]

end Command.Emulator

end EightBit
