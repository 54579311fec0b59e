/-
  EightBit.Proofs.Run.Straight
  ────────────────────────────
  **STRAIGHT CODE STAYS ON COURSE.**

  A run of straight code that takes no interrupt and does not write over its
  own bytes goes from instruction to instruction: what follows an instruction
  is an instruction, a label is in front of one, and the bytes of each are as
  they were assembled.  So nothing that it does can fail to be decoded, or lead
  out of memory.

  Main results:
    • `outcome_step_of_onCourse`  — one step;
    • `onCourse_of_assemble`      — whole runs.
-/
import EightBit.Proofs.Program.Straight
import Mathlib.Logic.Relation

namespace EightBit

/-- A step that takes no interrupt and writes to no address below `size`. -/
def QuietStep (size : Nat) (c c' : Core) : Prop :=
  ∃ input s, c.traps input = false ∧ c.step input = .ok s
    ∧ (∀ a, Location.memory a ∈ s.changes → size ≤ a.toNat) ∧ s.core = c'

/-- The instruction pointer is at the address of an instruction, and memory has
the bytes of the image. -/
structure OnCourse (ss : List Statement) (p : Assembled) (c : Core) : Prop where
  at_instruction : ∃ i code, PlacesAt ss i code ∧ cursorAt ss i = c.registers.ip.toNat
  image : ∀ x b, p.image.get? x = some b → c.memory.get x = b

/-- The core is about to execute the instruction `j` of the statement with
index `i`. -/
structure ReadyAt (ss : List Statement) (p : Assembled) (c : Core) (i : Nat) (j : Instruction)
    (op : Opcode) (args : List Byte) : Prop where
  cursor_eq : cursorAt ss i = c.registers.ip.toNat
  encodes : Encodes ss p.labels i j (op.byte :: args)
  opcode : j.opcode = some op
  isLocal : op.IsLocal
  holds : c.Holds op args

section Run

variable {ss : List Statement} {p : Assembled} {c : Core}

/-! ## §1. One step. -/

theorem OnCourse.initial (hp : Straight ss p) : OnCourse ss p (.initial p.memory) where
  at_instruction := by
    have hlen : 0 < ss.length := by
      obtain ⟨before, last, hss, -, -⟩ := hp.read.ends
      rw [hss, List.length_append, List.length_singleton]
      omega
    obtain ⟨i, code, hcode, hcursor⟩ := hp.exists_placesAt_from hlen
    exact ⟨i, code, hcode, hcursor⟩
  image _ _ hx := Assembled.get_memory hx

/-- On course, an instruction is about to be executed. -/
theorem OnCourse.ready (hp : Straight ss p) (h : OnCourse ss p c) :
    ∃ i j op args, ReadyAt ss p c i j op args := by
  obtain ⟨i, code, hcode, hcursor⟩ := h.at_instruction
  obtain ⟨op, hop, hlocal⟩ := hp.exists_opcode hcode
  obtain ⟨j, bytes, henc⟩ := exists_encodes_of_assembleStatements hp.assembled hcode
  obtain ⟨code', hcode', hres, hbytes⟩ := henc.parts
  obtain rfl := hcode.unique hcode'
  have hop' : j.opcode = some op := by rw [Instruction.opcode_of_resolve hres, hop]
  obtain ⟨args, rfl, hfits⟩ := Instruction.encode_eq_cons (henc.formed hp.read) hop' hbytes
  have hmem : c.memory.HasAt c.registers.ip.toNat (op.byte :: args) := by
    intro offset b hb
    rw [← hcursor]
    exact h.image _ _ (hp.image_of_encodes henc hb)
  have hroom : c.registers.ip.toNat + op.width ≤ memorySize := by
    have hle := (room_of_encodes hp.read hp.noFault henc).1
    rw [hcursor, List.length_cons, ← hfits.length_eq] at hle
    rw [Opcode.width]
    omega
  exact ⟨i, j, op, args, hcursor, henc, hop', hlocal, Core.holds_of_hasAt hmem hfits hroom⟩

namespace ReadyAt

variable {i : Nat} {j : Instruction} {op : Opcode} {args : List Byte}

theorem opcode_ne_halt (h : ReadyAt ss p c i j op args) (hhalt : op ≠ .halt) :
    j.opcode ≠ some .halt := by
  rw [h.opcode]
  exact fun heq => hhalt (Option.some.inj heq)

theorem room (h : ReadyAt ss p c i j op args) (hp : Straight ss p) (hhalt : op ≠ .halt) :
    c.registers.ip.toNat + op.width < 256 := by
  have hlt := (room_of_encodes hp.read hp.noFault h.encodes).2 (h.opcode_ne_halt hhalt)
  have hsize : memorySize = 256 := rfl
  rw [h.cursor_eq, List.length_cons, ← h.holds.fits.length_eq] at hlt
  rw [Opcode.width]
  omega

/-- Behind an instruction that does not halt there is another. -/
theorem next (h : ReadyAt ss p c i j op args) (hp : Straight ss p) (hhalt : op ≠ .halt) :
    ∃ k code, PlacesAt ss k code ∧ cursorAt ss k = c.registers.ip.toNat + op.width := by
  obtain ⟨source, hsource, -, -⟩ := h.encodes.parts
  have hlt := h.encodes.succ_lt_length hp.read (h.opcode_ne_halt hhalt)
  have hlen := h.encodes.length_eq hsource
  obtain ⟨k, code, hcode, hcursor⟩ := hp.exists_placesAt_from hlt
  refine ⟨k, code, hcode, ?_⟩
  rw [hcursor, cursorAt_succ_of_placesAt hsource, h.cursor_eq, ← hlen, List.length_cons,
    ← h.holds.fits.length_eq, Opcode.width]
  omega

/-- A jump leads to an instruction. -/
theorem jump (h : ReadyAt ss p c i j op args) (hp : Straight ss p) {condition : Condition}
    (hop : op = .jump condition) : ∃ k code target, PlacesAt ss k code
      ∧ cursorAt ss k = target.toNat ∧ c.fetch 1 >>= c.jumpTarget = .ok target := by
  subst hop
  obtain ⟨name, span, target, htarget, -, hlo, hhi, hbytes⟩ :=
    jump_of_encodes hp.read h.encodes h.opcode
  rw [h.cursor_eq, UInt8.ofNat_toNat] at hlo hhi hbytes
  injection hbytes with _ hargs
  subst hargs
  obtain ⟨l, hdecl, hl⟩ := (address?_iff_of_assembleStatements hp.assembled name target).1 htarget
  obtain ⟨k, code, hcode, hcursor⟩ := hp.exists_placesAt_from hdecl.lt_length
  refine ⟨k, code, target, hcode, by rw [hcursor, hl], ?_⟩
  rw [h.holds.fetch 0 _ rfl, ok_bind]
  exact Core.jumpTarget_ofInt hlo hhi

end ReadyAt

/-- **One step.**  On course, a step fails for its data only, and if it leaves
the bytes of the program alone it stays on course. -/
theorem outcome_step_of_onCourse (hp : Straight ss p) (h : OnCourse ss p c) {input : InputSignals}
    (htraps : c.traps input = false) :
    Outcome (fun s => (∀ a, Location.memory a ∈ s.changes → p.image.size ≤ a.toNat) →
        OnCourse ss p s.core)
      (fun f => f.cause.OfData) (c.step input) := by
  obtain ⟨i, j, op, args, hready⟩ := h.ready hp
  have hjump : ∀ condition, op = .jump condition → condition.holds c.registers.sr →
      ∃ next, c.fetch 1 >>= c.jumpTarget = .ok next := by
    intro condition hop _
    obtain ⟨-, -, target, -, -, htarget⟩ := hready.jump hp hop
    exact ⟨target, htarget⟩
  refine (Core.outcome_step hready.holds (hready.room hp) hjump htraps).mono ?_ fun f hf => hf
  intro s hs hquiet
  obtain ⟨e, hcontinues, hcore, hchanges⟩ := hs
  have hip : s.core.registers.ip = c.ipAfter e := by rw [hcore]; rfl
  refine ⟨?_, fun x b hx => ?_⟩
  · -- the instruction again, the one behind it, or the one behind a label
    rw [hip]
    rcases hcontinues.leads hready.isLocal with hsame | ⟨hhalt, hnext⟩ | ⟨condition, hop, htarget⟩
    · rw [hsame]
      exact h.at_instruction
    · obtain ⟨k, code, hcode, hcursor⟩ := hready.next hp hhalt
      have hroom := hready.room hp hhalt
      rw [Core.Advances, Core.successor_eq hroom, Except.ok.injEq] at hnext
      refine ⟨k, code, hcode, ?_⟩
      rw [hcursor, ← hnext, toNat_ofNat_address hroom]
    · obtain ⟨k, code, target, hcode, hcursor, htarget'⟩ := hready.jump hp hop
      rw [htarget', Except.ok.injEq] at htarget
      exact ⟨k, code, hcode, by rw [hcursor, htarget]⟩
  · -- the byte lies below the size of the image, where nothing is written
    have hunwritten : Location.memory x ∉ e.writes.map Write.location := by
      intro hmem
      rw [← hchanges] at hmem
      have hge := hquiet x hmem
      have hlt := hp.lt_size_image hx
      omega
    rw [hcore, Core.get_applyAll_of_not_mem hunwritten]
    exact h.image x b hx

/-! ## §2. Runs. -/

/-- A run that leaves the bytes of the program alone stays on course. -/
theorem onCourse_of_run (hp : Straight ss p)
    (hrun : Relation.ReflTransGen (QuietStep p.image.size) (.initial p.memory) c) :
    OnCourse ss p c := by
  induction hrun with
  | refl => exact OnCourse.initial hp
  | tail _ hstep ih =>
    obtain ⟨input, s, htraps, hs, hquiet, rfl⟩ := hstep
    exact (outcome_step_of_onCourse hp ih htraps).of_ok hs hquiet

end Run

/-- **Runs of straight code.**  From the start and under any input without an
interrupt, as long as no step writes over the program, the instruction pointer
is at an instruction, the bytes of the program are as they were assembled, and
a step fails for its data only: never for what it decodes, and never for
leaving memory. -/
theorem run_of_assemble_straight {source : Text} {ss : List Statement} {p : Assembled}
    (hparse : parse source = .ok ss) (h : assemble source = .ok p)
    (hstraight : ∀ s ∈ ss, s.IsStraight) {c : Core}
    (hrun : Relation.ReflTransGen (QuietStep p.image.size) (.initial p.memory) c) :
    (∃ i, p.instructions.get? c.registers.ip = some i)
      ∧ (∀ a b, p.image.get? a = some b → c.memory.get a = b)
      ∧ ∀ input f, c.traps input = false → c.step input = .error f → f.cause.OfData := by
  have hss : assembleStatements ss = .ok p := by
    rw [assemble, hparse] at h
    exact h
  have hp : Straight ss p := ⟨wellRead_of_parse hparse, hss, hstraight⟩
  have hcourse := onCourse_of_run hp hrun
  obtain ⟨i, code, hcode, hcursor⟩ := hcourse.at_instruction
  refine ⟨hp.exists_instruction hcode hcursor, hcourse.image, fun input f htraps hf => ?_⟩
  have hout := outcome_step_of_onCourse hp hcourse htraps
  rw [hf] at hout
  exact hout

/-- A byte is pushed, and then nothing happens any more. -/
def pushAndWait : Text := "PUSH AL\nL: JMP L\nEND".toList

/-- After its first round the program is in front of its jump, with a byte on
the stack. -/
theorem run_pushAndWait : ∃ p c, assemble pushAndWait = .ok p
    ∧ Relation.ReflTransGen (QuietStep p.image.size) (.initial p.memory) c
    ∧ c.registers.ip = 2 ∧ c.registers.sp = 0xBE
    ∧ (∃ i, p.instructions.get? c.registers.ip = some i)
    ∧ (∀ a b, p.image.get? a = some b → c.memory.get a = b)
    ∧ ∀ input f, c.traps input = false → c.step input = .error f → f.cause.OfData := by
  have hparse : ((parse pushAndWait).toOption.map fun ss => decide (∀ s ∈ ss, s.IsStraight))
      = some true := by decide +kernel
  have hassemble : ((assemble pushAndWait).toOption.bind fun p =>
      ((Core.initial p.memory).step .none).toOption.map fun s =>
        (p.image.size, s.changes, s.core.registers.ip, s.core.registers.sp))
      = some (5, [.memory 0xBF, .sp, .ip], 2, 0xBE) := by decide +kernel
  obtain ⟨ss, hss, hstraight⟩ := exists_of_toOption_map hparse
  obtain ⟨p, hp, hstep⟩ := Option.bind_eq_some_iff.1 hassemble
  rw [toOption_eq_some_iff] at hp
  obtain ⟨s, hs, hafter⟩ := exists_of_toOption_map hstep
  simp only [Prod.mk.injEq] at hafter
  obtain ⟨hsize, hchanges, hip, hsp⟩ := hafter
  have hquiet : QuietStep p.image.size (.initial p.memory) s.core := by
    refine ⟨.none, s, rfl, hs, fun a ha => ?_, rfl⟩
    rw [hchanges] at ha
    obtain rfl : a = 0xBF := by simpa using ha
    rw [hsize]
    decide
  have hrun := Relation.ReflTransGen.single hquiet
  exact ⟨p, s.core, hp, hrun, hip, hsp,
    run_of_assemble_straight hss hp (of_decide_eq_true hstraight) hrun⟩

end EightBit
