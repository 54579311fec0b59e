/-
  EightBit.Proofs.Run.Instruction
  ───────────────────────────────
  **INSTRUCTIONS ARE EXECUTED AS THEY WERE WRITTEN.**

  The forms of a mnemonic say what the reader of a source accepts, the
  encoding turns operands into bytes, the machine finds the opcode by its
  first byte, and its program for the opcode knows how many bytes follow.
  For every instruction of an assembled program the four agree, wherever it
  stands and whatever it overlaps.

  Main results:
    • `outcome_exec_of_encodes`  — an encoded instruction fails for its data
                                   only, and continues as its opcode says;
    • `step_of_assemble`         — instructions are decoded to what was written,
                                   and executed to their end.
-/
import EightBit.Proofs.Machine.Effect
import EightBit.Proofs.Program.Assembly
import EightBit.Proofs.Program.Decoding

namespace EightBit

/-! ## §1. Opcodes. -/

/-- Every form that places more than data selects an opcode. -/
theorem Mnemonic.exists_opcode (m : Mnemonic) (hm : m ∉ [.org, .db]) :
    ∀ f ∈ m.forms, ∃ op, f.opcode = some op := by
  cases m with
  | org | db => exact absurd (by decide) hm
  | _ => simp [forms]

/-- The opcode continues behind its operands: it neither halts nor transfers
control. -/
def Opcode.FallsThrough : Opcode → Prop
  | .halt | .jump _ | .call | .int | .ret | .iret => False
  | _ => True

/-- An opcode that falls through, unless it waits, continues behind itself. -/
theorem Core.Continues.advances {c : Core} {op : Opcode} {e : Effect} (h : c.Continues op e)
    (hop : op.FallsThrough) (hwaiting : e.signals.waiting = none) : c.Advances op.width e := by
  cases op with
  | halt | jump condition | call | int | ret | iret => exact hop.elim
  | input =>
    rcases h with ⟨-, hwaits⟩ | h
    · rw [hwaiting] at hwaits
      exact absurd hwaits (by simp)
    · exact h
  | _ => exact h

/-! ## §2. Encoded instructions. -/

section Encoded

variable {ss : List Statement} {labels : LabelTable} {k : Nat} {i : Instruction} {op : Opcode}
  {bytes : List Byte} {c : Core}

/-- A core at an encoded instruction holds its opcode and operands. -/
theorem Encodes.holds (hread : WellRead ss) (hno : NoFault (placementFault? ss) 0)
    (h : Encodes ss labels k i bytes) (hop : i.opcode = some op)
    (hip : c.registers.ip.toNat = cursorAt ss k) (hmem : c.memory.HasAt (cursorAt ss k) bytes) :
    ∃ args, bytes = op.byte :: args ∧ c.Holds op args := by
  obtain ⟨-, -, -, henc⟩ := h.parts
  obtain ⟨args, rfl, hfits⟩ := Instruction.encode_eq_cons (h.formed hread) hop henc
  have hroom := (room_of_encodes hread hno h).1
  rw [← hip] at hmem hroom
  refine ⟨args, rfl, Core.holds_of_hasAt hmem hfits ?_⟩
  rw [List.length_cons, ← hfits.length_eq] at hroom
  rw [Opcode.width]
  omega

/-- An encoded jump has a target inside memory. -/
theorem Encodes.exists_jumpTarget (hread : WellRead ss) (h : Encodes ss labels k i bytes)
    {condition : Condition} {args : List Byte} (hop : i.opcode = some (.jump condition))
    (hip : c.registers.ip.toNat = cursorAt ss k)
    (hbytes : bytes = (Opcode.jump condition).byte :: args) (hholds : c.Holds (.jump condition) args) :
    ∃ next, c.fetch 1 >>= c.jumpTarget = .ok next := by
  obtain ⟨-, -, target, -, -, hlo, hhi, hjump⟩ := jump_of_encodes hread h hop
  rw [← hip, UInt8.ofNat_toNat] at hlo hhi hjump
  rw [hbytes] at hjump
  injection hjump with _ hargs
  subst hargs
  refine ⟨target, ?_⟩
  rw [hholds.fetch 0 _ rfl, ok_bind]
  exact Core.jumpTarget_ofInt hlo hhi

/-- **An encoded instruction** fails for its data only, and continues as its
opcode says. -/
theorem outcome_exec_of_encodes (hread : WellRead ss) (hno : NoFault (placementFault? ss) 0)
    (h : Encodes ss labels k i bytes) (hop : i.opcode = some op)
    (hip : c.registers.ip.toNat = cursorAt ss k) (hmem : c.memory.HasAt (cursorAt ss k) bytes)
    {input : InputSignals} (htraps : c.traps input = false) :
    Outcome (c.Continues op) Fault.Cause.OfData (c.effect input) := by
  obtain ⟨args, hbytes, hholds⟩ := h.holds hread hno hop hip hmem
  rw [Core.effect_of_holds hholds htraps]
  refine Core.outcome_exec hholds ?_ ?_ input.datum
  · -- only END may reach the end of memory
    intro hhalt
    have hlt := (room_of_encodes hread hno h).2 (by rw [hop]; simpa using hhalt)
    have hsize : memorySize = 256 := rfl
    rw [← hip, hbytes, List.length_cons, ← hholds.fits.length_eq] at hlt
    rw [Opcode.width]
    omega
  · rintro condition rfl -
    exact h.exists_jumpTarget hread hop hip hbytes hholds

end Encoded

/-! ## §3. Instructions of a program. -/

/-- The reader, the encoding and the machine agree on the instruction: it has
the opcode and these bytes. -/
structure Instruction.Decodes (i : Instruction) (op : Opcode) (bytes : List Byte) : Prop where
  /-- It has the operand kinds of a form of its mnemonic, and the opcode that
  this form selects. -/
  form : ∃ f ∈ i.mnemonic.forms, i.kinds = f.operands ∧ i.opcode = f.opcode
  opcode : i.opcode = some op
  encode : i.encode = .ok bytes
  /-- Its first byte is found to be its opcode. -/
  decode : ∃ b rest, bytes = b :: rest ∧ Opcode.ofByte? b = some op
  operands : op.operands = i.kinds
  width_eq_size : op.width = i.size
  width_eq_length : op.width = bytes.length

theorem Encodes.decodes {ss : List Statement} {labels : LabelTable} {k : Nat} {i : Instruction}
    {bytes : List Byte} (hread : WellRead ss) (h : Encodes ss labels k i bytes)
    (hdata : i.mnemonic ≠ .db) : ∃ op, i.Decodes op bytes := by
  obtain ⟨code, hcode, hres, henc⟩ := h.parts
  have hformed := h.formed hread
  have horg : i.mnemonic ≠ .org := by
    rw [Instruction.mnemonic_of_resolve hres]
    exact hcode.2
  obtain ⟨f, hf, hkinds, hopcode⟩ := h.formed hread
  obtain ⟨op, hop⟩ := i.mnemonic.exists_opcode (by simp [horg, hdata]) f hf
  rw [hop] at hopcode
  obtain ⟨args, rfl, hfits⟩ := Instruction.encode_eq_cons hformed hopcode henc
  have hwidth : op.width = (op.byte :: args).length := by
    rw [Opcode.width, hfits.length_eq, List.length_cons, Nat.add_comm]
  exact ⟨op,
    { form := ⟨f, hf, hkinds, by rw [hopcode, hop]⟩
      opcode := hopcode
      encode := henc
      decode := ⟨_, _, rfl, Opcode.ofByte?_byte op⟩
      operands := (hformed.operands hopcode).1.symm
      width_eq_size := by rw [hwidth, Instruction.length_encode horg henc]
      width_eq_length := hwidth }⟩

/-- **Instructions.**  Whatever the program has at an address, data apart, is
decoded to what was written.  Executed there under signals that raise no
interrupt, it fails for its data only, never for what it decodes and never for
leaving memory; and if it falls through and does not wait, it continues behind
its bytes. -/
theorem step_of_assemble {source : Text} {p : Assembled} {a : Byte} {i : Instruction}
    (h : assemble source = .ok p) (hi : p.instructions.get? a = some i)
    (hdata : i.mnemonic ≠ .db) :
    ∃ op bytes, i.Decodes op bytes
      ∧ ∀ (c : Core) (input : InputSignals), c.registers.ip = a → c.memory.HasAt a.toNat bytes →
        c.traps input = false →
        (∀ f, c.step input = .error f → f.cause.OfData)
        ∧ ∀ s, c.step input = .ok s → op.FallsThrough → s.signals.waiting = none →
          s.core.registers.ip.toNat = a.toNat + i.size := by
  obtain ⟨ss, hparse, hss⟩ := assemble_eq_ok_iff.1 h
  have hread := wellRead_of_parse hparse
  have hno := (noFault_of_assembleStatements hss).1
  obtain ⟨k, bytes, henc, hstart⟩ := exists_encodes_of_get?_instructions hss hi
  obtain ⟨op, hdecodes⟩ := henc.decodes hread hdata
  refine ⟨op, bytes, hdecodes, fun c input hip hmem htraps => ?_⟩
  rw [← hstart] at hmem
  have hout := outcome_exec_of_encodes hread hno henc hdecodes.opcode (by rw [hip, hstart]) hmem
    htraps
  constructor
  · intro f hf
    unfold Core.step at hf
    cases he : c.effect input with
    | error cause =>
      rw [he] at hf hout
      injection hf with hf
      rw [← hf]
      exact hout
    | ok e =>
      rw [he] at hf
      exact absurd hf (by simp)
  · intro s hs hfalls hwaiting
    obtain ⟨e, he, rfl⟩ := Core.step_eq_ok_iff.1 hs
    rw [he] at hout
    have hnext := Core.successor_eq_ok_iff.1 (Core.Continues.advances hout hfalls hwaiting)
    rw [← hip, ← hdecodes.width_eq_size]
    exact hnext

/-- An instruction that is written over by a longer one. -/
def overwritten : Text := "ORG 10\nPUSH AL\nORG 10\nADD BL, 07\nEND".toList

/-- The program has the second instruction, of three bytes, at the address of
the first, and executes it. -/
theorem step_overwritten : ∃ p i s, assemble overwritten = .ok p
    ∧ p.instructions.get? 0x10 = some i
    ∧ i.Decodes (.binaryNumber .add) [0xB0, 1, 7]
    ∧ (Core.mk p.memory { Registers.initial with ip := 0x10 }).step .none = .ok s
    ∧ s.core.registers.ip.toNat = 0x10 + i.size := by
  have hmap : ((assemble overwritten).toOption.bind fun p =>
      ((Core.mk p.memory { Registers.initial with ip := 0x10 }).step .none).toOption.map fun s =>
        (p.instructions.get? 0x10, p.memory.get 0x10, p.memory.get 0x11, p.memory.get 0x12,
          s.signals.waiting))
      = some (some ⟨.binary .add, some (.binaryNumber .add),
          [⟨.register .bl, ⟨26, 28⟩⟩, ⟨.number 7, ⟨30, 32⟩⟩], ⟨22, 32⟩⟩, 0xB0, 1, 7, none) := by
    decide +kernel
  obtain ⟨p, hp, hstep⟩ := Option.bind_eq_some_iff.1 hmap
  rw [toOption_eq_some_iff] at hp
  obtain ⟨s, hs, hvalues⟩ := exists_of_toOption_map hstep
  simp only [Prod.mk.injEq] at hvalues
  obtain ⟨hi, h₀, h₁, h₂, hwaiting⟩ := hvalues
  obtain ⟨op, bytes, hdecodes, hexec⟩ := step_of_assemble hp hi (by simp)
  obtain rfl : .binaryNumber .add = op := Option.some.inj hdecodes.opcode
  obtain rfl : [0xB0, 1, 7] = bytes := Except.ok.inj hdecodes.encode
  have hmem : p.memory.HasAt (0x10 : Byte).toNat [0xB0, 1, 7] :=
    Memory.hasAt_cons h₀ (Memory.hasAt_cons h₁ (Memory.hasAt_cons h₂ (Memory.hasAt_nil _ _)))
  exact ⟨p, _, s, hp, hi, hdecodes, hs,
    (hexec _ .none rfl hmem rfl).2 s hs trivial hwaiting⟩

end EightBit
