/-
  EightBit.Proofs.Program.Decoding
  ────────────────────────────────
  **ENCODINGS ARE WHAT A STEP DECODES.**

  The bytes of an instruction with an opcode are the opcode and one byte for
  each operand, of a kind with it.  A core whose memory holds them at its
  instruction pointer is ready to execute the opcode; there is room for a
  successor, because END comes last; and the distance of a label leads back to
  the label.

  Main results:
    • `encode_eq_cons`    — opcode first, then a byte for each operand;
    • `holds_of_hasAt`    — bytes in memory are ready to be executed;
    • `room_of_encodes`   — only END may reach the end of memory;
    • `jump_of_encodes`   — the two bytes of a jump, and where it leads.
-/
import EightBit.Proofs.Machine.Execution
import EightBit.Proofs.Program.Emission
import EightBit.Proofs.Program.Grammar

namespace EightBit

/-! ## §1. Opcodes and their forms. -/

/-- A form that selects an opcode has the operands of that opcode, and none of
them is a string. -/
theorem Mnemonic.operands_of_mem_forms (m : Mnemonic) : ∀ f ∈ m.forms, ∀ op ∈ f.opcode,
    op.operands = f.operands ∧ .string ∉ f.operands := by
  revert m
  decide

theorem Instruction.Formed.operands {i : Instruction} {op : Opcode} (h : i.Formed)
    (hop : i.opcode = some op) : i.kinds = op.operands ∧ .string ∉ i.kinds := by
  obtain ⟨f, hf, hkinds, hopcode⟩ := h
  obtain ⟨hops, hstring⟩ := i.mnemonic.operands_of_mem_forms f hf op (hopcode.symm.trans hop)
  rw [hkinds, hops]
  exact ⟨rfl, hstring⟩

/-- An instruction of a mnemonic with one form has the opcode of that form. -/
theorem Instruction.Formed.opcode_eq {i : Instruction} {f : Form} (h : i.Formed)
    (hforms : i.mnemonic.forms = [f]) : i.opcode = f.opcode := by
  obtain ⟨g, hg, -, hopcode⟩ := h
  rw [hforms, List.mem_singleton] at hg
  rw [hopcode, hg]

/-! ## §2. Bytes of an instruction with an opcode. -/

/-- An operand that is no string is one byte, which fits its kind. -/
theorem Operand.fits_of_encode {o : Operand} {bytes : List Byte} (h : o.encode = .ok bytes)
    (hstring : o.value.kind ≠ .string) : ∃ b, bytes = [b] ∧ o.value.kind.Fits b := by
  unfold Operand.encode at h
  cases hvalue : o.value with
  | string text => exact absurd (by rw [hvalue]; rfl) hstring
  | register r | registerAddress r =>
    rw [hvalue] at h
    injection h with h
    exact ⟨r.code, h.symm, fun _ => ⟨r, rfl⟩⟩
  | number n | address n =>
    rw [hvalue] at h
    injection h with h
    exact ⟨n, h.symm, fun hkind => by simp [Operand.Value.kind] at hkind⟩
  | label name distance =>
    rw [hvalue] at h
    cases distance with
    | none => exact absurd h (by simp)
    | some d =>
      injection h with h
      exact ⟨d, h.symm, fun hkind => by simp [Operand.Value.kind] at hkind⟩

theorem Operand.forall₂_fits {operands : List Operand} {parts : List (List Byte)}
    (h : List.Forall₂ (fun o bytes => o.encode = .ok bytes) operands parts)
    (hstring : .string ∉ operands.map fun o => o.value.kind) :
    List.Forall₂ OperandKind.Fits (operands.map fun o => o.value.kind) parts.flatten := by
  induction h with
  | nil => exact .nil
  | cons ho hrest ih =>
    rw [List.map_cons, List.mem_cons, not_or] at hstring
    obtain ⟨b, rfl, hb⟩ := Operand.fits_of_encode ho (Ne.symm hstring.1)
    exact .cons hb (ih hstring.2)

/-- **Opcode first, then a byte for each operand.** -/
theorem Instruction.encode_eq_cons {i : Instruction} {op : Opcode} {bytes : List Byte}
    (h : i.Formed) (hop : i.opcode = some op) (henc : i.encode = .ok bytes) :
    ∃ args, bytes = op.byte :: args ∧ List.Forall₂ OperandKind.Fits op.operands args := by
  obtain ⟨parts, hparts, rfl⟩ := map_eq_ok_iff.1 henc
  obtain ⟨hkinds, hstring⟩ := h.operands hop
  refine ⟨parts.flatten, by rw [hop]; rfl, ?_⟩
  rw [← hkinds]
  exact Operand.forall₂_fits (mapM_eq_ok_iff.1 hparts) hstring

/-! ## §3. Bytes in memory. -/

/-- The memory has the bytes from the address on. -/
def Memory.HasAt (m : Memory) (address : Nat) (bytes : List Byte) : Prop :=
  ∀ offset b, bytes[offset]? = some b → m.get (UInt8.ofNat (address + offset)) = b

theorem Memory.hasAt_nil (m : Memory) (address : Nat) : m.HasAt address [] :=
  fun _ _ hb => absurd hb (by simp)

theorem Memory.hasAt_cons {m : Memory} {address : Nat} {b : Byte} {bytes : List Byte}
    (hb : m.get (UInt8.ofNat address) = b) (hbytes : m.HasAt (address + 1) bytes) :
    m.HasAt address (b :: bytes) := by
  intro offset b' hb'
  cases offset with
  | zero =>
    injection hb' with hb'
    rw [Nat.add_zero, hb, hb']
  | succ offset =>
    rw [← Nat.add_assoc, Nat.add_right_comm]
    exact hbytes offset b' hb'

theorem Memory.hasAt_pair {m : Memory} {a b₀ b₁ : Byte} (h₀ : m.get a = b₀)
    (h₁ : m.get (a + 1) = b₁) : m.HasAt a.toNat [b₀, b₁] := by
  refine hasAt_cons ?_ (hasAt_cons ?_ (hasAt_nil m _))
  · rw [UInt8.ofNat_toNat, h₀]
  · rw [UInt8.ofNat_add, UInt8.ofNat_toNat]
    exact h₁

/-- **Bytes in memory are ready to be executed.** -/
theorem Core.holds_of_hasAt {c : Core} {op : Opcode} {args : List Byte}
    (hmem : c.memory.HasAt c.registers.ip.toNat (op.byte :: args))
    (hfits : List.Forall₂ OperandKind.Fits op.operands args)
    (hroom : c.registers.ip.toNat + op.width ≤ memorySize) : c.Holds op args where
  opcode := by
    have hbyte := hmem 0 op.byte rfl
    rw [Nat.add_zero, UInt8.ofNat_toNat] at hbyte
    exact hbyte
  fetch k b hb := by
    have hk : k < args.length := (List.getElem?_eq_some_iff.1 hb).1
    have hwidth : op.width = 1 + args.length := by rw [Opcode.width, hfits.length_eq]
    have hsize : memorySize = 256 := rfl
    rw [fetch_eq (by omega), hmem (k + 1) b (by rw [List.getElem?_cons_succ, hb])]
  fits := hfits

/-! ## §4. Instructions of a program. -/

section Program

variable {ss : List Statement} {labels : LabelTable} {i : Nat} {j : Instruction} {bytes : List Byte}

/-- What is encoded was resolved before. -/
theorem Encodes.parts (h : Encodes ss labels i j bytes) : ∃ code, PlacesAt ss i code
    ∧ code.resolve labels (UInt8.ofNat (cursorAt ss i)) = .ok j ∧ j.encode = .ok bytes := by
  obtain ⟨code, hcode, henc⟩ := h
  obtain ⟨j', hres, henc⟩ := bind_eq_ok_iff.1 henc
  obtain ⟨bytes', hbytes, heq⟩ := map_eq_ok_iff.1 henc
  cases heq
  exact ⟨code, hcode, hres, hbytes⟩

theorem Encodes.formed (h : Encodes ss labels i j bytes) (hread : WellRead ss) : j.Formed := by
  obtain ⟨code, hcode, hres, -⟩ := h.parts
  obtain ⟨f, hf, hkinds, hopcode⟩ := hread.formed code (List.mem_of_getElem? hcode.1)
  refine ⟨f, ?_, ?_, ?_⟩
  · rw [Instruction.mnemonic_of_resolve hres]
    exact hf
  · rw [Instruction.kinds_of_resolve hres, hkinds]
  · rw [Instruction.opcode_of_resolve hres, hopcode]

/-- A statement that is not END has a statement after it. -/
theorem WellRead.succ_lt_length (hread : WellRead ss) {s : Statement} (hs : ss[i]? = some s)
    (hend : s.isEnd = false) : i + 1 < ss.length := by
  obtain ⟨before, last, rfl, hlast, -⟩ := hread.ends
  have hi : i < (before ++ [Statement.instruction last]).length :=
    (List.getElem?_eq_some_iff.1 hs).1
  rw [List.length_append, List.length_singleton] at hi ⊢
  -- otherwise the statement is the last one, which is END
  by_contra hge
  obtain rfl : i = before.length := by omega
  rw [List.getElem?_concat_length] at hs
  injection hs with hs
  rw [← hs] at hend
  simp [Statement.isEnd, hlast] at hend

/-- An instruction that does not halt has a statement after it. -/
theorem Encodes.succ_lt_length (hread : WellRead ss) (h : Encodes ss labels i j bytes)
    (hhalt : j.opcode ≠ some .halt) : i + 1 < ss.length := by
  obtain ⟨code, hcode, hres, -⟩ := h.parts
  apply hread.succ_lt_length hcode.1
  by_contra hend
  have hfinish : code.mnemonic = .finish := by simpa [Statement.isEnd] using hend
  have hformed := hread.formed code (List.mem_of_getElem? hcode.1)
  apply hhalt
  rw [Instruction.opcode_of_resolve hres, hformed.opcode_eq (by rw [hfinish]; rfl)]

/-- **Only END may reach the end of memory.** -/
theorem room_of_encodes (hread : WellRead ss) (hno : NoFault (placementFault? ss) 0)
    (h : Encodes ss labels i j bytes) : cursorAt ss i + bytes.length ≤ memorySize
      ∧ (j.opcode ≠ some .halt → cursorAt ss i + bytes.length < memorySize) := by
  obtain ⟨code, hcode, -, -⟩ := h.parts
  rw [h.length_eq hcode]
  obtain ⟨hle, hlt⟩ := hcode.fits (hno i (Nat.zero_le i))
  exact ⟨hle, fun hhalt => hlt (h.succ_lt_length hread hhalt)⟩

/-- **The bytes of a jump.**  Its one operand is a declared label, and its
second byte the distance to it. -/
theorem jump_of_encodes (hread : WellRead ss) (h : Encodes ss labels i j bytes)
    {condition : Condition} (hop : j.opcode = some (.jump condition)) :
    ∃ name span target, labels.address? name = some target
      ∧ j.operands = [⟨.label name
          (some (Byte.ofInt (target.toNat - (UInt8.ofNat (cursorAt ss i)).toNat))), span⟩]
      ∧ -128 ≤ (target.toNat : Int) - (UInt8.ofNat (cursorAt ss i)).toNat
      ∧ (target.toNat : Int) - (UInt8.ofNat (cursorAt ss i)).toNat ≤ 127
      ∧ bytes = [(Opcode.jump condition).byte,
          Byte.ofInt (target.toNat - (UInt8.ofNat (cursorAt ss i)).toNat)] := by
  obtain ⟨code, hcode, hres, henc⟩ := h.parts
  have hkinds := ((h.formed hread).operands hop).1
  rw [Opcode.operands_jump] at hkinds
  -- the form of a jump has one operand, a label
  obtain ⟨o, hops⟩ : ∃ o, j.operands = [o] := by
    apply List.length_eq_one_iff.1
    have hlen := congrArg List.length hkinds
    rwa [Instruction.kinds, List.length_map] at hlen
  have hkind : o.value.kind = .label := by simpa [Instruction.kinds, hops] using hkinds
  obtain ⟨o', -, ho'⟩ := exists_of_mem_mapM (Instruction.of_resolve hres).1
    (show o ∈ j.operands by rw [hops]; exact List.mem_singleton_self o)
  rcases Operand.resolve_eq_ok_iff.1 ho' with ⟨hne, rfl⟩ | ⟨name, d, target, -, ht, hlo, hhi, rfl⟩
  · -- an operand of the kind is a label
    cases hvalue : o.value with
    | label name d => exact absurd hvalue (hne name d)
    | number n | address n | register r | registerAddress r | string text =>
      rw [hvalue] at hkind
      exact absurd hkind (by simp [Operand.Value.kind])
  · refine ⟨name, o'.span, target, ht, hops, hlo, hhi, ?_⟩
    obtain ⟨parts, hparts, rfl⟩ := map_eq_ok_iff.1 henc
    rw [hops] at hparts
    cases hparts
    rw [hop]
    rfl

end Program

end EightBit
