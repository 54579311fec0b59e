/-
  EightBit.Proofs.Program.InRow
  ─────────────────────────────
  **INSTRUCTIONS IN A ROW.**

  Without labels and without ORG there is nothing to find out about a program:
  each instruction stands where the one before it ends, and its bytes are what
  it says.  So the bytes of the program are those of its instructions, one after
  another.

  Main results:
    • `HasCode.encode_eq`           — the bytes of an instruction without labels;
    • `layout_of_hasCode`           — instructions are laid out in a row;
    • `emit_of_stands`              — and written in a row;
    • `assembleStatements_inRow`    — the bytes of the program.
-/
import EightBit.Proofs.Program.Emission

namespace EightBit

/-! ## §1. Bytes of an instruction without labels. -/

/-- The value takes one byte, which does not depend on where it stands. -/
inductive Operand.Value.HasByte : Operand.Value → Byte → Prop where
  | number (n : Byte) : HasByte (.number n) n
  | address (a : Byte) : HasByte (.address a) a
  | register (r : Register) : HasByte (.register r) r.code
  | registerAddress (r : Register) : HasByte (.registerAddress r) r.code

/-- The instruction is made of the opcode, under its mnemonic and with operands of
its kinds, and of a byte for each operand. -/
structure Instruction.MadeOf (i : Instruction) (op : Opcode) (args : List Byte) : Prop where
  mnemonic : i.mnemonic = op.mnemonic
  opcode : i.opcode = some op
  kinds : i.kinds = op.operands
  values : List.Forall₂ (fun o b => o.value.HasByte b) i.operands args

/-- **The instruction with the code**, which begins with an opcode. -/
def Instruction.HasCode (i : Instruction) (code : List Byte) : Prop :=
  ∃ op args, code = op.byte :: args ∧ i.MadeOf op args

/-- The statement is the instruction with the code. -/
def Statement.HasCode (s : Statement) (code : List Byte) : Prop :=
  ∃ i, s = .instruction i ∧ i.HasCode code

theorem Opcode.mnemonic_ne_org (op : Opcode) : op.mnemonic ≠ .org := by
  cases op <;> simp [mnemonic]

theorem Operand.encode_of_hasByte {o : Operand} {b : Byte} (h : o.value.HasByte b) :
    o.encode = .ok [b] := by
  obtain ⟨v, span⟩ := o
  cases h <;> rfl

theorem Operand.resolve_of_hasByte {o : Operand} {b : Byte} (h : o.value.HasByte b)
    (labels : LabelTable) (address : Byte) : o.resolve labels address = .ok o := by
  obtain ⟨v, span⟩ := o
  cases h <;> rfl

namespace Instruction.HasCode

variable {i : Instruction} {code : List Byte}

theorem mnemonic_ne_org (h : i.HasCode code) : i.mnemonic ≠ .org := by
  obtain ⟨op, args, -, hmade⟩ := h
  rw [hmade.mnemonic]
  exact op.mnemonic_ne_org

theorem length_pos (h : i.HasCode code) : 0 < code.length := by
  obtain ⟨op, args, rfl, -⟩ := h
  exact Nat.succ_pos _

/-- The code is the encoding. -/
theorem encode_eq (h : i.HasCode code) : i.encode = .ok code := by
  obtain ⟨op, args, rfl, hmade⟩ := h
  have hbytes : i.operands.mapM Operand.encode = .ok (args.map fun b => [b]) := by
    rw [mapM_eq_ok_iff, List.forall₂_map_right_iff]
    exact hmade.values.imp fun o b hb => Operand.encode_of_hasByte hb
  have hargs : (args.map fun b => [b]).flatten = args := by
    rw [← List.flatMap_def, List.flatMap_singleton']
  rw [encode, hbytes, hmade.opcode, Except.map, hargs]
  rfl

theorem size_eq (h : i.HasCode code) : i.size = code.length :=
  (length_encode h.mnemonic_ne_org h.encode_eq).symm

/-- There is no distance to find out. -/
theorem resolve_eq (h : i.HasCode code) (labels : LabelTable) (address : Byte) :
    i.resolve labels address = .ok i := by
  obtain ⟨op, args, -, hmade⟩ := h
  have hsame : i.operands.mapM (Operand.resolve labels address) = .ok i.operands := by
    rw [mapM_eq_ok_iff, List.forall₂_same]
    intro o ho
    obtain ⟨b, -, hb⟩ := exists_mem_of_forall₂ hmade.values.flip ho
    exact Operand.resolve_of_hasByte hb labels address
  rw [resolve, hsame]
  rfl

theorem references_eq (h : i.HasCode code) : i.references = [] := by
  obtain ⟨op, args, -, hmade⟩ := h
  rw [references, List.filterMap_eq_nil_iff]
  intro o ho
  obtain ⟨b, -, hb⟩ := exists_mem_of_forall₂ hmade.values.flip ho
  cases hvalue : o.value with
  | label name distance =>
    rw [hvalue] at hb
    cases hb
  | _ => rfl

end Instruction.HasCode

/-! ## §2. Addresses in a row. -/

/-- The items one after another, each with the address of its first byte. -/
def inRow {α : Type} (size : α → Nat) : (start : Nat) → List α → List (Byte × α)
  | _, [] => []
  | start, a :: as => (UInt8.ofNat start, a) :: inRow size (start + size a) as

/-- Codes one after another. -/
abbrev codesFrom (start : Nat) (codes : List (List Byte)) : List (Byte × List Byte) :=
  inRow List.length start codes

/-- Bytes one after another. -/
abbrev bytesFrom (start : Nat) (bytes : List Byte) : List (Byte × Byte) :=
  inRow (fun _ => 1) start bytes

theorem bytesFrom_append (start : Nat) (bytes more : List Byte) :
    bytesFrom start (bytes ++ more)
      = bytesFrom start bytes ++ bytesFrom (start + bytes.length) more := by
  induction bytes generalizing start with
  | nil => rfl
  | cons b bytes ih =>
    rw [List.cons_append, bytesFrom, inRow, ← bytesFrom, ih, List.length_cons, Nat.add_assoc,
      Nat.add_comm 1]
    rfl

/-- The instruction stands at the address with the code. -/
structure Stands (e : Byte × Instruction) (e' : Byte × List Byte) : Prop where
  address : e.1 = e'.1
  code : e.2.HasCode e'.2

/-! ## §3. The layout. -/

theorem length_flatten_pos {ss : List Statement} {codes : List (List Byte)}
    (h : List.Forall₂ Statement.HasCode ss codes) (hne : ss ≠ []) : 0 < codes.flatten.length := by
  cases h with
  | nil => exact absurd rfl hne
  | cons hs _ =>
    obtain ⟨i, -, hi⟩ := hs
    rw [List.flatten_cons, List.length_append]
    have := hi.length_pos
    omega

/-- **Instructions are laid out in a row**, and no label is seen. -/
theorem layout_of_hasCode {ss : List Statement} {codes : List (List Byte)}
    (h : List.Forall₂ Statement.HasCode ss codes) {start : Nat}
    (hfits : start + codes.flatten.length ≤ memorySize) (labels : LabelTable) :
    ∃ placed, Layout.ofStatements start labels ss = .ok ⟨labels, placed⟩
      ∧ List.Forall₂ Stands placed (codesFrom start codes) := by
  induction h generalizing start with
  | nil => exact ⟨[], rfl, .nil⟩
  | @cons s code ss codes hs hrest ih =>
    obtain ⟨i, rfl, hi⟩ := hs
    rw [List.flatten_cons, List.length_append, ← Nat.add_assoc] at hfits
    obtain ⟨placed, hplaced, hstand⟩ := ih hfits
    -- memory may be full behind the last instruction only
    have hroom : ¬ (start + code.length > memorySize
        ∨ (start + code.length = memorySize ∧ ss ≠ [])) := by
      rintro (hover | ⟨hend, hmore⟩)
      · omega
      · have := length_flatten_pos hrest hmore
        omega
    refine ⟨(UInt8.ofNat start, i) :: placed, ?_, .cons ⟨rfl, hi⟩ hstand⟩
    simp only [Layout.ofStatements, Statement.advance, if_neg hi.mnemonic_ne_org, hi.size_eq,
      if_neg hroom, hi.references_eq, LabelTable.referenceAll, List.foldl_nil, hplaced]
    rfl

/-! ## §4. The bytes. -/

section Fresh

variable {κ ν : Type} [DecidableEq κ] {k : κ}

/-- A new key goes to the end. -/
theorem Entries.alter_of_not_mem {es : List (κ × ν)} (h : k ∉ es.map Prod.fst)
    (f : Option ν → ν) : alter k f es = es ++ [(k, f none)] := by
  induction es with
  | nil => rfl
  | cons e es ih =>
    obtain ⟨key, value⟩ := e
    rw [List.map_cons, List.mem_cons, not_or] at h
    rw [alter, if_neg (Ne.symm h.1), ih h.2, List.cons_append]

theorem OrderedMap.entries_insert_of_not_mem {m : OrderedMap κ ν} (h : k ∉ m.keys) (v : ν) :
    (m.insert k v).entries = m.entries ++ [(k, v)] := Entries.alter_of_not_mem h _

end Fresh

/-- All keys are addresses below `n`. -/
def Below {ν : Type} (n : Nat) (m : OrderedMap Byte ν) : Prop := ∀ key ∈ m.keys, key.toNat < n

namespace Below

variable {ν : Type} {n : Nat} {m : OrderedMap Byte ν}

/-- The next address is new. -/
theorem not_mem (h : Below n m) (hn : n < memorySize) : UInt8.ofNat n ∉ m.keys := by
  intro hmem
  have := h _ hmem
  rw [toNat_ofNat_address hn] at this
  omega

theorem insert (h : Below n m) (hn : n < memorySize) (v : ν) {n' : Nat} (hle : n < n') :
    Below n' (m.insert (UInt8.ofNat n) v) := by
  intro key hkey
  rw [OrderedMap.keys_insert, if_neg (h.not_mem hn), List.mem_append, List.mem_singleton] at hkey
  rcases hkey with hkey | rfl
  · exact (h key hkey).trans hle
  · rwa [toNat_ofNat_address hn]

end Below

/-- Bytes behind all others are written in a row. -/
theorem Image.write_inRow {image : Image} {start : Nat} (h : Below start image) (bytes : List Byte)
    (hfits : start + bytes.length ≤ memorySize) :
    (image.write start bytes).entries = image.entries ++ bytesFrom start bytes
      ∧ Below (start + bytes.length) (image.write start bytes) := by
  induction bytes generalizing image start with
  | nil => exact ⟨(List.append_nil _).symm, h⟩
  | cons b bytes ih =>
    rw [List.length_cons] at hfits ⊢
    have hstart : start < memorySize := by omega
    obtain ⟨hentries, hbelow⟩ := ih (h.insert hstart b (Nat.lt_succ_self start)) (by omega)
    rw [write]
    refine ⟨?_, by rwa [show start + (bytes.length + 1) = start + 1 + bytes.length by omega]⟩
    rw [hentries, OrderedMap.entries_insert_of_not_mem (h.not_mem hstart), List.append_assoc]
    rfl

/-- **Instructions are written in a row** behind all that is written. -/
theorem emit_of_stands {placed : List (Byte × Instruction)} {codes : List (List Byte)}
    {start : Nat} (h : List.Forall₂ Stands placed (codesFrom start codes))
    (hfits : start + codes.flatten.length ≤ memorySize) (p : Assembled)
    (himage : Below start p.image) (hinstructions : Below start p.instructions) :
    ∃ q, p.emit placed = .ok q
      ∧ q.image.entries = p.image.entries ++ bytesFrom start codes.flatten
      ∧ q.instructions.entries = p.instructions.entries ++ placed := by
  induction codes generalizing start placed p with
  | nil =>
    cases h
    exact ⟨p, rfl, (List.append_nil _).symm, (List.append_nil _).symm⟩
  | cons code codes ih =>
    cases h with
    | @cons e _ placed _ he hrest =>
      obtain ⟨a, i⟩ := e
      obtain ⟨ha, hi⟩ := he
      obtain rfl : a = UInt8.ofNat start := ha
      have hi : i.HasCode code := hi
      have hpos := hi.length_pos
      rw [List.flatten_cons, List.length_append] at hfits
      have hstart : start < memorySize := by omega
      obtain ⟨hentries, hbelow⟩ := Image.write_inRow himage code (by omega)
      have hplace : p.place (UInt8.ofNat start) i code
          = { p with
              image := p.image.write start code
              instructions := p.instructions.insert (UInt8.ofNat start) i } := by
        rw [Assembled.place, toNat_ofNat_address hstart, if_neg]
        simpa using List.ne_nil_of_length_pos hpos
      obtain ⟨q, hq, hqimage, hqinstructions⟩ := ih hrest (by omega)
        (p.place (UInt8.ofNat start) i code)
        (by rw [hplace]; exact hbelow)
        (by rw [hplace]; exact hinstructions.insert hstart i (by omega))
      refine ⟨q, ?_, ?_, ?_⟩
      · simp only [Assembled.emit, hi.resolve_eq, hi.encode_eq, hq]
      · rw [hqimage, hplace, hentries, List.flatten_cons, bytesFrom_append, List.append_assoc]
      · rw [hqinstructions, hplace,
          OrderedMap.entries_insert_of_not_mem (hinstructions.not_mem hstart), List.append_assoc]
        rfl

/-! ## §5. The program. -/

/-- Bytes in a row, laid into a list, are a part of it. -/
theorem foldl_set_bytesFrom {start : Nat} {bytes cells : List Byte}
    (hfits : start + bytes.length ≤ memorySize) (hcells : start + bytes.length ≤ cells.length) :
    (bytesFrom start bytes).foldl (fun cells (address, b) => cells.set address.toNat b) cells
      = cells.take start ++ (bytes ++ cells.drop (start + bytes.length)) := by
  induction bytes generalizing start cells with
  | nil => exact (List.take_append_drop start cells).symm
  | cons b bytes ih =>
    rw [List.length_cons] at hfits hcells ⊢
    have hstart : (UInt8.ofNat start).toNat = start := toNat_ofNat_address (by omega)
    have hhead : (cells.set start b).take (start + 1) = cells.take start ++ [b] := by
      rw [List.take_add_one, List.take_set_of_le (Nat.le_refl start),
        List.getElem?_set_self (by omega)]
      rfl
    rw [bytesFrom, inRow, List.foldl_cons]
    dsimp only
    rw [hstart, ← bytesFrom, ih (by omega) (by rw [List.length_set]; omega), hhead, List.drop_set_of_lt (by omega),
      show start + 1 + bytes.length = start + (bytes.length + 1) by omega]
    simp only [List.append_assoc, List.cons_append, List.nil_append]

/-- The highest address of bytes in a row. -/
theorem foldl_max_bytesFrom {start : Nat} {bytes : List Byte}
    (hfits : start + bytes.length ≤ memorySize) :
    ((bytesFrom start bytes).map Prod.fst).foldl (fun n address => max n (address.toNat + 1)) start
      = start + bytes.length := by
  induction bytes generalizing start with
  | nil => rfl
  | cons b bytes ih =>
    rw [List.length_cons] at hfits ⊢
    have hstart : (UInt8.ofNat start).toNat = start := toNat_ofNat_address (by omega)
    rw [bytesFrom, inRow, List.map_cons, List.foldl_cons, hstart, Nat.max_eq_right (Nat.le_succ _),
      ← bytesFrom, ih (by omega)]
    omega

/-- The bytes of an image in a row. -/
theorem Assembled.bytes_of_inRow {p : Assembled} {bytes : List Byte}
    (h : p.image.entries = bytesFrom 0 bytes) (hfits : bytes.length ≤ memorySize) :
    p.bytes = bytes := by
  have hfits' : 0 + bytes.length ≤ memorySize := by rwa [Nat.zero_add]
  have hlength : p.length = bytes.length := by
    rw [length, OrderedMap.keys, h, foldl_max_bytesFrom hfits', Nat.zero_add]
  have hcells : 0 + bytes.length ≤ unwritten.length := by
    rwa [show unwritten.length = memorySize by decide +kernel]
  rw [Assembled.bytes, hlength, cells, h, foldl_set_bytesFrom hfits' hcells, List.take_zero,
    List.nil_append, List.take_left]

/-- **The bytes of a program without labels and ORG** are the codes of its
instructions, and each stands where the one before it ends. -/
theorem assembleStatements_inRow {ss : List Statement} {codes : List (List Byte)}
    (h : List.Forall₂ Statement.HasCode ss codes) (hfits : codes.flatten.length ≤ memorySize) :
    ∃ p, assembleStatements ss = .ok p ∧ p.bytes = codes.flatten
      ∧ List.Forall₂ Stands p.instructions.entries (codesFrom 0 codes) := by
  obtain ⟨placed, hplaced, hstand⟩ :=
    layout_of_hasCode h (show 0 + codes.flatten.length ≤ memorySize by rwa [Nat.zero_add]) .empty
  have hempty : ∀ ν : Type, Below 0 (OrderedMap.empty : OrderedMap Byte ν) := by
    intro ν key hkey
    exact absurd hkey (by simp [OrderedMap.keys, OrderedMap.empty])
  obtain ⟨q, hq, himage, hinstructions⟩ :=
    emit_of_stands hstand (by rwa [Nat.zero_add]) ⟨.empty, .empty, .empty⟩ (hempty _) (hempty _)
  refine ⟨q, ?_, Assembled.bytes_of_inRow himage hfits, ?_⟩
  · rw [assembleStatements, hplaced]
    exact hq
  · rw [hinstructions]
    exact hstand

end EightBit
