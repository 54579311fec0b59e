/-
  EightBit.Proofs.Program.Assembly
  ────────────────────────────────
  **WHAT ASSEMBLY ACCEPTS, AND WHAT IT MAKES OF IT.**

  The two passes together: a program is assembled when it is well formed, and
  then every byte stands where the addresses of its statements say.  Otherwise
  the first fault of a place is reported, and only if there is none the first
  fault of an encoding.

  Main results:
    • `outcome_assembleStatements`      — both passes in one statement;
    • `faithful_of_assembleStatements`  — the image, the instructions and the
                                          labels follow from the addresses;
    • `assembleStatements_iff`          — what is accepted, and which error is
                                          reported otherwise.
-/
import EightBit.Proofs.Program.Emission

namespace EightBit

/-! ## §1. The two passes. -/

/-- **Assembly.**  It ends with the first fault of a place, or else of an
encoding; without faults, both invariants hold of the whole program. -/
theorem outcome_assembleStatements (ss : List Statement) :
    Outcome
      (fun p => NoFault (placementFault? ss) 0 ∧ NoFault (encodingFault? ss) 0
        ∧ LaidOut ss ss.length p.labels ∧ Emitted ss ss.length p)
      (fun e => FirstFault (placementFault? ss) 0 e
        ∨ (NoFault (placementFault? ss) 0 ∧ FirstFault (encodingFault? ss) 0 e))
      (assembleStatements ss) := by
  have hlayout := outcome_layout (Nat.zero_le ss.length) (LaidOut.start ss)
  rw [cursorAt_zero, List.drop_zero] at hlayout
  unfold assembleStatements
  cases hl : Layout.ofStatements 0 .empty ss with
  | error e => exact Or.inl (hlayout.of_error hl)
  | ok layout =>
    obtain ⟨hno, hplaced, hlaid⟩ := hlayout.of_ok hl
    refine (outcome_emit hno hlaid hplaced (Emitted.start ss layout.labels)).mono
      (fun p hp => ?_) fun e he => Or.inr ⟨hno, he⟩
    obtain ⟨hno', hlabels, hemitted⟩ := hp
    refine ⟨hno, hno', ?_, hemitted⟩
    rw [hlabels]
    exact hlaid

theorem assemble_eq_ok_iff {source : Text} {p : Assembled} : assemble source = .ok p
    ↔ ∃ ss, parse source = .ok ss ∧ assembleStatements ss = .ok p := by
  unfold assemble
  cases parse source <;> simp

section Assembled

variable {ss : List Statement} {p : Assembled}

theorem noFault_of_assembleStatements (h : assembleStatements ss = .ok p) :
    NoFault (placementFault? ss) 0 ∧ NoFault (encodingFault? ss) 0 := by
  obtain ⟨hplacement, hencoding, -, -⟩ := (outcome_assembleStatements ss).of_ok h
  exact ⟨hplacement, hencoding⟩

theorem laidOut_of_assembleStatements (h : assembleStatements ss = .ok p) :
    LaidOut ss ss.length p.labels := by
  obtain ⟨-, -, hlaid, -⟩ := (outcome_assembleStatements ss).of_ok h
  exact hlaid

theorem emitted_of_assembleStatements (h : assembleStatements ss = .ok p) :
    Emitted ss ss.length p := by
  obtain ⟨-, -, -, hemitted⟩ := (outcome_assembleStatements ss).of_ok h
  exact hemitted

/-- Every instruction that places bytes was resolved and encoded. -/
theorem exists_encodes_of_assembleStatements (h : assembleStatements ss = .ok p) {i : Nat}
    {code : Instruction} (hcode : PlacesAt ss i code) :
    ∃ j bytes, Encodes ss p.labels i j bytes := by
  obtain ⟨hno, hno'⟩ := noFault_of_assembleStatements h
  have hfault := encodeAt_eq_error_iff hno (laidOut_of_assembleStatements h) hcode
  cases henc : code.encodeAt p.labels (UInt8.ofNat (cursorAt ss i)) with
  | error e =>
    have hnone := hno' i (Nat.zero_le i)
    rw [(hfault e).1 henc] at hnone
    exact absurd hnone (by simp)
  | ok encoded => exact ⟨encoded.1, encoded.2, code, hcode, henc⟩

/-- A declared label has the address of its declaration, and no other label has
an address. -/
theorem address?_iff_of_assembleStatements (h : assembleStatements ss = .ok p) (name : Text)
    (a : Byte) : p.labels.address? name = some a
      ↔ ∃ i, DeclaresAt ss i name ∧ cursorAt ss i = a.toNat := by
  have hno := (noFault_of_assembleStatements h).1
  rw [(laidOut_of_assembleStatements h).address?_iff]
  constructor
  · intro hdecl
    obtain ⟨i, hi, hname, rfl⟩ := hdecl
    exact ⟨i, hname, (toNat_ofNat_cursorAt hno hi).symm⟩
  · intro hdecl
    obtain ⟨i, hname, ha⟩ := hdecl
    exact ⟨i, hname.lt_length, hname, by rw [ha, UInt8.ofNat_toNat]⟩

/-- What is below the length of the program is anywhere in it. -/
theorem below_length {P : Nat → Prop} (h : ∀ j, P j → j < ss.length) :
    {j | j < ss.length ∧ P j} = {j | P j} := by
  ext j
  exact ⟨fun hj => hj.2, fun hj => ⟨h j hj, hj⟩⟩

theorem Covers.lt_length {i : Nat} {x : Byte} (h : Covers ss i x) : i < ss.length := by
  obtain ⟨code, hcode, -⟩ := h
  exact hcode.lt_length

theorem StartsAt.lt_length {i : Nat} {a : Byte} (h : StartsAt ss i a) : i < ss.length := by
  obtain ⟨code, hcode, -⟩ := h
  exact hcode.lt_length

/-- An address of the image holds the byte of the last instruction that covers
it. -/
theorem byte_of_last_of_assembleStatements (h : assembleStatements ss = .ok p) {x : Byte} {i : Nat}
    (hlast : IsGreatest {j | Covers ss j x} i) : ∃ j bytes b, Encodes ss p.labels i j bytes
      ∧ bytes[x.toNat - cursorAt ss i]? = some b ∧ p.image.get? x = some b := by
  rw [← below_length fun j => Covers.lt_length] at hlast
  obtain ⟨j, bytes, henc, hbyte⟩ := (emitted_of_assembleStatements h).byte_of_last x i hlast
  obtain ⟨code, hcode, hlo, hhi⟩ := hlast.1.2
  have hlen : bytes.length = code.size := henc.length_eq hcode
  have hget := List.getElem?_eq_getElem (show x.toNat - cursorAt ss i < bytes.length by omega)
  exact ⟨j, bytes, _, henc, hget, by rw [hbyte, hget]⟩

/-- The instruction at an address is the last that starts there, with its
distances. -/
theorem instruction_iff_of_assembleStatements (h : assembleStatements ss = .ok p) (a : Byte)
    (j : Instruction) : p.instructions.get? a = some j
      ↔ ∃ i bytes, IsGreatest {j | StartsAt ss j a} i ∧ Encodes ss p.labels i j bytes := by
  rw [(emitted_of_assembleStatements h).instruction_iff, below_length fun j => StartsAt.lt_length]

/-- An instruction of the result was encoded where it stands. -/
theorem exists_encodes_of_get?_instructions (h : assembleStatements ss = .ok p) {a : Byte}
    {j : Instruction} (hj : p.instructions.get? a = some j) :
    ∃ i bytes, Encodes ss p.labels i j bytes ∧ cursorAt ss i = a.toNat := by
  obtain ⟨i, bytes, hlast, henc⟩ := (instruction_iff_of_assembleStatements h a j).1 hj
  obtain ⟨-, -, -, hstart⟩ := hlast.1
  exact ⟨i, bytes, henc, hstart⟩

/-- The addresses of the image are those that some instruction covers. -/
theorem mem_keys_iff_of_assembleStatements (h : assembleStatements ss = .ok p) (x : Byte) :
    x ∈ p.image.keys ↔ ∃ i, Covers ss i x := by
  have hno := (noFault_of_assembleStatements h).1
  rw [(emitted_of_assembleStatements h).keys_eq, List.mem_eraseDups, written, List.mem_flatMap]
  constructor
  · intro hx
    obtain ⟨i, -, hx⟩ := hx
    exact ⟨i, (mem_addressesAt hno i x).1 hx⟩
  · intro hx
    obtain ⟨i, hx⟩ := hx
    exact ⟨i, List.mem_range.2 hx.lt_length, (mem_addressesAt hno i x).2 hx⟩

end Assembled

/-! ## §2. Every byte where the addresses say. -/

/-- The result follows from the addresses of the statements: the address of the
first is 0, and of every other what the statement before it makes of its own. -/
structure Faithful (ss : List Statement) (p : Assembled) : Prop where
  /-- A label is declared where the next statement is. -/
  cursor_label : ∀ i name, DeclaresAt ss i name → cursorAt ss (i + 1) = cursorAt ss i
  /-- ORG continues at its number, and without one where it stands. -/
  cursor_org : ∀ i code, ss[i]? = some (.instruction code) → code.mnemonic = .org →
    cursorAt ss (i + 1) = (code.origin?.map UInt8.toNat).getD (cursorAt ss i)
  cursor_code : ∀ i code, PlacesAt ss i code → cursorAt ss (i + 1) = cursorAt ss i + code.size
  /-- Every address is a byte. -/
  cursor_le : ∀ i < ss.length, cursorAt ss i ≤ 255
  /-- Every instruction fits into memory. -/
  fits : ∀ i code, PlacesAt ss i code → cursorAt ss i + code.size ≤ 256
  /-- The image has the addresses that instructions cover, and no others. -/
  mem_keys_iff : ∀ x, x ∈ p.image.keys ↔ ∃ i, Covers ss i x
  /-- Of several instructions at an address the byte of the last stays. -/
  byte_of_last : ∀ x i, IsGreatest {j | Covers ss j x} i → ∃ j bytes b,
    Encodes ss p.labels i j bytes ∧ bytes[x.toNat - cursorAt ss i]? = some b
      ∧ p.image.get? x = some b
  /-- The addresses stand in the order in which they are first written. -/
  keys_eq : p.image.keys = (written ss ss.length).eraseDups
  /-- Of several instructions that start at an address the last stays. -/
  instruction_iff : ∀ a j, p.instructions.get? a = some j ↔
    ∃ i bytes, IsGreatest {j | StartsAt ss j a} i ∧ Encodes ss p.labels i j bytes
  /-- A label has the address of its declaration. -/
  address?_iff : ∀ name a, p.labels.address? name = some a ↔
    ∃ i, DeclaresAt ss i name ∧ cursorAt ss i = a.toNat

/-- **Nothing is truncated or misplaced.**  An assembled program follows from
the addresses of its statements. -/
theorem faithful_of_assembleStatements {ss : List Statement} {p : Assembled}
    (h : assembleStatements ss = .ok p) : Faithful ss p := by
  have hno := (noFault_of_assembleStatements h).1
  have hcursor : ∀ i < ss.length, cursorAt ss i < memorySize := fun i hi => cursorAt_lt hno hi
  exact
    { cursor_label := fun i name hdecl => cursorAt_succ_of_declaresAt hdecl
      cursor_org := fun i code hs horg => by
        rw [cursorAt_succ hs, Statement.advance, if_pos horg]
        cases code.origin? <;> rfl
      cursor_code := fun i code hcode => cursorAt_succ_of_placesAt hcode
      cursor_le := fun i hi => Nat.le_of_lt_succ (hcursor i hi)
      fits := fun i code hcode => (hcode.fits (hno i (Nat.zero_le i))).1
      mem_keys_iff := mem_keys_iff_of_assembleStatements h
      byte_of_last := fun x i hlast => byte_of_last_of_assembleStatements h hlast
      keys_eq := (emitted_of_assembleStatements h).keys_eq
      instruction_iff := instruction_iff_of_assembleStatements h
      address?_iff := address?_iff_of_assembleStatements h }

/-- A program that goes back over its second byte: a string at 0, a number at
1, and behind it a jump back to the number. -/
def rewound : List Statement :=
  [ .instruction ⟨.db, none, [⟨.string ['A', 'B'], ⟨3, 7⟩⟩], ⟨0, 7⟩⟩,
    .instruction ⟨.org, none, [⟨.number 1, ⟨12, 13⟩⟩], ⟨8, 13⟩⟩,
    .label ['L'] ⟨14, 16⟩,
    .instruction ⟨.db, none, [⟨.number 7, ⟨20, 21⟩⟩], ⟨17, 21⟩⟩,
    .instruction ⟨.jump .always, some (.jump .always), [⟨.label ['L'] none, ⟨26, 27⟩⟩], ⟨22, 27⟩⟩,
    .instruction ⟨.finish, some .halt, [], ⟨28, 31⟩⟩ ]

/-- The number replaces the second character, and the jump leads one byte
back. -/
theorem faithful_rewound : ∃ p, assembleStatements rewound = .ok p
    ∧ p.image.entries = [(0, 0x41), (1, 7), (2, 0xC0), (3, 0xFF), (4, 0)]
    ∧ Faithful rewound p := by
  have hmap : (assembleStatements rewound).map (fun p => p.image.entries)
      = .ok [(0, 0x41), (1, 7), (2, 0xC0), (3, 0xFF), (4, 0)] := rfl
  obtain ⟨p, hp, himage⟩ := map_eq_ok_iff.1 hmap
  exact ⟨p, hp, himage, faithful_of_assembleStatements hp⟩

/-! ## §3. What is accepted. -/

/-- **A well-formed program.** -/
structure WellFormed (ss : List Statement) : Prop where
  /-- No label is declared twice. -/
  declared_once : ∀ i j name, DeclaresAt ss i name → DeclaresAt ss j name → i = j
  /-- Every instruction fits into memory, and only the last may end with it. -/
  fits : ∀ i code, PlacesAt ss i code → cursorAt ss i + code.size ≤ 256
    ∧ (i + 1 < ss.length → cursorAt ss i + code.size < 256)
  /-- Every label that is used is declared, and near enough. -/
  near : ∀ i code o name distance, PlacesAt ss i code → o ∈ code.operands →
    o.value = .label name distance → ∃ j, DeclaresAt ss j name
      ∧ -128 ≤ (cursorAt ss j - cursorAt ss i : Int) ∧ (cursorAt ss j - cursorAt ss i : Int) ≤ 127
  /-- Every character of a string is a byte. -/
  latin : ∀ i code o text, PlacesAt ss i code → o ∈ code.operands →
    o.value = .string text → ∀ c ∈ text, c.toNat ≤ 0xFF

section WellFormed

variable {ss : List Statement}

/-- Places are without faults when no label is declared twice and every
instruction fits. -/
theorem noFault_placement_iff : NoFault (placementFault? ss) 0 ↔
    (∀ i j name, DeclaresAt ss i name → DeclaresAt ss j name → i = j)
    ∧ ∀ i code, PlacesAt ss i code → cursorAt ss i + code.size ≤ 256
      ∧ (i + 1 < ss.length → cursorAt ss i + code.size < 256) := by
  constructor
  · intro hno
    -- of two declarations the later one is at fault
    have hlater : ∀ i j name, DeclaresAt ss i name → DeclaresAt ss j name → ¬ i < j := by
      intro i j name hi hj hlt
      obtain ⟨span, hs⟩ := hj
      have hnone := hno j (Nat.zero_le j)
      simp [placementFault?, hs, any_declares_iff.2 ⟨i, hlt, hi⟩] at hnone
    refine ⟨fun i j name hi hj => ?_, fun i code hcode => hcode.fits (hno i (Nat.zero_le i))⟩
    have hij := hlater i j name hi hj
    have hji := hlater j i name hj hi
    omega
  · intro h i _
    obtain ⟨honce, hfits⟩ := h
    unfold placementFault?
    split
    · rfl
    · next name span hs =>
      refine if_neg fun hany => ?_
      obtain ⟨j, hj, hdecl⟩ := any_declares_iff.1 hany
      have := honce j i name hdecl ⟨span, hs⟩
      omega
    · next code hs =>
      refine if_neg fun hover => ?_
      have hfit := hfits i code ⟨hs, hover.1⟩
      have hrun : Overruns ss i code := hover.2
      unfold Overruns at hrun
      have hsize : memorySize = 256 := rfl
      omega

/-- A label operand is without fault when its label is declared and near
enough. -/
theorem labelFault?_eq_none_iff
    (honce : ∀ i j name, DeclaresAt ss i name → DeclaresAt ss j name → i = j) (i : Nat)
    (o : Operand) : labelFault? ss i o = none ↔ ∀ name distance, o.value = .label name distance →
      ∃ j, DeclaresAt ss j name ∧ -128 ≤ (cursorAt ss j - cursorAt ss i : Int)
        ∧ (cursorAt ss j - cursorAt ss i : Int) ≤ 127 := by
  unfold labelFault?
  cases hvalue : o.value with
  | label name distance =>
    cases hj : ss.findIdx? (Statement.declares name) with
    | none =>
      have hnone := findIdx?_declares_eq_none hj
      simp only [hj]
      constructor
      · exact fun h => absurd h (by simp)
      · intro h
        obtain ⟨j, hdecl, -⟩ := h name distance rfl
        exact absurd hdecl (hnone j)
    | some j =>
      have hdecl := declaresAt_of_findIdx? hj
      simp only [hj]
      constructor
      · intro h other d heq
        injection heq with hname
        subst hname
        by_contra hfar
        have hif : ¬ (-128 ≤ (cursorAt ss j - cursorAt ss i : Int)
            ∧ (cursorAt ss j - cursorAt ss i : Int) ≤ 127) := fun hnear => hfar ⟨j, hdecl, hnear⟩
        rw [if_neg hif] at h
        exact absurd h (by simp)
      · intro h
        obtain ⟨j', hdecl', hnear⟩ := h name distance rfl
        obtain rfl := honce j j' name hdecl hdecl'
        exact if_pos hnear
  | number n | address a | register r | registerAddress r | string text => simp

/-- A string operand is without fault when its characters are bytes. -/
theorem stringFault?_eq_none_iff (o : Operand) :
    stringFault? o = none ↔ ∀ text, o.value = .string text → ∀ c ∈ text, c.toNat ≤ 0xFF := by
  unfold stringFault?
  cases hvalue : o.value with
  | string text => simp [charFault?]
  | number n | address a | register r | registerAddress r | label name distance => simp

/-- Well-formed programs are those without faults. -/
theorem wellFormed_iff :
    WellFormed ss ↔ NoFault (placementFault? ss) 0 ∧ NoFault (encodingFault? ss) 0 := by
  constructor
  · intro h
    refine ⟨noFault_placement_iff.2 ⟨h.declared_once, h.fits⟩, fun i _ => ?_⟩
    by_cases hplaces : ∃ code, PlacesAt ss i code
    · obtain ⟨code, hcode⟩ := hplaces
      rw [encodingFault?_of_placesAt hcode, Option.or_eq_none_iff, List.findSome?_eq_none_iff,
        List.findSome?_eq_none_iff]
      exact ⟨fun o ho => (labelFault?_eq_none_iff h.declared_once i o).2 fun name distance hvalue =>
          h.near i code o name distance hcode ho hvalue,
        fun o ho => (stringFault?_eq_none_iff o).2 fun text hvalue =>
          h.latin i code o text hcode ho hvalue⟩
    · exact encodingFault?_of_not_placesAt fun code hcode => hplaces ⟨code, hcode⟩
  · intro h
    obtain ⟨hno, hno'⟩ := h
    obtain ⟨honce, hfits⟩ := noFault_placement_iff.1 hno
    have hops : ∀ i code, PlacesAt ss i code → ∀ o ∈ code.operands,
        labelFault? ss i o = none ∧ stringFault? o = none := by
      intro i code hcode o ho
      have hnone := hno' i (Nat.zero_le i)
      rw [encodingFault?_of_placesAt hcode, Option.or_eq_none_iff, List.findSome?_eq_none_iff,
        List.findSome?_eq_none_iff] at hnone
      exact ⟨hnone.1 o ho, hnone.2 o ho⟩
    exact
      { declared_once := honce
        fits := hfits
        near := fun i code o name distance hcode ho hvalue =>
          (labelFault?_eq_none_iff honce i o).1 (hops i code hcode o ho).1 name distance hvalue
        latin := fun i code o text hcode ho hvalue =>
          (stringFault?_eq_none_iff o).1 (hops i code hcode o ho).2 text hvalue }

end WellFormed

/-- **What is accepted, and what is reported.**  Exactly the well-formed
programs are assembled.  A label declared again or an instruction that does not
fit is reported before all else, and then the first statement with a faulty
label or string. -/
theorem assembleStatements_iff (ss : List Statement) :
    ((∃ p, assembleStatements ss = .ok p) ↔ WellFormed ss)
    ∧ ∀ e, assembleStatements ss = .error e ↔ FirstFault (placementFault? ss) 0 e
      ∨ (NoFault (placementFault? ss) 0 ∧ FirstFault (encodingFault? ss) 0 e) := by
  rw [wellFormed_iff]
  have hout := outcome_assembleStatements ss
  cases h : assembleStatements ss with
  | ok p =>
    rw [h] at hout
    obtain ⟨hno, hno', -⟩ := hout
    refine ⟨⟨fun _ => ⟨hno, hno'⟩, fun _ => ⟨p, rfl⟩⟩, fun e => ⟨fun he => absurd he (by simp), ?_⟩⟩
    intro hfault
    rcases hfault with hfault | ⟨-, hfault⟩
    · exact absurd hno hfault.not_noFault
    · exact absurd hno' hfault.not_noFault
  | error e =>
    rw [h] at hout
    refine ⟨⟨fun hok => by obtain ⟨p, hp⟩ := hok; exact absurd hp (by simp), fun hno => ?_⟩,
      fun e' => ⟨fun he => ?_, fun hfault => ?_⟩⟩
    · rcases hout with hfault | ⟨-, hfault⟩
      · exact absurd hno.1 hfault.not_noFault
      · exact absurd hno.2 hfault.not_noFault
    · injection he with he
      rw [← he]
      exact hout
    · -- both `e` and `e'` are the first fault of the same kind
      rcases hout with hout | ⟨hno, hout⟩ <;> rcases hfault with hfault | ⟨hno', hfault⟩
      · rw [hout.unique hfault]
      · exact absurd hno' hout.not_noFault
      · exact absurd hno hfault.not_noFault
      · rw [hout.unique hfault]

end EightBit
