/-
  EightBit.Proofs.Program.Placement
  ─────────────────────────────────
  **ADDRESSES OF STATEMENTS, AND WHAT CAN BE WRONG WITH THEM.**

  The address of a statement depends on the statements before it alone, so
  it is a function of the program and an index.  So is the fault of a
  statement: a label that was declared before, or an instruction that does not
  fit before the end of memory.  The layout pass runs through the program with
  a cursor and a table; here both are read off the index.

  Main results:
    • `cursorAt_lt`                — without faults every address is a byte;
    • `outcome_layout`             — the layout pass ends with the first fault,
                                     or places every instruction at its address
                                     and gives every label the address of its
                                     declaration.
-/
import EightBit.Program.Layout
import EightBit.Proofs.Sequence

namespace EightBit

/-! ## §1. Addresses. -/

/-- The address of the statement with index `i`: the cursor after the
statements before it. -/
def cursorAt (ss : List Statement) (i : Nat) : Nat := (ss.take i).foldl Statement.advance 0

/-- The statement with index `i` is the instruction `code`, and not ORG: its
bytes are placed at its address. -/
def PlacesAt (ss : List Statement) (i : Nat) (code : Instruction) : Prop :=
  ss[i]? = some (.instruction code) ∧ code.mnemonic ≠ .org

/-- The statement with index `i` declares the label. -/
def DeclaresAt (ss : List Statement) (i : Nat) (name : Text) : Prop :=
  ∃ span, ss[i]? = some (.label name span)

/-- An address in memory is stored unchanged. -/
theorem toNat_ofNat_address {address : Nat} (h : address < memorySize) :
    (UInt8.ofNat address).toNat = address := UInt8.toNat_ofNat_of_lt h

@[simp] theorem cursorAt_zero (ss : List Statement) : cursorAt ss 0 = 0 := rfl

/-- A statement moves the cursor to the address of the next. -/
theorem cursorAt_succ {ss : List Statement} {i : Nat} {s : Statement} (h : ss[i]? = some s) :
    cursorAt ss (i + 1) = s.advance (cursorAt ss i) := by
  unfold cursorAt
  rw [List.take_add_one, h, List.foldl_append]
  rfl

theorem cursorAt_succ_of_placesAt {ss : List Statement} {i : Nat} {code : Instruction}
    (h : PlacesAt ss i code) : cursorAt ss (i + 1) = cursorAt ss i + code.size := by
  rw [cursorAt_succ h.1, Statement.advance, if_neg h.2]

theorem cursorAt_succ_of_declaresAt {ss : List Statement} {i : Nat} {name : Text}
    (h : DeclaresAt ss i name) : cursorAt ss (i + 1) = cursorAt ss i := by
  obtain ⟨span, h⟩ := h
  exact cursorAt_succ h

theorem PlacesAt.lt_length {ss : List Statement} {i : Nat} {code : Instruction}
    (h : PlacesAt ss i code) : i < ss.length := (List.getElem?_eq_some_iff.1 h.1).1

theorem DeclaresAt.lt_length {ss : List Statement} {i : Nat} {name : Text}
    (h : DeclaresAt ss i name) : i < ss.length := by
  obtain ⟨span, h⟩ := h
  exact (List.getElem?_eq_some_iff.1 h).1

theorem PlacesAt.unique {ss : List Statement} {i : Nat} {code code' : Instruction}
    (h : PlacesAt ss i code) (h' : PlacesAt ss i code') : code = code' := by
  have heq := h.1.symm.trans h'.1
  simpa using heq

/-! ## §2. Faults by index. -/

/-- Whether the statement declares the label. -/
def Statement.declares (name : Text) : Statement → Bool
  | .label other _ => other = name
  | .instruction _ => false

/-- The bytes do not fit: they run past the end of memory, or up to it although
statements follow. -/
def Overruns (ss : List Statement) (i : Nat) (code : Instruction) : Prop :=
  memorySize < cursorAt ss i + code.size
    ∨ (cursorAt ss i + code.size = memorySize ∧ i + 1 < ss.length)

instance (ss : List Statement) (i : Nat) (code : Instruction) : Decidable (Overruns ss i code) :=
  inferInstanceAs (Decidable (_ ∨ _))

/-- What is wrong with the place of the statement with index `i`: it declares a
label that was declared before, or its bytes do not fit. -/
def placementFault? (ss : List Statement) (i : Nat) : Option SourceError :=
  match ss[i]? with
  | none => none
  | some (.label name span) =>
    if (ss.take i).any (Statement.declares name) then some ⟨.duplicateLabel name, span⟩ else none
  | some (.instruction code) =>
    if code.mnemonic ≠ .org ∧ Overruns ss i code then some ⟨.endOfMemory, code.span⟩ else none

/-- The first fault at the index `k` or after it is `e`. -/
def FirstFault (fault? : Nat → Option SourceError) (k : Nat) (e : SourceError) : Prop :=
  ∃ i, k ≤ i ∧ fault? i = some e ∧ ∀ j, k ≤ j → j < i → fault? j = none

/-- There is no fault at the index `k` or after it. -/
def NoFault (fault? : Nat → Option SourceError) (k : Nat) : Prop :=
  ∀ i, k ≤ i → fault? i = none

section Faults

variable {fault? : Nat → Option SourceError} {k : Nat} {e e' : SourceError}

theorem FirstFault.here (h : fault? k = some e) : FirstFault fault? k e :=
  ⟨k, Nat.le_refl k, h, fun j hkj hj => by omega⟩

theorem FirstFault.later (hk : fault? k = none) (h : FirstFault fault? (k + 1) e) :
    FirstFault fault? k e := by
  obtain ⟨i, hi, hfault, hbefore⟩ := h
  refine ⟨i, by omega, hfault, fun j hkj hj => ?_⟩
  by_cases hjk : j = k
  · rw [hjk]
    exact hk
  · exact hbefore j (by omega) hj

theorem NoFault.later (hk : fault? k = none) (h : NoFault fault? (k + 1)) : NoFault fault? k := by
  intro i hi
  by_cases hik : i = k
  · rw [hik]
    exact hk
  · exact h i (by omega)

/-- There is only one first fault. -/
theorem FirstFault.unique (h : FirstFault fault? k e) (h' : FirstFault fault? k e') : e = e' := by
  obtain ⟨i, hi, hfault, hbefore⟩ := h
  obtain ⟨j, hj, hfault', hbefore'⟩ := h'
  have hij : i = j := by
    -- the later of the two would not be first
    by_contra hne
    rcases Nat.lt_or_gt_of_ne hne with hlt | hlt
    · simp [hbefore' i hi hlt] at hfault
    · simp [hbefore j hj hlt] at hfault'
  subst hij
  simpa [hfault] using hfault'

theorem FirstFault.not_noFault (h : FirstFault fault? k e) : ¬ NoFault fault? k := by
  intro hno
  obtain ⟨i, hi, hfault, -⟩ := h
  simp [hno i hi] at hfault

end Faults

theorem any_declares_iff {ss : List Statement} {i : Nat} {name : Text} :
    (ss.take i).any (Statement.declares name) = true ↔ ∃ j < i, DeclaresAt ss j name := by
  rw [List.any_eq_true]
  constructor
  · rintro ⟨s, hs, hname⟩
    obtain ⟨j, hj⟩ := List.mem_iff_getElem?.1 hs
    rw [List.getElem?_take] at hj
    split at hj
    · next hlt =>
      cases s with
      | instruction code => simp [Statement.declares] at hname
      | label other span =>
        obtain rfl : other = name := by simpa [Statement.declares] using hname
        exact ⟨j, hlt, span, hj⟩
    · exact absurd hj (by simp)
  · rintro ⟨j, hlt, span, hj⟩
    refine ⟨.label name span, List.mem_iff_getElem?.2 ⟨j, ?_⟩, by simp [Statement.declares]⟩
    rw [List.getElem?_take_of_lt hlt, hj]

/-- A placed instruction without a fault fits. -/
theorem PlacesAt.fits {ss : List Statement} {i : Nat} {code : Instruction}
    (h : PlacesAt ss i code) (hno : placementFault? ss i = none) :
    cursorAt ss i + code.size ≤ memorySize
      ∧ (i + 1 < ss.length → cursorAt ss i + code.size < memorySize) := by
  have hfits : ¬ Overruns ss i code := by
    intro hover
    simp [placementFault?, h.1, h.2, hover] at hno
  unfold Overruns at hfits
  omega

/-- The cursor stays below the end of memory as long as statements follow. -/
theorem cursorAt_succ_lt {ss : List Statement} {i : Nat} (hlt : cursorAt ss i < memorySize)
    (hno : placementFault? ss i = none) (hi : i + 1 < ss.length) :
    cursorAt ss (i + 1) < memorySize := by
  have hs : ss[i]? = some (ss[i]) := List.getElem?_eq_getElem (by omega)
  cases h : ss[i] with
  | label name span =>
    rw [h] at hs
    rw [cursorAt_succ_of_declaresAt ⟨span, hs⟩]
    exact hlt
  | instruction code =>
    rw [h] at hs
    -- ORG continues at a byte, and any other instruction fits
    by_cases horg : code.mnemonic = .org
    · rw [cursorAt_succ hs, Statement.advance, if_pos horg]
      cases code.origin? with
      | none => exact hlt
      | some origin => exact origin.toNat_lt
    · rw [cursorAt_succ_of_placesAt ⟨hs, horg⟩]
      exact (PlacesAt.fits ⟨hs, horg⟩ hno).2 hi

/-- Without faults every address is a byte. -/
theorem cursorAt_lt {ss : List Statement} (hno : NoFault (placementFault? ss) 0) {i : Nat}
    (hi : i < ss.length) : cursorAt ss i < memorySize := by
  induction i with
  | zero => simp [memorySize]
  | succ i ih => exact cursorAt_succ_lt (ih (by omega)) (hno i (by omega)) hi

/-! ## §3. The layout pass. -/

/-- The instructions from the index `k` on that place bytes, each with its
address. -/
inductive Placed (ss : List Statement) : Nat → List (Byte × Instruction) → Prop
  | done : Placed ss ss.length []
  | skip {k : Nat} {placed : List (Byte × Instruction)} (h : ∀ code, ¬ PlacesAt ss k code)
      (rest : Placed ss (k + 1) placed) : Placed ss k placed
  | place {k : Nat} {code : Instruction} {placed : List (Byte × Instruction)}
      (h : PlacesAt ss k code) (rest : Placed ss (k + 1) placed) :
      Placed ss k ((UInt8.ofNat (cursorAt ss k), code) :: placed)

/-- The state of the layout pass in front of the statement with index `k`: the
cursor is a byte if there is such a statement, and the labels declared so far
have the addresses of their declarations. -/
structure LaidOut (ss : List Statement) (k : Nat) (labels : LabelTable) : Prop where
  cursor_lt : k < ss.length → cursorAt ss k < memorySize
  address?_iff : ∀ name a, labels.address? name = some a ↔
    ∃ j < k, DeclaresAt ss j name ∧ a = UInt8.ofNat (cursorAt ss j)

theorem LabelTable.address?_referenceAll (t : LabelTable) (uses : List (Text × Span))
    (name : Text) : (t.referenceAll uses).address? name = t.address? name := by
  induction uses generalizing t with
  | nil => rfl
  | cons use uses ih =>
    show (referenceAll (t.reference use.1 use.2) uses).address? name = _
    rw [ih, address?_reference]

namespace LaidOut

variable {ss : List Statement} {k : Nat} {labels : LabelTable}

/-- At the start nothing is laid out. -/
theorem start (ss : List Statement) : LaidOut ss 0 .empty where
  cursor_lt _ := by simp [memorySize]
  address?_iff name a := by simp [LabelTable.address?]

/-- A label has an address as soon as it is declared. -/
theorem isSome_address?_iff (h : LaidOut ss k labels) (name : Text) :
    (labels.address? name).isSome ↔ ∃ j < k, DeclaresAt ss j name := by
  rw [Option.isSome_iff_exists]
  constructor
  · rintro ⟨a, ha⟩
    obtain ⟨j, hj, hdecl, -⟩ := (h.address?_iff name a).1 ha
    exact ⟨j, hj, hdecl⟩
  · rintro ⟨j, hj, hdecl⟩
    exact ⟨_, (h.address?_iff name _).2 ⟨j, hj, hdecl, rfl⟩⟩

/-- A statement that declares nothing leaves the addresses as they are. -/
theorem keep (h : LaidOut ss k labels) {labels' : LabelTable}
    (hsame : ∀ name, labels'.address? name = labels.address? name)
    (hdecl : ∀ name, ¬ DeclaresAt ss k name)
    (hlt : k + 1 < ss.length → cursorAt ss (k + 1) < memorySize) :
    LaidOut ss (k + 1) labels' where
  cursor_lt := hlt
  address?_iff name a := by
    rw [hsame, h.address?_iff]
    constructor
    · rintro ⟨j, hj, hrest⟩
      exact ⟨j, by omega, hrest⟩
    · rintro ⟨j, hj, hj', ha⟩
      have hne : j ≠ k := by
        rintro rfl
        exact hdecl name hj'
      exact ⟨j, by omega, hj', ha⟩

/-- A declaration adds its label with the cursor as the address. -/
theorem declare (h : LaidOut ss k labels) {name : Text} {span : Span} {labels' : LabelTable}
    (hs : ss[k]? = some (.label name span))
    (hnew : labels.declare name (UInt8.ofNat (cursorAt ss k)) span = .ok labels')
    (hfresh : ¬ ∃ j < k, DeclaresAt ss j name)
    (hlt : k + 1 < ss.length → cursorAt ss (k + 1) < memorySize) :
    LaidOut ss (k + 1) labels' where
  cursor_lt := hlt
  address?_iff other a := by
    rw [LabelTable.address?_declare hnew]
    by_cases hother : other = name
    · subst hother
      rw [if_pos rfl, Option.some.injEq]
      constructor
      · rintro rfl
        exact ⟨k, by omega, ⟨span, hs⟩, rfl⟩
      · rintro ⟨j, hj, hdecl, rfl⟩
        have hjk : j = k := by
          by_contra hne
          exact hfresh ⟨j, by omega, hdecl⟩
        rw [hjk]
    · rw [if_neg hother, h.address?_iff]
      constructor
      · rintro ⟨j, hj, hrest⟩
        exact ⟨j, by omega, hrest⟩
      · rintro ⟨j, hj, ⟨span', hj'⟩, ha⟩
        have hne : j ≠ k := by
          rintro rfl
          rw [hs] at hj'
          injection hj' with heq
          injection heq with heq
          exact hother heq.symm
        exact ⟨j, by omega, ⟨span', hj'⟩, ha⟩

end LaidOut

/-- A label that was declared before is refused, and any other gets the cursor. -/
theorem LaidOut.outcome_declare {ss : List Statement} {k : Nat} {labels : LabelTable}
    (h : LaidOut ss k labels) {name : Text} {span : Span} (hs : ss[k]? = some (.label name span)) :
    Outcome (fun labels' => placementFault? ss k = none ∧ LaidOut ss (k + 1) labels')
      (fun e => placementFault? ss k = some e)
      (labels.declare name (UInt8.ofNat (cursorAt ss k)) span) := by
  have hk : k < ss.length := DeclaresAt.lt_length ⟨span, hs⟩
  have hlt : k + 1 < ss.length → cursorAt ss (k + 1) < memorySize := fun _ => by
    rw [cursorAt_succ_of_declaresAt ⟨span, hs⟩]
    exact h.cursor_lt hk
  -- the table knows the label exactly when a statement before declares it
  by_cases hdup : ∃ j < k, DeclaresAt ss j name
  · have hsome := (h.isSome_address?_iff name).2 hdup
    rw [LabelTable.declare, if_pos hsome]
    show placementFault? ss k = _
    simp [placementFault?, hs, any_declares_iff.2 hdup]
  · have hnone : ¬ (labels.address? name).isSome = true := fun hsome =>
      hdup ((h.isSome_address?_iff name).1 hsome)
    have hany : ¬ (ss.take k).any (Statement.declares name) = true := fun hany =>
      hdup (any_declares_iff.1 hany)
    obtain ⟨labels', hnew⟩ :
        ∃ labels', labels.declare name (UInt8.ofNat (cursorAt ss k)) span = .ok labels' := by
      rw [LabelTable.declare, if_neg hnone]
      exact ⟨_, rfl⟩
    rw [hnew]
    refine ⟨?_, h.declare hs hnew hdup hlt⟩
    simp only [placementFault?, hs, if_neg hany]

/-- What the layout pass makes of the statements from the index `k` on: all of
them are laid out, or the first fault is reported. -/
def LaysOut (ss : List Statement) (k : Nat) : Except SourceError Layout → Prop :=
  Outcome
    (fun layout => NoFault (placementFault? ss) k ∧ Placed ss k layout.placed
      ∧ LaidOut ss ss.length layout.labels)
    (FirstFault (placementFault? ss) k)

section LaysOut

variable {ss : List Statement} {k : Nat} {x : Except SourceError Layout}

/-- A statement that places nothing leaves the layout to the rest. -/
theorem LaysOut.skip (hno : placementFault? ss k = none) (hskip : ∀ code, ¬ PlacesAt ss k code)
    (h : LaysOut ss (k + 1) x) : LaysOut ss k x :=
  h.mono (fun _ hl => ⟨hl.1.later hno, .skip hskip hl.2.1, hl.2.2⟩) fun _ he => he.later hno

/-- An instruction is placed in front of the rest. -/
theorem LaysOut.place {code : Instruction} (hno : placementFault? ss k = none)
    (hcode : PlacesAt ss k code) (h : LaysOut ss (k + 1) x) :
    LaysOut ss k (x.map fun layout =>
      { layout with placed := (UInt8.ofNat (cursorAt ss k), code) :: layout.placed }) :=
  (h.mono (fun _ hl => hl) fun _ he => he.later hno).map
    fun _ hl => ⟨hl.1.later hno, .place hcode hl.2.1, hl.2.2⟩

/-- What is left of a program is the statement with the next index and the
rest. -/
theorem of_drop_eq_cons {s : Statement} {rest : List Statement} (h : ss.drop k = s :: rest) :
    k < ss.length ∧ ss[k]? = some s ∧ ss.drop (k + 1) = rest := by
  have hk : k < ss.length := by
    by_contra hge
    simp [List.drop_eq_nil_of_le (show ss.length ≤ k by omega)] at h
  rw [List.drop_eq_getElem_cons hk] at h
  injection h with hs htail
  exact ⟨hk, by rw [List.getElem?_eq_getElem hk, hs], htail⟩

end LaysOut

/-- **The layout pass.**  It ends with the first fault of a place, or it places
every instruction and gives every label its address. -/
theorem outcome_layout {ss : List Statement} {k : Nat} (hk : k ≤ ss.length) {labels : LabelTable}
    (h : LaidOut ss k labels) :
    LaysOut ss k (Layout.ofStatements (cursorAt ss k) labels (ss.drop k)) := by
  -- on the statements that are left; cursor and labels are those in front of them
  generalize hrest : ss.drop k = rest
  induction rest generalizing k labels with
  | nil =>
    obtain rfl : k = ss.length := Nat.le_antisymm hk (List.drop_eq_nil_iff.1 hrest)
    refine ⟨fun i hi => ?_, .done, h⟩
    simp [placementFault?, List.getElem?_eq_none hi]
  | cons s rest ih =>
    obtain ⟨hk, hs, htail⟩ := of_drop_eq_cons hrest
    have hnext : s.advance (cursorAt ss k) = cursorAt ss (k + 1) := (cursorAt_succ hs).symm
    cases s with
    | label name span =>
      have hskip : ∀ code, ¬ PlacesAt ss k code := by
        intro code hcode
        simp [PlacesAt, hs] at hcode
      have hdeclare := h.outcome_declare hs
      simp only [Layout.ofStatements, hnext]
      cases hnew : labels.declare name (UInt8.ofNat (cursorAt ss k)) span with
      | error e => exact .here (hdeclare.of_error hnew)
      | ok labels' =>
        obtain ⟨hno, hlaid⟩ := hdeclare.of_ok hnew
        exact (ih hk hlaid htail).skip hno hskip
    | instruction code =>
      have hdecl : ∀ name, ¬ DeclaresAt ss k name := by
        intro name hname
        obtain ⟨span, hname⟩ := hname
        simp [hs] at hname
      simp only [Layout.ofStatements, hnext]
      split
      · next horg =>
        have hno : placementFault? ss k = none := by simp [placementFault?, hs, horg]
        have hskip : ∀ code, ¬ PlacesAt ss k code := by
          intro code' hcode
          simp_all [PlacesAt]
        have hlaid := h.keep (fun _ => rfl) hdecl (cursorAt_succ_lt (h.cursor_lt hk) hno)
        exact (ih hk hlaid htail).skip hno hskip
      · next horg =>
        have hplaces : PlacesAt ss k code := ⟨hs, horg⟩
        -- what the pass checks of the rest is that it is empty
        have hover : (cursorAt ss (k + 1) > memorySize
            ∨ cursorAt ss (k + 1) = memorySize ∧ rest ≠ []) ↔ Overruns ss k code := by
          rw [cursorAt_succ_of_placesAt hplaces, Overruns, ← htail, Ne, List.drop_eq_nil_iff]
          omega
        by_cases hfault : Overruns ss k code
        · rw [if_pos (hover.2 hfault)]
          exact .here (by simp [placementFault?, hs, horg, hfault])
        · rw [if_neg fun hcheck => hfault (hover.1 hcheck)]
          have hno : placementFault? ss k = none := by simp [placementFault?, hs, hfault]
          have hlaid := h.keep (labels.address?_referenceAll code.references) hdecl
            (cursorAt_succ_lt (h.cursor_lt hk) hno)
          exact (ih hk hlaid htail).place hno hplaces

end EightBit
