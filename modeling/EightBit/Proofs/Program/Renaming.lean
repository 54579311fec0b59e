/-
  EightBit.Proofs.Program.Renaming
  ────────────────────────────────
  **WHAT LABELS ARE CALLED, AND WHERE THINGS STAND.**

  Assembly looks names up and hands them on, and it never looks at a place in
  the source.  So statements that are the same up to their places, with their
  labels called otherwise, have the same program, with its labels called so.
  All that is asked of the new names is that different labels do not get one.

  Main results:
    • `Entries.alter_carried`        — a map under other keys changes as the map does;
    • `Layout.Renames.of_statements` — so does the layout;
    • `assembleStatements_renames`   — and the program.
-/
import EightBit.Program.Assembly
import EightBit.Proofs.Sequence
import Mathlib.Data.Set.Function

namespace EightBit

/-! ## §1. Maps under other keys. -/

namespace Entries

variable {κ κ' ν ν' : Type} [DecidableEq κ] [DecidableEq κ'] {f : κ → κ'} {R : ν → ν' → Prop}
  {k : κ} {es : List (κ × ν)} {es' : List (κ' × ν')}

/-- The entries in the same order, under other keys, with related values. -/
def Carried (f : κ → κ') (R : ν → ν' → Prop) (es : List (κ × ν)) (es' : List (κ' × ν')) : Prop :=
  List.Forall₂ (fun e e' => e'.1 = f e.1 ∧ R e.2 e'.2) es es'

/-- What is found at a key is found at the other. -/
theorem get?_carried (h : Carried f R es es') (hk : ∀ e ∈ es, f e.1 = f k → e.1 = k) :
    Option.Rel R (get? k es) (get? (f k) es') := by
  induction h with
  | nil => exact .none
  | @cons e e' es es' he _ ih =>
    obtain ⟨key, value⟩ := e
    obtain ⟨key', value'⟩ := e'
    obtain ⟨rfl, hvalue⟩ := he
    have ih := ih fun e he => hk e (List.mem_cons_of_mem _ he)
    by_cases hkey : key = k
    · simp only [get?, hkey, if_true]
      exact .some hvalue
    · have hkey' : ¬ f key = f k := fun heq => hkey (hk _ List.mem_cons_self heq)
      simp only [get?, hkey, hkey', if_false]
      exact ih

/-- A change at a key is that at the other. -/
theorem alter_carried {g : Option ν → ν} {g' : Option ν' → ν'} (h : Carried f R es es')
    (hk : ∀ e ∈ es, f e.1 = f k → e.1 = k)
    (hg : ∀ v v', Option.Rel R v v' → R (g v) (g' v')) :
    Carried f R (alter k g es) (alter (f k) g' es') := by
  induction h with
  | nil => exact .cons ⟨rfl, hg _ _ .none⟩ .nil
  | @cons e e' es es' he hes ih =>
    obtain ⟨key, value⟩ := e
    obtain ⟨key', value'⟩ := e'
    obtain ⟨rfl, hvalue⟩ := he
    have ih := ih fun e he => hk e (List.mem_cons_of_mem _ he)
    by_cases hkey : key = k
    · subst hkey
      simp only [alter, if_true]
      exact .cons ⟨rfl, hg _ _ (.some hvalue)⟩ hes
    · have hkey' : ¬ f key = f k := fun heq => hkey (hk _ List.mem_cons_self heq)
      simp only [alter, hkey, hkey', if_false]
      exact .cons ⟨rfl, hvalue⟩ ih

end Entries

/-! ## §2. Other names and other places. -/

variable {N : Set Text} {f : Text → Text}

/-- The same value; a label, which is one of `N`, is called otherwise. -/
inductive Operand.Value.Renames (N : Set Text) (f : Text → Text) :
    Operand.Value → Operand.Value → Prop where
  | label {name : Text} {distance : Option Byte} : name ∈ N →
    Renames N f (.label name distance) (.label (f name) distance)
  | other {v : Operand.Value} : v.kind ≠ .label → Renames N f v v

/-- The same operand, wherever it stands. -/
def Operand.Renames (N : Set Text) (f : Text → Text) (o o' : Operand) : Prop :=
  Operand.Value.Renames N f o.value o'.value

/-- The same instruction, wherever it stands. -/
structure Instruction.Renames (N : Set Text) (f : Text → Text) (i i' : Instruction) : Prop where
  mnemonic : i'.mnemonic = i.mnemonic
  opcode : i'.opcode = i.opcode
  operands : List.Forall₂ (Operand.Renames N f) i.operands i'.operands

/-- **The same statement**, wherever it stands, with its labels called otherwise. -/
inductive Statement.Renames (N : Set Text) (f : Text → Text) : Statement → Statement → Prop where
  | label {name : Text} {span span' : Span} : name ∈ N →
    Renames N f (.label name span) (.label (f name) span')
  | instruction {i i' : Instruction} : i.Renames N f i' →
    Renames N f (.instruction i) (.instruction i')

/-- The same label, wherever it is declared and used. -/
structure LabelEntry.Agrees (e e' : LabelEntry) : Prop where
  address : e'.address = e.address
  declared : e'.declared.isSome = e.declared.isSome
  references : e'.references.length = e.references.length

/-- The same labels in the same order, called otherwise. -/
structure LabelTable.Renames (N : Set Text) (f : Text → Text) (t t' : LabelTable) : Prop where
  known : ∀ e ∈ t.entries, e.1 ∈ N
  entries : Entries.Carried f LabelEntry.Agrees t.entries t'.entries

/-- The same layout, with its labels called otherwise. -/
structure Layout.Renames (N : Set Text) (f : Text → Text) (l l' : Layout) : Prop where
  labels : l.labels.Renames N f l'.labels
  placed : Entries.Carried id (Instruction.Renames N f) l.placed l'.placed

/-- **The same program**, with its labels called otherwise. -/
structure Assembled.Renames (N : Set Text) (f : Text → Text) (p p' : Assembled) : Prop where
  image : p'.image = p.image
  instructions :
    Entries.Carried id (Instruction.Renames N f) p.instructions.entries p'.instructions.entries
  labels : p.labels.Renames N f p'.labels

/-- The cause with its label called otherwise. -/
def SourceError.Cause.rename (f : Text → Text) : SourceError.Cause → SourceError.Cause
  | .duplicateLabel name => .duplicateLabel (f name)
  | .unknownLabel name => .unknownLabel (f name)
  | .jumpDistance distance name => .jumpDistance distance (f name)
  | cause => cause

/-- The same error, wherever it is, with its label called otherwise. -/
def SourceError.Renames (f : Text → Text) (e e' : SourceError) : Prop :=
  e'.cause = e.cause.rename f

theorem Operand.Value.Renames.kind_eq {v v' : Operand.Value} (h : Renames N f v v') :
    v'.kind = v.kind := by
  cases h <;> rfl

theorem Operand.Value.Renames.width_eq {v v' : Operand.Value} (h : Renames N f v v') :
    v'.width = v.width := by
  cases h <;> rfl

theorem Instruction.Renames.size_eq {i i' : Instruction} (h : i.Renames N f i') :
    i'.size = i.size := by
  have hwidths : i'.operands.map (fun o => o.value.width)
      = i.operands.map (fun o => o.value.width) :=
    map_eq_of_forall₂ h.operands fun _ _ ho => Operand.Value.Renames.width_eq ho
  rw [size, size, h.mnemonic, h.opcode, hwidths]

theorem Instruction.Renames.origin?_eq {i i' : Instruction} (h : i.Renames N f i') :
    i'.origin? = i.origin? := by
  have hall := h.operands
  unfold origin?
  generalize i.operands = os, i'.operands = os' at hall
  cases hall with
  | nil => rfl
  | @cons o o' _ _ ho _ =>
    obtain ⟨v, span⟩ := o
    obtain ⟨v', span'⟩ := o'
    -- only a label is called otherwise, and no label is an origin
    cases ho with
    | label => rfl
    | other => cases v <;> rfl

theorem Statement.Renames.advance_eq {s s' : Statement} (h : s.Renames N f s') (cursor : Nat) :
    s'.advance cursor = s.advance cursor := by
  cases h with
  | label => rfl
  | instruction hi => simp only [advance, hi.mnemonic, hi.origin?_eq, hi.size_eq]

theorem Statement.Renames.isEnd_eq {s s' : Statement} (h : s.Renames N f s') :
    s'.isEnd = s.isEnd := by
  cases h with
  | label => rfl
  | instruction hi => simp only [isEnd, hi.mnemonic]

theorem Instruction.Renames.references {i i' : Instruction} (h : i.Renames N f i') :
    List.Forall₂ (fun use use' => use.1 ∈ N ∧ use'.1 = f use.1) i.references i'.references := by
  have hall := h.operands
  unfold Instruction.references
  generalize i.operands = os, i'.operands = os' at hall
  induction hall with
  | nil => exact .nil
  | @cons o o' _ _ ho _ ih =>
    obtain ⟨v, span⟩ := o
    obtain ⟨v', span'⟩ := o'
    cases ho with
    | label hname => exact .cons ⟨hname, rfl⟩ ih
    | other hkind =>
      cases v with
      | label => exact absurd rfl hkind
      | _ => exact ih

/-! ## §3. The table of labels. -/

theorem LabelEntry.Agrees.address?_eq {e e' : LabelEntry} (h : e.Agrees e') :
    e'.address? = e.address? := by
  have hdeclared := h.declared
  unfold address?
  rw [h.address]
  cases hd : e.declared <;> cases hd' : e'.declared <;> simp_all

/-- What is known of a label, if anything. -/
theorem LabelEntry.Agrees.getD {e e' : Option LabelEntry} (h : Option.Rel Agrees e e') :
    (e.getD .unknown).Agrees (e'.getD .unknown) := by
  cases h with
  | none => exact ⟨rfl, rfl, rfl⟩
  | some h => exact h

namespace LabelTable.Renames

variable {t t' : LabelTable} {name : Text} {span span' : Span}

theorem empty : Renames N f .empty .empty where
  known := fun _ he => absurd he (by simp [OrderedMap.empty])
  entries := .nil

/-- Different labels have different names. -/
theorem separates (h : t.Renames N f t') (hf : N.InjOn f) (hname : name ∈ N) :
    ∀ e ∈ t.entries, f e.1 = f name → e.1 = name :=
  fun e he heq => hf (h.known e he) hname heq

theorem address?_eq (h : t.Renames N f t') (hf : N.InjOn f) (hname : name ∈ N) :
    t'.address? (f name) = t.address? name := by
  have hget := Entries.get?_carried h.entries (h.separates hf hname)
  unfold address? OrderedMap.get?
  generalize Entries.get? name t.entries = entry, Entries.get? (f name) t'.entries = entry' at hget
  cases hget with
  | none => rfl
  | some he => exact he.address?_eq

theorem alter {g g' : Option LabelEntry → LabelEntry} (h : t.Renames N f t') (hf : N.InjOn f)
    (hname : name ∈ N) (hg : ∀ e e', Option.Rel LabelEntry.Agrees e e' → (g e).Agrees (g' e')) :
    Renames N f (OrderedMap.alter t name g) (OrderedMap.alter t' (f name) g') where
  known := by
    intro e he
    have hkey : e.1 ∈ (OrderedMap.alter t name g).keys := List.mem_map_of_mem he
    rw [OrderedMap.keys_alter] at hkey
    have hold : ∀ key ∈ t.keys, key ∈ N := by
      intro key hkey
      obtain ⟨old, hold, rfl⟩ := List.mem_map.1 hkey
      exact h.known old hold
    split at hkey
    · exact hold _ hkey
    · rcases List.mem_append.1 hkey with hkey | hkey
      · exact hold _ hkey
      · rw [List.mem_singleton.1 hkey]
        exact hname
  entries := Entries.alter_carried h.entries (h.separates hf hname) hg

theorem declare (h : t.Renames N f t') (hf : N.InjOn f) (hname : name ∈ N) (address : Byte)
    (span span' : Span) :
    Parallel (LabelTable.Renames N f) (SourceError.Renames f) (t.declare name address span)
      (t'.declare (f name) address span') := by
  unfold LabelTable.declare
  rw [h.address?_eq hf hname]
  by_cases hdeclared : (t.address? name).isSome = true
  · rw [if_pos hdeclared, if_pos hdeclared]
    rfl
  · rw [if_neg hdeclared, if_neg hdeclared]
    exact h.alter hf hname fun e e' he => ⟨rfl, rfl, (LabelEntry.Agrees.getD he).references⟩

theorem reference (h : t.Renames N f t') (hf : N.InjOn f) (hname : name ∈ N) :
    LabelTable.Renames N f (t.reference name span) (t'.reference (f name) span') := by
  refine h.alter hf hname fun e e' he => ?_
  obtain ⟨haddress, hdeclared, hreferences⟩ := LabelEntry.Agrees.getD he
  exact ⟨haddress, hdeclared, by simp [hreferences]⟩

theorem referenceAll (h : t.Renames N f t') (hf : N.InjOn f) {uses uses' : List (Text × Span)}
    (huses : List.Forall₂ (fun use use' => use.1 ∈ N ∧ use'.1 = f use.1) uses uses') :
    LabelTable.Renames N f (t.referenceAll uses) (t'.referenceAll uses') := by
  induction huses generalizing t t' with
  | nil => exact h
  | @cons use use' _ _ huse _ ih =>
    obtain ⟨name', span'⟩ := use'
    obtain ⟨hname, rfl⟩ := huse
    exact ih (h.reference hf hname)

end LabelTable.Renames

/-! ## §4. The layout. -/

theorem Layout.Renames.of_statements (hf : N.InjOn f) {ss ss' : List Statement}
    (hss : List.Forall₂ (Statement.Renames N f) ss ss') {t t' : LabelTable}
    (ht : t.Renames N f t') (cursor : Nat) :
    Parallel (Layout.Renames N f) (SourceError.Renames f) (Layout.ofStatements cursor t ss)
      (Layout.ofStatements cursor t' ss') := by
  -- along the statements: cursors stay the same, and tables keep the same entries
  induction hss generalizing t t' cursor with
  | nil => exact ⟨ht, .nil⟩
  | @cons s s' ss ss' hs hss ih =>
    have hadvance := hs.advance_eq cursor
    have hlast : ss' ≠ [] ↔ ss ≠ [] := by cases hss <;> simp
    cases hs with
    | @label name span span' hname =>
      rcases (ht.declare hf hname (UInt8.ofNat cursor) span span').cases with
        ⟨e, e', he, he', herror⟩ | ⟨u, u', hu, hu', hrenames⟩
      · simp only [Layout.ofStatements, he, he']
        exact herror
      · simp only [Layout.ofStatements, hu, hu']
        exact ih hrenames _
    | @instruction i i' hi =>
      simp only [Layout.ofStatements, hadvance, hi.mnemonic, hlast]
      split
      · exact ih ht _
      split
      · rfl
      · refine (ih (ht.referenceAll hf hi.references) _).map fun l l' hl => ?_
        exact ⟨hl.labels, .cons ⟨rfl, hi⟩ hl.placed⟩

/-! ## §5. The bytes. -/

section Bytes

variable {t t' : LabelTable} {o o' : Operand} {i i' : Instruction}

theorem Operand.Renames.resolve (ht : t.Renames N f t') (hf : N.InjOn f) (h : o.Renames N f o')
    (address : Byte) : Parallel (Operand.Renames N f) (SourceError.Renames f)
      (o.resolve t address) (o'.resolve t' address) := by
  obtain ⟨v, span⟩ := o
  obtain ⟨v', span'⟩ := o'
  cases h with
  | @label name distance hname =>
    simp only [Operand.resolve, ht.address?_eq hf hname]
    cases t.address? name with
    | none => rfl
    | some target =>
      simp only
      split
      · exact .label hname
      · rfl
  | other hkind =>
    have hsame : Operand.Renames N f ⟨v, span⟩ ⟨v, span'⟩ := .other hkind
    cases v with
    | label => exact absurd rfl hkind
    | _ => exact hsame

theorem Instruction.Renames.resolve (ht : t.Renames N f t') (hf : N.InjOn f) (h : i.Renames N f i')
    (address : Byte) : Parallel (Instruction.Renames N f) (SourceError.Renames f)
      (i.resolve t address) (i'.resolve t' address) := by
  have hall := Parallel.mapM h.operands fun o o' ho => Operand.Renames.resolve ht hf ho address
  exact hall.map fun os os' hos => ⟨h.mnemonic, h.opcode, hos⟩

theorem Operand.Renames.encode (h : o.Renames N f o') :
    Parallel Eq (SourceError.Renames f) o.encode o'.encode := by
  obtain ⟨v, span⟩ := o
  obtain ⟨v', span'⟩ := o'
  cases h with
  | @label name distance => cases distance <;> rfl
  | other hkind =>
    cases v with
    | label => exact absurd rfl hkind
    | string text =>
      have hchar : ∀ c c' : Char, c = c' →
          Parallel Eq (SourceError.Renames f) (charByte span c) (charByte span' c') := by
        rintro c - rfl
        unfold charByte
        split <;> rfl
      have htext : List.Forall₂ Eq text text := List.forall₂_same.2 fun _ _ => rfl
      have hall := Parallel.mapM htext hchar
      exact hall.mono (fun bs bs' hbs => by rwa [List.forall₂_eq_eq_eq] at hbs) fun _ _ he => he
    | _ => rfl

theorem Instruction.Renames.encode (h : i.Renames N f i') :
    Parallel Eq (SourceError.Renames f) i.encode i'.encode := by
  have hall := Parallel.mapM h.operands fun o o' ho => Operand.Renames.encode ho
  refine hall.map fun bytes bytes' hbytes => ?_
  rw [List.forall₂_eq_eq_eq] at hbytes
  rw [hbytes, h.opcode]

end Bytes

namespace Assembled.Renames

variable {p p' : Assembled}

theorem place (h : p.Renames N f p') {i i' : Instruction} (hi : i.Renames N f i') (address : Byte)
    (bytes : List Byte) :
    Renames N f (p.place address i bytes) (p'.place address i' bytes) := by
  unfold Assembled.place
  split
  · exact h
  · exact
      { image := by rw [h.image]
        instructions := Entries.alter_carried h.instructions (fun _ _ heq => heq) fun _ _ _ => hi
        labels := h.labels }

theorem emit (h : p.Renames N f p') (hf : N.InjOn f) {placed placed' : List (Byte × Instruction)}
    (hplaced : Entries.Carried id (Instruction.Renames N f) placed placed') :
    Parallel (Assembled.Renames N f) (SourceError.Renames f) (p.emit placed) (p'.emit placed') := by
  induction hplaced generalizing p p' with
  | nil => exact h
  | @cons placed placed' _ _ hhead _ ih =>
    obtain ⟨address, i⟩ := placed
    obtain ⟨address', i'⟩ := placed'
    obtain ⟨haddress, hi⟩ := hhead
    obtain rfl : address' = address := haddress
    simp only [Assembled.emit]
    rcases (hi.resolve h.labels hf address').cases with ⟨e, e', he, he', herror⟩
      | ⟨j, j', hj, hj', hrenames⟩
    · rw [he, he']
      exact herror
    · rw [hj, hj']
      simp only
      rcases hrenames.encode.cases with ⟨e, e', he, he', herror⟩ | ⟨bytes, _, hbytes, hbytes', rfl⟩
      · rw [he, he']
        exact herror
      · rw [hbytes, hbytes']
        exact ih (h.place hrenames address' bytes)

end Assembled.Renames

/-- **What labels are called does not matter, nor where things stand.** -/
theorem assembleStatements_renames (hf : N.InjOn f) {ss ss' : List Statement}
    (hss : List.Forall₂ (Statement.Renames N f) ss ss') :
    Parallel (Assembled.Renames N f) (SourceError.Renames f) (assembleStatements ss)
      (assembleStatements ss') := by
  unfold assembleStatements
  rcases (Layout.Renames.of_statements hf hss .empty 0).cases with ⟨e, e', he, he', herror⟩
    | ⟨l, l', hl, hl', hlayout⟩
  · rw [he, he']
    exact herror
  · rw [hl, hl']
    have hempty : Assembled.Renames N f ⟨.empty, .empty, l.labels⟩ ⟨.empty, .empty, l'.labels⟩ :=
      ⟨rfl, .nil, hlayout.labels⟩
    exact hempty.emit hf hlayout.placed

end EightBit
