/-
  EightBit.Proofs.Program.LabelHistory
  ────────────────────────────────────
  **THE LABEL TABLE IS THE HISTORY OF ITS OPERATIONS.**

  Labels are declared and used in any order, and a label that is used gets an
  entry before it has an address.  What the table says of a label can still be
  read off the operations alone: its address is that of the first declaration,
  its references are its uses in order, and its place is where its name first
  came up.  An operation on a fresh table is a change of one entry, which the
  table and the history undergo alike.

  Main results:
    • `declareInPlace_eq`     — a declaration in place either succeeds, or it
                                leaves the table as it was;
    • `Operation.leave_eq`    — an operation changes the entry of its label only;
    • `entryOf_concat`        — one more operation, seen from the history;
    • `entry_after`           — the entries after any operations;
    • `history_of_operations` — the table after any operations is their history.
-/
import EightBit.Proofs.Program.Emission
import Mathlib.Data.List.Induction

namespace EightBit

/-! ## §1. Changes of a map, one after another. -/

namespace Entries

variable {κ ν : Type} [DecidableEq κ]

theorem alter_eq_self {k : κ} {v : ν} {f : Option ν → ν} {es : List (κ × ν)}
    (hget : get? k es = some v) (hf : f (some v) = v) : alter k f es = es := by
  induction es with
  | nil => exact absurd hget (by simp [get?])
  | cons e es ih =>
    obtain ⟨key, value⟩ := e
    by_cases h : key = k
    · have hv : value = v := by simpa [get?, h] using hget
      simp [alter, h, hv, hf]
    · have hrest : get? k es = some v := by simpa [get?, h] using hget
      simp [alter, h, ih hrest]

theorem alter_congr {k : κ} {f g : Option ν → ν} {es : List (κ × ν)}
    (h : f (get? k es) = g (get? k es)) : alter k f es = alter k g es := by
  induction es with
  | nil => simpa [alter, get?] using h
  | cons e es ih =>
    obtain ⟨key, value⟩ := e
    by_cases hkey : key = k
    · simpa [alter, get?, hkey] using h
    · simpa [alter, get?, hkey] using ih (by simpa [get?, hkey] using h)

theorem alter_alter (k : κ) (f g : Option ν → ν) (es : List (κ × ν)) :
    alter k g (alter k f es) = alter k (fun v => g (some (f v))) es := by
  induction es with
  | nil => simp [alter]
  | cons e es ih =>
    obtain ⟨key, value⟩ := e
    by_cases h : key = k <;> simp [alter, h, ih]

theorem eq_map_of_get? {f : κ → ν} {es : List (κ × ν)} (hnodup : (es.map Prod.fst).Nodup)
    (h : ∀ k ∈ es.map Prod.fst, get? k es = some (f k)) :
    es = (es.map Prod.fst).map fun k => (k, f k) := by
  induction es with
  | nil => rfl
  | cons e es ih =>
    obtain ⟨key, value⟩ := e
    rw [List.map_cons, List.nodup_cons] at hnodup
    have hvalue : value = f key := by simpa [get?] using h key (by simp)
    have hrest : ∀ k ∈ es.map Prod.fst, get? k es = some (f k) := by
      intro k hk
      have hne : key ≠ k := fun heq => hnodup.1 (heq ▸ hk)
      simpa [get?, hne] using h k (List.mem_cons_of_mem _ hk)
    rw [List.map_cons, List.map_cons, ← ih hnodup.2 hrest, hvalue]

end Entries

namespace OrderedMap

variable {κ ν : Type}

theorem ext_entries {m m' : OrderedMap κ ν} (h : m.entries = m'.entries) : m = m' := by
  cases m
  cases m'
  cases h
  rfl

variable [DecidableEq κ]

/-- A change that keeps the value keeps the map. -/
theorem alter_eq_self {m : OrderedMap κ ν} {k : κ} {v : ν} {f : Option ν → ν}
    (hget : m.get? k = some v) (hf : f (some v) = v) : m.alter k f = m :=
  ext_entries (Entries.alter_eq_self hget hf)

/-- Only the value at the key matters to a change. -/
theorem alter_congr {m : OrderedMap κ ν} {k : κ} {f g : Option ν → ν}
    (h : f (m.get? k) = g (m.get? k)) : m.alter k f = m.alter k g :=
  ext_entries (Entries.alter_congr h)

/-- Two changes at one key are one. -/
theorem alter_alter (m : OrderedMap κ ν) (k : κ) (f g : Option ν → ν) :
    (m.alter k f).alter k g = m.alter k fun v => g (some (f v)) :=
  ext_entries (Entries.alter_alter k f g m.entries)

/-- A map is its keys in order, each with its value. -/
theorem entries_eq_map {m : OrderedMap κ ν} {f : κ → ν}
    (h : ∀ k ∈ m.keys, m.get? k = some (f k)) : m.entries = m.keys.map fun k => (k, f k) :=
  Entries.eq_map_of_get? m.nodup h

end OrderedMap

namespace LabelTable

/-! ## §2. Operations on a table. -/

/-- A declaration carried out on the table in place: the label gets an entry if it
has none, the entry is looked at, and then it is written.  What is left is the
table and the error. -/
def declareInPlace (t : LabelTable) (name : Text) (address : Byte) (span : Span) :
    LabelTable × Option SourceError :=
  let t := t.alter name fun e => e.getD ⟨address, none, []⟩
  if ((t.get? name).bind LabelEntry.declared).isSome then
    (t, some ⟨.duplicateLabel name, span⟩)
  else
    (t.alter name fun e =>
      { e.getD .unknown with address := address, declared := some span }, none)

/-- What is asked of a table. -/
inductive Operation where
  | declare (name : Text) (address : Byte) (span : Span)
  | reference (name : Text) (span : Span)
  deriving DecidableEq, Repr

namespace Operation

def name : Operation → Text
  | declare name _ _ => name
  | reference name _ => name

/-- What the operation leaves of the table. -/
def leave (t : LabelTable) : Operation → LabelTable
  | declare name address span => (t.declareInPlace name address span).1
  | reference name span => t.reference name span

/-- The address and the range that the operation declares for the label. -/
def declaration? (label : Text) : Operation → Option (Byte × Span)
  | declare name address span => if name = label then some (address, span) else none
  | reference _ _ => none

/-- The range in which the operation uses the label. -/
def use? (label : Text) : Operation → Option Span
  | declare _ _ _ => none
  | reference name span => if name = label then some span else none

/-- What the operation makes of the entry of its label. -/
def enter (e : LabelEntry) : Operation → LabelEntry
  | declare _ address span =>
    if e.declared.isSome then e else { e with address := address, declared := some span }
  | reference _ span => { e with references := e.references ++ [span] }

end Operation

/-- The table after operations on a fresh one. -/
def after (ops : List Operation) : LabelTable := ops.foldl Operation.leave .empty

/-! ## §3. The history. -/

/-- The first declaration of the label, whatever comes before or after it. -/
def firstDeclaration? (ops : List Operation) (label : Text) : Option (Byte × Span) :=
  ops.findSome? (Operation.declaration? label)

/-- **What the operations say of a label**: the address and the range of its first
declaration, and the ranges of its uses in order. -/
def entryOf (ops : List Operation) (label : Text) : LabelEntry where
  address := ((firstDeclaration? ops label).map Prod.fst).getD 0
  declared := (firstDeclaration? ops label).map Prod.snd
  references := ops.filterMap (Operation.use? label)

/-- A declaration of the label succeeded. -/
def Declared (ops : List Operation) (label : Text) : Prop :=
  ∃ before address span rest t, ops = before ++ .declare label address span :: rest
    ∧ (after before).declare label address span = .ok t

/-- **The table is the history of the operations.** -/
structure History (ops : List Operation) (t : LabelTable) : Prop where
  /-- A declaration fails exactly if one of the label succeeded before. -/
  declare_eq_error_iff : ∀ label address span e, t.declare label address span = .error e ↔
    e = ⟨.duplicateLabel label, span⟩ ∧ Declared ops label
  /-- A declaration that fails leaves the table as it was. -/
  declareInPlace_of_error : ∀ label address span e, t.declare label address span = .error e →
    t.declareInPlace label address span = (t, some e)
  /-- A label has the address of its first declaration, and none before that. -/
  address?_eq : ∀ label, t.address? label = (firstDeclaration? ops label).map Prod.fst
  /-- A label has an entry if it came up, and the entry says what the operations say. -/
  get?_eq : ∀ label,
    t.get? label = if label ∈ ops.map Operation.name then some (entryOf ops label) else none
  /-- The labels stand once each, in the order in which they came up. -/
  entries_eq :
    t.entries = (ops.map Operation.name).eraseDups.map fun label => (label, entryOf ops label)

/-! ## §4. One operation. -/

/-- A declaration looks at the entry of its label only. -/
theorem declare_eq (t : LabelTable) (name : Text) (address : Byte) (span : Span) :
    t.declare name address span =
      if ((t.get? name).getD .unknown).declared.isSome then
        .error ⟨.duplicateLabel name, span⟩
      else
        .ok <| t.alter name fun e =>
          { e.getD .unknown with address := address, declared := some span } := by
  unfold declare address?
  cases t.get? name <;> simp [LabelEntry.address?, LabelEntry.unknown]

/-- **A declaration in place either succeeds, or it leaves the table as it was.** -/
theorem declareInPlace_eq (t : LabelTable) (name : Text) (address : Byte) (span : Span) :
    t.declareInPlace name address span =
      match t.declare name address span with
      | .ok t' => (t', none)
      | .error e => (t, some e) := by
  -- the address of a new entry is written over, so it does not matter
  have hreferences : ∀ e : Option LabelEntry,
      (e.getD ⟨address, none, []⟩).references = (e.getD .unknown).references := by
    intro e
    cases e <;> rfl
  rw [declare_eq]
  unfold declareInPlace
  simp only [OrderedMap.get?_alter, if_true, OrderedMap.alter_alter, Option.bind_some,
    Option.getD_some, hreferences]
  cases hget : t.get? name with
  | none => rfl
  | some e =>
    have hsame : (t.alter name fun e => e.getD ⟨address, none, []⟩) = t :=
      OrderedMap.alter_eq_self hget rfl
    by_cases hdeclared : e.declared.isSome <;> simp [hdeclared, hsame]

/-- **An operation changes the entry of its label only**, and a declaration that
fails changes not even that. -/
theorem Operation.leave_eq (t : LabelTable) (op : Operation) :
    op.leave t = t.alter op.name fun e => op.enter (e.getD .unknown) := by
  cases op with
  | reference name span => rfl
  | declare name address span =>
    simp only [leave, declareInPlace_eq, declare_eq]
    by_cases hdeclared : ((t.get? name).getD .unknown).declared.isSome
    · rw [if_pos hdeclared]
      cases hget : t.get? name with
      | none => exact absurd hdeclared (by simp [hget, LabelEntry.unknown])
      | some e =>
        rw [hget, Option.getD_some] at hdeclared
        exact (OrderedMap.alter_eq_self hget (by simp [enter, hdeclared])).symm
    · rw [if_neg hdeclared]
      exact OrderedMap.alter_congr (by simp [enter, hdeclared])

/-- One more operation changes what is known of its label. -/
theorem entryOf_concat (ops : List Operation) (op : Operation) (label : Text) :
    entryOf (ops ++ [op]) label
      = if label = op.name then op.enter (entryOf ops label) else entryOf ops label := by
  have hfirst : firstDeclaration? (ops ++ [op]) label
      = (firstDeclaration? ops label).or (op.declaration? label) := by
    simp [firstDeclaration?, List.findSome?_append]
  have huses : (ops ++ [op]).filterMap (Operation.use? label)
      = ops.filterMap (Operation.use? label) ++ (op.use? label).toList := by
    rw [List.filterMap_append]
    cases hop : op.use? label <;> simp [hop]
  simp only [entryOf, hfirst, huses]
  cases op with
  | reference name span =>
    by_cases hname : name = label
    · simp [Operation.name, Operation.declaration?, Operation.use?, Operation.enter, hname]
    · simp [Operation.name, Operation.declaration?, Operation.use?, hname, Ne.symm hname]
  | declare name address span =>
    by_cases hname : name = label
    · cases firstDeclaration? ops label <;>
        simp [Operation.name, Operation.declaration?, Operation.use?, Operation.enter, hname]
    · simp [Operation.name, Operation.declaration?, Operation.use?, hname, Ne.symm hname]

/-! ## §5. Any operations. -/

theorem after_concat (ops : List Operation) (op : Operation) :
    after (ops ++ [op]) = op.leave (after ops) := by
  simp [after, List.foldl_append]

/-- The labels in the order in which they came up. -/
theorem keys_after (ops : List Operation) :
    (after ops).keys = (ops.map Operation.name).eraseDups := by
  induction ops using List.reverseRecOn with
  | nil => rfl
  | append_singleton ops op ih =>
    rw [after_concat, Operation.leave_eq, OrderedMap.keys_alter_eq_eraseDups, ih,
      eraseDups_eraseDups_append, List.map_append, List.map_cons, List.map_nil]

/-- **What the table knows of a label is what the operations say of it.** -/
theorem entry_after (ops : List Operation) (label : Text) :
    ((after ops).get? label).getD .unknown = entryOf ops label := by
  induction ops using List.reverseRecOn with
  | nil => rfl
  | append_singleton ops op ih =>
    rw [after_concat, Operation.leave_eq, entryOf_concat, OrderedMap.get?_alter, ← ih]
    by_cases hlabel : label = op.name <;> simp [hlabel]

theorem get?_after (ops : List Operation) (label : Text) : (after ops).get? label
    = if label ∈ ops.map Operation.name then some (entryOf ops label) else none := by
  have hiff : label ∈ ops.map Operation.name ↔ ((after ops).get? label).isSome := by
    rw [← OrderedMap.mem_keys_iff, keys_after, List.mem_eraseDups]
  rw [← entry_after ops label]
  cases hget : (after ops).get? label <;> simp [hiff, hget]

theorem address?_after (ops : List Operation) (label : Text) :
    (after ops).address? label = (firstDeclaration? ops label).map Prod.fst := by
  have hentry : (after ops).address? label = (entryOf ops label).address? := by
    rw [← entry_after ops label]
    unfold address?
    cases (after ops).get? label <;> rfl
  rw [hentry]
  cases hfirst : firstDeclaration? ops label <;> simp [entryOf, LabelEntry.address?, hfirst]

/-- A declaration fails exactly if the operations declare its label. -/
theorem declare_after (ops : List Operation) (label : Text) (address : Byte) (span : Span)
    (e : SourceError) : (after ops).declare label address span = .error e ↔
      e = ⟨.duplicateLabel label, span⟩ ∧ (firstDeclaration? ops label).isSome := by
  rw [declare, address?_after, Option.isSome_map]
  by_cases hfirst : (firstDeclaration? ops label).isSome <;> simp [hfirst, eq_comm]

/-- The first declaration of a label succeeds. -/
theorem isSome_firstDeclaration?_iff (ops : List Operation) (label : Text) :
    (firstDeclaration? ops label).isSome ↔ Declared ops label := by
  constructor
  · intro h
    obtain ⟨d, hd⟩ := Option.isSome_iff_exists.1 h
    obtain ⟨before, op, rest, hops, hop, hbefore⟩ := List.findSome?_eq_some_iff.1 hd
    cases op with
    | reference name span => exact absurd hop (by simp [Operation.declaration?])
    | declare name address span =>
      have hname : name = label := by
        by_contra hne
        simp [Operation.declaration?, hne] at hop
      have hnone : firstDeclaration? before label = none :=
        List.findSome?_eq_none_iff.2 hbefore
      subst hname
      have hnone' : (after before).address? name = none := by rw [address?_after, hnone]; rfl
      exact ⟨before, address, span, rest, _, hops, by rw [declare, hnone']; rfl⟩
  · intro h
    obtain ⟨before, address, span, rest, t, hops, ht⟩ := h
    have hmem : Operation.declare label address span ∈ ops := by simp [hops]
    rw [firstDeclaration?, List.findSome?_isSome_iff]
    exact ⟨_, hmem, by simp [Operation.declaration?]⟩

/-- **The table after any operations is their history.** -/
theorem history_of_operations (ops : List Operation) : History ops (after ops) where
  declare_eq_error_iff label address span e := by
    rw [declare_after, isSome_firstDeclaration?_iff]
  declareInPlace_of_error label address span e h := by
    rw [declareInPlace_eq, h]
  address?_eq := address?_after ops
  get?_eq := get?_after ops
  entries_eq := by
    rw [OrderedMap.entries_eq_map (f := entryOf ops), keys_after]
    intro label hlabel
    rw [keys_after, List.mem_eraseDups] at hlabel
    rw [get?_after, if_pos hlabel]

/-- A use in front of the declaration is kept, and a second declaration is not seen. -/
example :
    (after [.reference "LOOP".toList ⟨10, 14⟩, .declare "LOOP".toList 0x05 ⟨0, 5⟩,
      .declare "LOOP".toList 0x09 ⟨20, 25⟩]).entries
    = [("LOOP".toList, ⟨0x05, some ⟨0, 5⟩, [⟨10, 14⟩]⟩)] := by decide

end LabelTable

end EightBit
