/-
  EightBit.OrderedMap
  ───────────────────
  **MAPS IN ORDER OF FIRST INSERTION.**

  Entries in the order in which their keys were first inserted; changing the
  value of a key leaves it in its place.

  Main results:
    • `get?_alter` — a change is seen at its own key and nowhere else;
    • `keys_alter` — a change keeps the keys in order, and a new key goes to
                     the end.
-/
namespace EightBit

/-! ## §1. Entry lists. -/

namespace Entries

variable {κ ν : Type} [DecidableEq κ]

/-- The value of the first entry with the key. -/
def get? (k : κ) : List (κ × ν) → Option ν
  | [] => none
  | (key, value) :: rest => if key = k then some value else get? k rest

/-- The entries with `f` of its value, or of none, at the key; a new key goes
to the end. -/
def alter (k : κ) (f : Option ν → ν) : List (κ × ν) → List (κ × ν)
  | [] => [(k, f none)]
  | (key, value) :: rest =>
    if key = k then (key, f (some value)) :: rest else (key, value) :: alter k f rest

theorem keys_alter (k : κ) (f : Option ν → ν) (es : List (κ × ν)) :
    (alter k f es).map Prod.fst
      = if k ∈ es.map Prod.fst then es.map Prod.fst else es.map Prod.fst ++ [k] := by
  induction es with
  | nil => simp [alter]
  | cons e rest ih =>
    obtain ⟨key, value⟩ := e
    by_cases h : key = k
    · simp [alter, h]
    · have h' : ¬ k = key := fun heq => h heq.symm
      simp only [alter, h, if_false, List.map_cons, ih, List.mem_cons, h', false_or]
      split <;> simp

theorem get?_alter (k j : κ) (f : Option ν → ν) (es : List (κ × ν)) :
    get? j (alter k f es) = if j = k then some (f (get? k es)) else get? j es := by
  induction es with
  | nil => by_cases h : k = j <;> simp [alter, get?, h, eq_comm]
  | cons e rest ih =>
    obtain ⟨key, value⟩ := e
    by_cases h : key = k
    · subst h
      by_cases hj : key = j
      · subst hj; simp [alter, get?]
      · have hj' : ¬ j = key := fun heq => hj heq.symm
        simp [alter, get?, hj, hj']
    · by_cases hj : key = j
      · subst hj; simp [alter, get?, h]
      · simp [alter, get?, h, hj, ih]

theorem nodup_alter {k : κ} {f : Option ν → ν} {es : List (κ × ν)}
    (h : (es.map Prod.fst).Nodup) : ((alter k f es).map Prod.fst).Nodup := by
  rw [keys_alter]
  split
  · exact h
  · next hk =>
    rw [List.nodup_append]
    refine ⟨h, by simp, ?_⟩
    intro a ha b hb
    rw [List.mem_singleton] at hb
    subst hb
    exact fun heq => hk (heq ▸ ha)

end Entries

/-! ## §2. The map. -/

/-- A map whose entries stand in the order of first insertion. -/
structure OrderedMap (κ ν : Type) where
  /-- Keys and values. -/
  entries : List (κ × ν)
  /-- No key occurs twice. -/
  nodup : (entries.map Prod.fst).Nodup

namespace OrderedMap

variable {κ ν : Type}

/-- The map without entries. -/
def empty : OrderedMap κ ν := ⟨[], List.nodup_nil⟩

def keys (m : OrderedMap κ ν) : List κ := m.entries.map Prod.fst

def size (m : OrderedMap κ ν) : Nat := m.entries.length

variable [DecidableEq κ]

/-- The value of the key. -/
def get? (m : OrderedMap κ ν) (k : κ) : Option ν := Entries.get? k m.entries

/-- The map with `f` of its value, or of none, at the key. -/
def alter (m : OrderedMap κ ν) (k : κ) (f : Option ν → ν) : OrderedMap κ ν :=
  ⟨Entries.alter k f m.entries, Entries.nodup_alter m.nodup⟩

/-- The map with the value at the key. -/
def insert (m : OrderedMap κ ν) (k : κ) (v : ν) : OrderedMap κ ν := m.alter k fun _ => v

/-! ## §3. Laws. -/

@[simp] theorem get?_empty (k : κ) : (empty : OrderedMap κ ν).get? k = none := rfl

/-- A change is seen at its own key and nowhere else. -/
theorem get?_alter (m : OrderedMap κ ν) (k j : κ) (f : Option ν → ν) :
    (m.alter k f).get? j = if j = k then some (f (m.get? k)) else m.get? j :=
  Entries.get?_alter k j f m.entries

/-- A change keeps the keys in order, and a new key goes to the end. -/
theorem keys_alter (m : OrderedMap κ ν) (k : κ) (f : Option ν → ν) :
    (m.alter k f).keys = if k ∈ m.keys then m.keys else m.keys ++ [k] :=
  Entries.keys_alter k f m.entries

/-- An inserted value is found at its key and nowhere else. -/
theorem get?_insert (m : OrderedMap κ ν) (k j : κ) (v : ν) :
    (m.insert k v).get? j = if j = k then some v else m.get? j :=
  m.get?_alter k j fun _ => v

/-- An insertion keeps the keys in order, and a new key goes to the end. -/
theorem keys_insert (m : OrderedMap κ ν) (k : κ) (v : ν) :
    (m.insert k v).keys = if k ∈ m.keys then m.keys else m.keys ++ [k] :=
  m.keys_alter k fun _ => v

end OrderedMap

end EightBit
