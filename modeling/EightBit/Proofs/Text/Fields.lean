/-
  EightBit.Proofs.Text.Fields
  ───────────────────────────
  **PARTS OF A TEXT.**

  What is written side by side, with a separator in between, is found again when
  the text is cut at the separators, if no part has one.  Blanks behind the last
  part add fields, but no words.

  Main results:
    • `fields_joinWith`              — parts are found again;
    • `fields_flatten_lines`         — so are lines, each ended by a newline;
    • `words_joinWith_append_blanks` — and words in a column that is filled up.
-/
import EightBit.Text.Basic

namespace EightBit

/-! ## §1. Fields. -/

namespace Text

theorem fields_of_not_mem {c : Char} {part : Text} (h : c ∉ part) : fields c part = [part] := by
  induction part with
  | nil => rfl
  | cons d part ih =>
    rw [List.mem_cons, not_or] at h
    rw [fields, if_neg (Ne.symm h.1), ih h.2]

theorem fields_append {c : Char} {part : Text} (h : c ∉ part) (rest : Text) :
    fields c (part ++ c :: rest) = part :: fields c rest := by
  induction part with
  | nil => rw [List.nil_append, fields, if_pos rfl]
  | cons d part ih =>
    rw [List.mem_cons, not_or] at h
    rw [List.cons_append, fields, if_neg (Ne.symm h.1), ih h.2]

/-- Parts without the separator are found again. -/
theorem fields_joinWith {c : Char} {parts : List Text} (hne : parts ≠ [])
    (h : ∀ part ∈ parts, c ∉ part) : fields c (joinWith [c] parts) = parts := by
  -- the last part has no separator behind it
  induction parts with
  | nil => exact absurd rfl hne
  | cons part parts ih =>
    have hpart := h part List.mem_cons_self
    cases parts with
    | nil =>
      have hjoin : joinWith [c] [part] = part := by simp [joinWith]
      rw [hjoin, fields_of_not_mem hpart]
    | cons next parts =>
      have hjoin : joinWith [c] (part :: next :: parts)
          = part ++ c :: joinWith [c] (next :: parts) := by simp [joinWith]
      rw [hjoin, fields_append hpart,
        ih (by simp) fun part hmem => h part (List.mem_cons_of_mem _ hmem)]

theorem not_mem_of_mem_fields {c : Char} {t part : Text} (h : part ∈ fields c t) :
    c ∉ part := by
  induction t generalizing part with
  | nil =>
    obtain rfl := List.mem_singleton.1 h
    simp
  | cons d t ih =>
    rw [fields] at h
    split at h
    · rcases List.mem_cons.1 h with rfl | h
      · simp
      · exact ih h
    · next hd =>
      split at h
      · obtain rfl := List.mem_singleton.1 h
        simpa using Ne.symm hd
      · next first parts hfields =>
        rw [hfields] at ih
        rcases List.mem_cons.1 h with rfl | h
        · rw [List.mem_cons, not_or]
          exact ⟨Ne.symm hd, ih List.mem_cons_self⟩
        · exact ih (List.mem_cons_of_mem _ h)

/-- The lines of a text are found again; the last newline has nothing behind it. -/
theorem fields_flatten_lines {lines : List Text} (h : ∀ line ∈ lines, '\n' ∉ line) :
    fields '\n' (lines.map fun line => line ++ ['\n']).flatten = lines ++ [[]] := by
  induction lines with
  | nil => rfl
  | cons line lines ih =>
    have hrest := ih fun other hother => h other (List.mem_cons_of_mem _ hother)
    rw [List.map_cons, List.flatten_cons, List.append_assoc, List.singleton_append,
      fields_append (h line List.mem_cons_self), hrest]
    rfl

theorem not_mem_joinWith {c separator : Char} (hc : c ≠ separator) {parts : List Text}
    (h : ∀ part ∈ parts, c ∉ part) : c ∉ joinWith [separator] parts := by
  induction parts with
  | nil => simp [joinWith]
  | cons part parts ih =>
    have hpart := h part List.mem_cons_self
    have hrest := ih fun other hother => h other (List.mem_cons_of_mem _ hother)
    cases parts with
    | nil => simpa [joinWith] using hpart
    | cons next parts => simpa [joinWith, hpart, hc] using hrest

/-! ## §2. Words. -/

/-- What stands between blanks. -/
def words (t : Text) : List Text := (fields ' ' t).filter fun part => !part.isEmpty

theorem words_blanks (n : Nat) : words (List.replicate n ' ') = [] := by
  induction n with
  | zero => rfl
  | succ n ih => exact ih

theorem words_append_blanks {part : Text} (hne : part ≠ []) (h : ' ' ∉ part) (n : Nat) :
    words (part ++ List.replicate n ' ') = [part] := by
  cases n with
  | zero =>
    rw [List.replicate_zero, List.append_nil, words, fields_of_not_mem h]
    simp [hne]
  | succ n =>
    have hblanks := words_blanks n
    rw [words] at hblanks
    rw [List.replicate_succ, words, fields_append h, List.filter_cons_of_pos (by simp [hne]),
      hblanks]

/-- Words in a column that is filled up with blanks. -/
theorem words_joinWith_append_blanks {parts : List Text}
    (h : ∀ part ∈ parts, part ≠ [] ∧ ' ' ∉ part) (n : Nat) :
    words (joinWith [' '] parts ++ List.replicate n ' ') = parts := by
  induction parts with
  | nil => exact words_blanks n
  | cons part parts ih =>
    obtain ⟨hne, hpart⟩ := h part List.mem_cons_self
    have hrest := ih fun other hother => h other (List.mem_cons_of_mem _ hother)
    cases parts with
    | nil =>
      have hjoin : joinWith [' '] [part] = part := by simp [joinWith]
      rw [hjoin, words_append_blanks hne hpart]
    | cons next parts =>
      have hjoin : joinWith [' '] (part :: next :: parts)
          = part ++ ' ' :: joinWith [' '] (next :: parts) := by simp [joinWith]
      rw [words] at hrest
      rw [hjoin, List.append_assoc, List.cons_append, words, fields_append hpart,
        List.filter_cons_of_pos (by simp [hne]), hrest]

end Text

/-! ## §3. Reading part by part. -/

theorem mapM_map_eq_some {α β : Type} {f : α → β} {g : β → Option α} {l : List α}
    (h : ∀ a ∈ l, g (f a) = some a) : (l.map f).mapM g = some l := by
  induction l with
  | nil => rfl
  | cons a l ih =>
    have hrest := ih fun b hb => h b (List.mem_cons_of_mem _ hb)
    rw [List.map_cons, List.mapM_cons, h a List.mem_cons_self, hrest]
    rfl

end EightBit
