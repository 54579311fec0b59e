/-
  EightBit.Proofs.Source.Lines
  ────────────────────────────
  **WHICH LINE A PLACE IS ON.**

  Places are counted in newlines and bytes, and lines are shown without their line
  ends.  The two agree: behind as many newlines as stand in front of a place comes
  the line of that place, which begins with what stands in front of it since the
  last newline.  Only a carriage return at the end of the line may be missing.

  Main results:
    • `Span.position?_append` — a place has the position behind what is in front
                              of it;
    • `lineStart_count`     — a place is its column behind the beginning of its line;
    • `getElem?_lines`      — the line of a place, by the number of newlines in
                              front of it;
    • `head?_lines`         — what is shown of a line;
    • `getD_getElem?_lines` — the two together.
-/
import EightBit.Proofs.Source.Spelling
import EightBit.Text.Lines

namespace EightBit

/-! ## §1. Positions. -/

namespace Position

/-- What is left behind the last newline of a text. -/
theorem lastLine_cases (t : Text) : ('\n' ∉ t ∧ lastLine t = t)
    ∨ ∃ front, t = front ++ '\n' :: lastLine t ∧ '\n' ∉ lastLine t := by
  have hline : '\n' ∉ lastLine t := by
    rw [lastLine, List.mem_reverse]
    exact newline_not_mem_restOfLine t.reverse
  have hsplit : t = (t.reverse.dropWhile (· ≠ '\n')).reverse ++ lastLine t := by
    rw [lastLine, ← List.reverse_append, List.takeWhile_append_dropWhile, List.reverse_reverse]
  cases hback : t.reverse.dropWhile (· ≠ '\n') with
  | nil =>
    rw [hback] at hsplit
    rw [List.reverse_nil, List.nil_append] at hsplit
    exact .inl ⟨hsplit ▸ hline, hsplit.symm⟩
  | cons c back =>
    have hc : c = '\n' := by simpa using head?_dropWhile_eq_false (congrArg List.head? hback)
    rw [hback, hc, List.reverse_cons, List.append_assoc, List.singleton_append] at hsplit
    exact .inr ⟨back.reverse, hsplit, hline⟩

theorem lastLine_suffix (t : Text) : lastLine t <:+ t := by
  rcases lastLine_cases t with ⟨-, hall⟩ | ⟨front, hsplit, -⟩
  · exact ⟨[], (List.nil_append _).trans hall⟩
  · exact ⟨front ++ ['\n'], by rw [List.append_assoc]; exact hsplit.symm⟩

theorem newline_not_mem_lastLine (t : Text) : '\n' ∉ lastLine t := by
  rcases lastLine_cases t with ⟨hline, hall⟩ | ⟨front, -, hline⟩
  · rwa [hall]
  · exact hline

end Position

/-- A place has the position behind what is in front of it. -/
theorem Span.position?_append (before rest : Text) (stop : Nat) :
    (Span.mk before.width stop).position? (before ++ rest) = some (Position.after before) := by
  have hmin : min before.width (before ++ rest).width = before.width := by
    rw [Text.width_append]
    omega
  simp only [position?, hmin, Text.splitAt?_append, Option.map_some]

namespace Text

/-! ## §2. Where lines begin. -/

/-- The byte offset at which the line with this index begins. -/
def lineStart : Text → (index : Nat) → Nat
  | _, 0 => 0
  | [], _ + 1 => 0
  | c :: cs, index + 1 => c.utf8Size + lineStart cs (if c = '\n' then index else index + 1)

/-- Behind the last newline in front of a place its line begins. -/
theorem lineStart_append (front rest : Text) :
    lineStart (front ++ '\n' :: rest) (front.count '\n' + 1) = (front ++ ['\n']).width := by
  induction front with
  | nil => simp [lineStart]
  | cons c front ih =>
    rw [List.cons_append, lineStart, List.cons_append, width_cons, ← ih]
    by_cases hc : c = '\n'
    · rw [if_pos hc, hc, List.count_cons_self]
    · rw [if_neg hc, List.count_cons_of_ne hc]

/-- A place is its column behind the beginning of its line. -/
theorem lineStart_count (before rest : Text) :
    lineStart (before ++ rest) (before.count '\n') + (Position.lastLine before).width
      = before.width := by
  rcases Position.lastLine_cases before with ⟨hnone, hall⟩ | ⟨front, hsplit, hline⟩
  · rw [hall, List.count_eq_zero_of_not_mem hnone, lineStart, Nat.zero_add]
  · have hcount : before.count '\n' = front.count '\n' + 1 := by
      conv => lhs; rw [hsplit]
      rw [List.count_append, List.count_cons_self, List.count_eq_zero_of_not_mem hline]
    have hstart : lineStart (before ++ rest) (front.count '\n' + 1) = (front ++ ['\n']).width := by
      conv => lhs; rw [hsplit, List.append_assoc, List.cons_append]
      exact lineStart_append front _
    rw [hcount, hstart, ← width_append]
    conv => rhs; rw [hsplit]
    rw [List.append_assoc]
    rfl

/-! ## §3. Lines behind lines. -/

/-- The text without a carriage return at its end. -/
def chomp (t : Text) : Text := if t.getLast? = some '\r' then t.dropLast else t

theorem chomp_cons {c : Char} {t : Text} (h : t = [] → c ≠ '\r') : chomp (c :: t) = c :: chomp t := by
  cases t with
  | nil => simp [chomp, h rfl]
  | cons d t =>
    unfold chomp
    rw [List.getLast?_cons_cons, List.dropLast_cons_cons]
    split <;> rfl

theorem chomp_append {s t : Text} (h : t ≠ []) : chomp (s ++ t) = s ++ chomp t := by
  induction s with
  | nil => rfl
  | cons c s ih =>
    rw [List.cons_append, chomp_cons (fun hnil => absurd (List.append_eq_nil_iff.1 hnil).2 h), ih,
      List.cons_append]

/-- Up to a newline a text has its own lines, one more than newlines in front of
that one. -/
theorem lines_append_newline (t : Text) : ∃ ls : List Text, ls.length = t.count '\n' + 1
    ∧ ∀ rest, lines (t ++ '\n' :: rest) = ls ++ lines rest := by
  induction t with
  | nil => exact ⟨[[]], rfl, fun rest => by simp [lines]⟩
  | cons c t ih =>
    obtain ⟨ls, hlength, hls⟩ := ih
    -- the next character is the same whatever comes behind the newline
    have hnext : ∀ rest, (t ++ '\n' :: rest).head? = (t ++ ['\n']).head? := by
      intro rest
      cases t <;> rfl
    by_cases hline : c = '\n'
    · refine ⟨[] :: ls, by simp [hline, hlength], fun rest => ?_⟩
      rw [List.cons_append, lines, if_pos hline, hls, List.cons_append]
    · have hcount : (c :: t).count '\n' = t.count '\n' := List.count_cons_of_ne hline
      rw [hcount]
      by_cases hreturn : c = '\r' ∧ (t ++ ['\n']).head? = some '\n'
      · refine ⟨ls, hlength, fun rest => ?_⟩
        rw [List.cons_append, lines, if_neg hline, hnext, if_pos hreturn, hls]
      · obtain ⟨l, ls, rfl⟩ := List.exists_cons_of_length_eq_add_one hlength
        refine ⟨(c :: l) :: ls, hlength, fun rest => ?_⟩
        rw [List.cons_append, lines, if_neg hline, hnext, if_neg hreturn, hls, List.cons_append]
        rfl

/-- **The line of a place** is the first of those that begin with what stands in
front of the place since the last newline. -/
theorem getElem?_lines (before rest : Text) : (lines (before ++ rest))[before.count '\n']?
    = (lines (Position.lastLine before ++ rest)).head? := by
  rcases Position.lastLine_cases before with ⟨hnone, hall⟩ | ⟨front, hsplit, hline⟩
  · rw [hall, List.count_eq_zero_of_not_mem hnone, List.head?_eq_getElem?]
  · obtain ⟨ls, hlength, hls⟩ := lines_append_newline front
    have hcount : before.count '\n' = ls.length := by
      rw [hsplit, List.count_append, List.count_cons_self, List.count_eq_zero_of_not_mem hline,
        hlength]
    have hlines : lines (before ++ rest) = ls ++ lines (Position.lastLine before ++ rest) := by
      conv => lhs; rw [hsplit, List.append_assoc, List.cons_append, hls]
    rw [hlines, hcount, List.getElem?_append_right (Nat.le_refl _), Nat.sub_self,
      List.head?_eq_getElem?]

/-! ## §4. What is shown of a line. -/

/-- What is shown of the first line of a text: it goes to the first newline, and loses
a carriage return in front of it; without a newline it is the text. -/
def visible (t : Text) : Text := if '\n' ∈ t then chomp (restOfLine t) else t

theorem visible_of_mem {t : Text} (h : '\n' ∈ t) : visible t = chomp (restOfLine t) := if_pos h

theorem visible_of_not_mem {t : Text} (h : '\n' ∉ t) : visible t = t := if_neg h

/-- **The first line** is what is shown of it. -/
theorem head?_lines (t : Text) : (lines t).head? = if t = [] then none else some (visible t) := by
  induction t with
  | nil => rfl
  | cons c t ih =>
    rw [lines, if_neg (List.cons_ne_nil c t)]
    by_cases hline : c = '\n'
    · subst hline
      simp [visible, restOfLine, chomp]
    · rw [if_neg hline]
      by_cases hreturn : c = '\r' ∧ t.head? = some '\n'
      · obtain ⟨rfl, hhead⟩ := hreturn
        obtain ⟨t, rfl⟩ := List.head?_eq_some_iff.1 hhead
        simp [lines, visible, restOfLine, chomp]
      · have hcons : visible (c :: t) = c :: visible t := by
          by_cases hnewline : '\n' ∈ t
          · rw [visible_of_mem hnewline, visible_of_mem (List.mem_cons_of_mem c hnewline),
              restOfLine_cons hline]
            -- a carriage return stays, because what follows it is no newline
            refine chomp_cons fun hnil hc => hreturn ⟨hc, ?_⟩
            cases t with
            | nil => exact absurd hnewline (by simp)
            | cons d t =>
              by_cases hd : d = '\n'
              · rw [hd]
                rfl
              · rw [restOfLine_cons hd] at hnil
                exact absurd hnil (by simp)
          · have hnone : '\n' ∉ c :: t := by simp [hnewline, Ne.symm hline]
            rw [visible_of_not_mem hnewline, visible_of_not_mem hnone]
        rw [if_neg hreturn, hcons]
        cases t with
        | nil => rfl
        | cons d t =>
          rw [if_neg (List.cons_ne_nil d t)] at ih
          cases hls : lines (d :: t) with
          | nil => simp [hls] at ih
          | cons l ls =>
            rw [hls] at ih
            rw [← Option.some.inj ih]
            rfl

/-- A place where something stands is on a line that is shown. -/
theorem lt_length_lines (before : Text) (c : Char) (rest : Text) :
    before.count '\n' < (lines (before ++ c :: rest)).length := by
  have hsome : ((lines (before ++ c :: rest))[before.count '\n']?).isSome = true := by
    rw [getElem?_lines, head?_lines, if_neg (by simp)]
    rfl
  simpa using hsome

theorem restOfLine_append {line : Text} (h : '\n' ∉ line) (rest : Text) :
    restOfLine (line ++ rest) = line ++ restOfLine rest := by
  induction line with
  | nil => rfl
  | cons c line ih =>
    rw [List.mem_cons, not_or] at h
    rw [List.cons_append, restOfLine_cons (Ne.symm h.1), ih h.2, List.cons_append]

/-- What stands in front on the line is shown as it is, if the line goes on. -/
theorem visible_append {line rest : Text} (h : '\n' ∉ line) (hrest : rest.head? ≠ some '\n') :
    visible (line ++ rest) = line ++ visible rest := by
  by_cases hnewline : '\n' ∈ rest
  · have hgoes : restOfLine rest ≠ [] := by
      cases rest with
      | nil => exact absurd hnewline (by simp)
      | cons c rest =>
        rw [restOfLine_cons fun hc => hrest (by rw [hc]; rfl)]
        simp
    rw [visible_of_mem hnewline, visible_of_mem (List.mem_append_right _ hnewline),
      restOfLine_append h, chomp_append hgoes]
  · rw [visible_of_not_mem hnewline, visible_of_not_mem (by simp [h, hnewline])]

/-- **The line of a place** begins with what stands in front of it since the last
newline. -/
theorem getD_getElem?_lines (before : Text) {rest : Text} (hrest : rest.head? ≠ some '\n') :
    (lines (before ++ rest))[before.count '\n']?.getD []
      = Position.lastLine before ++ visible rest := by
  rw [getElem?_lines, head?_lines,
    ← visible_append (Position.newline_not_mem_lastLine before) hrest]
  split
  · next hnil =>
    rw [hnil]
    rfl
  · rfl

end Text

end EightBit
