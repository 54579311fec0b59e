/-
  EightBit.Proofs.Program.Underline
  ─────────────────────────────────
  **WHAT THE CARETS OF A DIAGNOSTIC STAND UNDER.**

  A diagnostic shows the line on which an error starts, and under it blanks and
  carets.  The blanks are as many as bytes stand in front of the error on its line,
  and the carets as many as characters of the error stand on its first line.  Both
  are measured against the line as it is shown: its characters, each with the byte
  offset that it has in the source.

  Main results:
    • `Text.visible_part`      — what a part of a source covers of its first line;
    • `Diagnostic.underlines_iff` — when carets stand under a range;
    • `Diagnostic.exists_measured` — an error is shown with blanks and carets for it;
    • `underlined_of_assemble` — so is every error of a source, and when its carets
                                 stand under what is wrong.
-/
import EightBit.Proofs.Program.Places
import EightBit.Proofs.Source.Lines
import Mathlib.Data.Nat.Digits.Defs

namespace EightBit

/-! ## §1. Characters with their places. -/

namespace Text

/-- The characters of the text, which stands at the byte offset `start`, each with its
own offset. -/
def located : (start : Nat) → Text → List (Nat × Char)
  | _, [] => []
  | start, c :: cs => (start, c) :: located (start + c.utf8Size) cs

theorem located_append (start : Nat) (s t : Text) :
    located start (s ++ t) = located start s ++ located (start + s.width) t := by
  induction s generalizing start with
  | nil => rfl
  | cons c s ih => rw [List.cons_append, located, located, ih, width_cons, Nat.add_assoc]; rfl

theorem map_snd_located (start : Nat) (t : Text) : (located start t).map Prod.snd = t := by
  induction t generalizing start with
  | nil => rfl
  | cons c t ih => rw [located, List.map_cons, ih]

theorem length_located (start : Nat) (t : Text) : (located start t).length = t.length := by
  rw [← List.length_map, map_snd_located]

/-- The characters of a text stand between its ends. -/
theorem offset_of_mem_located {start : Nat} {t : Text} {x : Nat × Char}
    (h : x ∈ located start t) : start ≤ x.1 ∧ x.1 < start + t.width := by
  induction t generalizing start with
  | nil => exact absurd h (by simp [located])
  | cons c t ih =>
    have hpos := Char.utf8Size_pos c
    rw [width_cons]
    rcases List.mem_cons.1 h with rfl | h
    · simp only
      omega
    · have hrest := ih h
      omega

theorem length_le_width (t : Text) : t.length ≤ t.width := by
  induction t with
  | nil => exact Nat.le_refl 0
  | cons c t ih =>
    have hpos := Char.utf8Size_pos c
    rw [width_cons, List.length_cons]
    omega

/-- A text is as wide as long when every character takes one byte. -/
theorem width_eq_length_iff (t : Text) : t.width = t.length ↔ ∀ c ∈ t, c.utf8Size = 1 := by
  induction t with
  | nil => simp
  | cons c t ih =>
    have hpos := Char.utf8Size_pos c
    have hrest := length_le_width t
    rw [width_cons, List.length_cons, List.forall_mem_cons, ← ih]
    omega

theorem filter_located_eq_self {p : Nat → Bool} {start : Nat} {t : Text}
    (h : ∀ n, start ≤ n → n < start + t.width → p n = true) :
    (located start t).filter (fun x => p x.1) = located start t := by
  refine List.filter_eq_self.2 fun x hx => ?_
  obtain ⟨hstart, hstop⟩ := offset_of_mem_located hx
  exact h x.1 hstart hstop

theorem filter_located_eq_nil {p : Nat → Bool} {start : Nat} {t : Text}
    (h : ∀ n, start ≤ n → n < start + t.width → p n = false) :
    (located start t).filter (fun x => p x.1) = [] := by
  refine List.filter_eq_nil_iff.2 fun x hx => ?_
  obtain ⟨hstart, hstop⟩ := offset_of_mem_located hx
  rw [h x.1 hstart hstop]
  exact Bool.false_ne_true

/-- What is in front of an offset is the part that ends there. -/
theorem filter_inFront {start stop : Nat} {front : Text} (h : start + front.width = stop)
    (rest : Text) :
    (located start (front ++ rest)).filter (·.1 < stop) = located start front := by
  have hfront : (located start front).filter (·.1 < stop) = located start front :=
    filter_located_eq_self (p := (· < stop)) (by grind)
  have hrest : (located (start + front.width) rest).filter (·.1 < stop) = [] :=
    filter_located_eq_nil (p := (· < stop)) (by grind)
  rw [located_append, List.filter_append, hfront, hrest, List.append_nil]

/-- What is behind the beginning of a range and in front of its end is the part that
begins there, if this part goes to the end of the range or nothing follows it. -/
theorem filter_covered {start : Nat} {front middle back : Text} {s : Span}
    (hstart : start + front.width = s.start) (hle : s.start + middle.width ≤ s.stop)
    (hback : back = [] ∨ s.start + middle.width = s.stop) :
    (located start (front ++ (middle ++ back))).filter (fun x => s.start ≤ x.1 && x.1 < s.stop)
      = located s.start middle := by
  have hfront : (located start front).filter (fun x => s.start ≤ x.1 && x.1 < s.stop) = [] :=
    filter_located_eq_nil (p := fun n => s.start ≤ n && n < s.stop) (by grind)
  have hmiddle : (located s.start middle).filter (fun x => s.start ≤ x.1 && x.1 < s.stop)
      = located s.start middle :=
    filter_located_eq_self (p := fun n => s.start ≤ n && n < s.stop) (by grind)
  have hrest : (located (s.start + middle.width) back).filter
      (fun x => s.start ≤ x.1 && x.1 < s.stop) = [] := by
    rcases hback with rfl | hback
    · rfl
    · exact filter_located_eq_nil (p := fun n => s.start ≤ n && n < s.stop) (by grind)
  rw [located_append, located_append, hstart, List.filter_append, List.filter_append, hfront,
    hmiddle, hrest, List.nil_append, List.append_nil]

/-! ## §2. What is shown of an error. -/

/-- The part is on one line and goes up to the newline, so that it takes the carriage
return that is not shown. -/
def TakesReturn (part after : Text) : Prop :=
  '\n' ∉ part ∧ part.getLast? = some '\r' ∧ after.head? = some '\n'

instance (part after : Text) : Decidable (TakesReturn part after) :=
  inferInstanceAs (Decidable (_ ∧ _ ∧ _))

theorem prefix_chomp (t : Text) : chomp t <+: t := by
  unfold chomp
  split
  · exact List.dropLast_prefix t
  · exact List.prefix_rfl

/-- What is shown of a text is its beginning. -/
theorem prefix_visible (t : Text) : visible t <+: t := by
  unfold visible
  split
  · exact (prefix_chomp _).trans (List.takeWhile_prefix _)
  · exact List.prefix_rfl

theorem width_le_of_prefix {s t : Text} (h : s <+: t) : s.width ≤ t.width := by
  obtain ⟨rest, rfl⟩ := h
  rw [width_append]
  omega

/-- Behind a newline nothing is shown. -/
theorem visible_append_of_mem {part : Text} (h : '\n' ∈ part) (after : Text) :
    visible (part ++ after) = visible part := by
  have hline : restOfLine (part ++ after) = restOfLine part := by
    induction part with
    | nil => exact absurd h (by simp)
    | cons c part ih =>
      by_cases hc : c = '\n'
      · simp [restOfLine, hc]
      · have hrest : '\n' ∈ part := (List.mem_cons.1 h).resolve_left (Ne.symm hc)
        rw [List.cons_append, restOfLine_cons hc, restOfLine_cons hc, ih hrest]
  rw [visible_of_mem h, visible_of_mem (List.mem_append_left after h), hline]

/-- A line in front of its newline is shown without a carriage return. -/
theorem visible_append_newline {part : Text} (h : '\n' ∉ part) (after : Text) :
    visible (part ++ '\n' :: after) = chomp part := by
  rw [visible_of_mem (by simp), restOfLine_append h]
  simp [restOfLine]

/-- **The carets are counted** on what is shown of the part alone. -/
theorem caretCount_eq (part : Text) :
    Diagnostic.caretCount part = max (visible part).length 1 := by
  have hhead := head?_lines part
  unfold Diagnostic.caretCount
  split
  · next hlines =>
    have hnil : part = [] := by
      by_contra hne
      rw [hlines, if_neg hne] at hhead
      exact nomatch hhead
    rw [hnil]
    rfl
  · next line rest hlines =>
    have hne : part ≠ [] := by
      rintro rfl
      exact nomatch hlines
    rw [hlines, if_neg hne] at hhead
    rw [Option.some.inj hhead]

/-- **What a part covers** of the line: the line goes on with `middle`, which is all
that is shown of the part, and there is a caret for each of its characters, and one
more for a carriage return in front of the newline. -/
theorem visible_part {part after : Text}
    (hitem : part ++ after = [] ∨ BeginsItem (part ++ after)) :
    ∃ middle back, visible (part ++ after) = middle ++ back ∧ middle.width ≤ part.width
      ∧ (back = [] ∨ middle.width = part.width)
      ∧ Diagnostic.caretCount part
        = max middle.length 1 + if TakesReturn part after then 1 else 0 := by
  rw [caretCount_eq]
  by_cases hline : '\n' ∈ part
  · refine ⟨visible part, [], ?_, width_le_of_prefix (prefix_visible part), .inl rfl, ?_⟩
    · rw [visible_append_of_mem hline, List.append_nil]
    · rw [if_neg fun h => h.1 hline, Nat.add_zero]
  rw [visible_of_not_mem hline]
  by_cases hnewline : after.head? = some '\n'
  · obtain ⟨after, rfl⟩ := List.head?_eq_some_iff.1 hnewline
    rw [visible_append_newline hline]
    refine ⟨chomp part, [], (List.append_nil _).symm, width_le_of_prefix (prefix_chomp part),
      .inl rfl, ?_⟩
    by_cases hreturn : part.getLast? = some '\r'
    · obtain ⟨front, rfl⟩ := List.getLast?_eq_some_iff.1 hreturn
      -- an error does not begin with a carriage return, because this is a blank
      have hfront : front ≠ [] := by
        rintro rfl
        obtain ⟨c, cs, hc, -, hblank⟩ := hitem.resolve_left (by simp)
        obtain ⟨rfl, -⟩ := List.cons.inj hc
        exact absurd hblank (by decide)
      have hpos := List.length_pos_of_ne_nil hfront
      rw [if_pos ⟨hline, hreturn, rfl⟩, chomp, if_pos hreturn, List.dropLast_concat,
        List.length_append, List.length_singleton]
      omega
    · rw [if_neg fun h => hreturn h.2.1, chomp, if_neg hreturn, Nat.add_zero]
  · refine ⟨part, visible after, visible_append hline hnewline, Nat.le_refl _, .inr rfl, ?_⟩
    rw [if_neg fun h => hnewline h.2.2, Nat.add_zero]

end Text

/-! ## §3. The rows of a diagnostic. -/

namespace Diagnostic

/-- What is seen of the diagnostic. -/
def rows (d : Diagnostic) : List Text := d.lines.map Styled.plain

/-- What stands in front of the source line. -/
def lineMargin (d : Diagnostic) : Text :=
  " ".toList ++ ((Text.decimal (d.position.line + 1)).padLeft ' ' 4 ++ " |".toList) ++ [' ']

/-- What stands in front of the blanks and carets. -/
def caretMargin : Text := "      | ".toList

theorem caretMargin_eq : caretMargin = "      ".toList ++ "|".toList ++ [' '] := by decide

theorem row_line (d : Diagnostic) : d.rows[3]? = some (d.lineMargin ++ d.line) := by
  simp only [rows, lines, List.map_cons, List.getElem?_cons_succ, List.getElem?_cons_zero,
    Styled.plain_append, Styled.plain_paint, Styled.plain_ofText]
  rw [lineMargin, List.append_assoc _ [' ']]
  rfl

theorem row_carets (d : Diagnostic) : d.rows[4]? = some (caretMargin
    ++ (List.replicate d.position.column ' ' ++ List.replicate d.carets '^')) := by
  simp only [rows, lines, margin, List.map_cons, List.getElem?_cons_succ, List.getElem?_cons_zero,
    Styled.plain_append, Styled.plain_paint, Styled.plain_ofText]
  rw [caretMargin_eq, ← List.append_assoc, List.append_assoc _ [' ']]
  rfl

/-- Both margins are as long while the number of the line has at most four digits. -/
theorem length_lineMargin {d : Diagnostic} (h : d.position.line + 1 < 10000) :
    d.lineMargin.length = caretMargin.length := by
  have hdigits : (Text.decimal (d.position.line + 1)).length ≤ 4 := by
    apply Nat.toDigits_length
    · decide
    · simpa using h
  have hmargin : caretMargin.length = 8 := rfl
  have hfirst : " ".toList.length = 1 := rfl
  have hbar : " |".toList.length = 2 := rfl
  rw [lineMargin, Text.padLeft, List.length_append, List.length_append, List.length_append,
    List.length_append, List.length_replicate, List.length_singleton]
  omega

/-- The characters of the source line, each with its byte offset in the source. -/
def shownLine (source : Text) (d : Diagnostic) : List (Nat × Char) :=
  d.line.located (source.lineStart d.position.line)

/-- The characters of the line in front of the range. -/
def inFront (source : Text) (d : Diagnostic) (s : Span) : List (Nat × Char) :=
  (d.shownLine source).filter (·.1 < s.start)

/-- The characters of the line that the range covers. -/
def covered (source : Text) (d : Diagnostic) (s : Span) : List (Nat × Char) :=
  (d.shownLine source).filter fun x => s.start ≤ x.1 && x.1 < s.stop

/-- **The carets stand under the range**: there is a blank for each character in front
of it, and a caret for each character that it covers, or one if it covers none. -/
def Underlines (source : Text) (d : Diagnostic) (s : Span) : Prop :=
  d.rows[4]? = some (caretMargin ++ (List.replicate (d.inFront source s).length ' '
    ++ List.replicate (max (d.covered source s).length 1) '^'))

instance (source : Text) (d : Diagnostic) (s : Span) : Decidable (d.Underlines source s) :=
  inferInstanceAs (Decidable (_ = _))

/-- Blanks and carets are counted apart. -/
theorem underlines_iff {source : Text} {d : Diagnostic} {s : Span} : d.Underlines source s
    ↔ d.position.column = (d.inFront source s).length
      ∧ d.carets = max (d.covered source s).length 1 := by
  rw [Underlines, row_carets, Option.some_inj, List.append_cancel_left_eq]
  refine ⟨fun h => ⟨?_, ?_⟩, fun h => by rw [h.1, h.2]⟩
  · simpa [List.count_replicate] using congrArg (List.count ' ') h
  · simpa [List.count_replicate] using congrArg (List.count '^') h

end Diagnostic

/-! ## §4. The carets of an error. -/

namespace Diagnostic

/-- **Blanks and carets measured against the line**: a blank for each byte in front of the
range, and a caret for each character that the range covers, and one more for a carriage
return that it takes. -/
structure Measured (source : Text) (d : Diagnostic) (s : Span) : Prop where
  on_line : d.shownLine source <:+: source.located 0
  column_eq : d.position.column = Text.width ((d.inFront source s).map Prod.snd)
  carets_eq : d.carets = max (d.covered source s).length 1
    + if Text.TakesReturn (s.slice source) (between source s.stop source.width) then 1 else 0

/-- **What is under the source line.**  The characters of the line are those of the
source, and stand behind the margin of the last row but one; blanks and carets stand
behind the margin of the last row.  The carets stand under the error exactly if every
character in front of it takes one byte and it takes no carriage return. -/
structure Underlined (source : Text) (d : Diagnostic) (s : Span) : Prop where
  measured : d.Measured source s
  line_row : d.rows[3]? = some (d.lineMargin ++ d.line)
  caret_row : d.rows[4]? = some (caretMargin
    ++ (List.replicate d.position.column ' ' ++ List.replicate d.carets '^'))
  margins : d.position.line + 1 < 10000 → d.lineMargin.length = caretMargin.length
  underlines_iff : d.Underlines source s ↔ (∀ x ∈ d.inFront source s, x.2.utf8Size = 1)
    ∧ ¬ Text.TakesReturn (s.slice source) (between source s.stop source.width)

variable {source part : Text}

theorem Measured.underlined {d : Diagnostic} {s : Span} (h : d.Measured source s) :
    d.Underlined source s where
  measured := h
  line_row := row_line d
  caret_row := row_carets d
  margins := length_lineMargin
  underlines_iff := by
    have hwidth := Text.width_eq_length_iff ((d.inFront source s).map Prod.snd)
    rw [List.length_map, List.forall_mem_map] at hwidth
    rw [Diagnostic.underlines_iff, h.column_eq, h.carets_eq, hwidth]
    refine and_congr_right fun _ => ?_
    split
    · next hreturn => simp [hreturn]
    · next hreturn => simp [hreturn]

/-- The characters of a part of a source are characters of the source. -/
theorem located_infix (front middle back : Text) :
    middle.located front.width <:+: Text.located 0 (front ++ (middle ++ back)) := by
  rw [Text.located_append, Text.located_append, Nat.zero_add]
  exact ⟨Text.located 0 front, Text.located (front.width + middle.width) back,
    by rw [List.append_assoc]⟩

/-- **An error that marks a part** is shown with blanks and carets for it. -/
theorem exists_measured {e : SourceError} (h : e.span.Marks source part) (file : Text) :
    ∃ d, ofError? file source e = some d ∧ d.Measured source e.span := by
  obtain ⟨cause, span⟩ := e
  obtain ⟨before, after, rfl, rfl, hitem⟩ := h
  obtain ⟨middle, back, hvisible, hle, hback, hcarets⟩ := Text.visible_part hitem
  have hrest : (part ++ after).head? ≠ some '\n' := by
    rcases hitem with hnil | ⟨c, cs, hcons, -, hblank⟩
    · rw [hnil]
      exact nofun
    · rw [hcons]
      rintro ⟨⟩
      exact absurd hblank (by decide)
  -- the line is what is in front of the part, what is shown of it, and what is left
  let d : Diagnostic := ⟨cause.message, file, Position.after before,
    Position.lastLine before ++ (middle ++ back), caretCount part⟩
  have hstart : Text.lineStart (before ++ (part ++ after)) d.position.line
      + (Position.lastLine before).width = before.width := Text.lineStart_count before _
  have hfront := Text.filter_inFront hstart (middle ++ back)
  have hcovered := Text.filter_covered (s := ⟨before.width, before.width + part.width⟩) hstart
    (Nat.add_le_add_left hle _) (hback.imp_right (congrArg (before.width + ·)))
  refine ⟨d, ?_, ?_, ?_, ?_⟩
  · rw [ofError?, Span.position?_append, Option.map_some, Span.slice_append]
    show some (Diagnostic.mk _ _ _ ((Text.lines _)[before.count '\n']?.getD []) _) = some d
    rw [Text.getD_getElem?_lines before hrest, hvisible]
  · obtain ⟨front, hline⟩ := Position.lastLine_suffix before
    obtain ⟨hidden, hshown⟩ := Text.prefix_visible (part ++ after)
    have hwidth : Text.lineStart (before ++ (part ++ after)) d.position.line = Text.width front := by
      have hsum := congrArg Text.width hline
      rw [Text.width_append] at hsum
      omega
    have hsource : before ++ (part ++ after)
        = front ++ (Position.lastLine before ++ (middle ++ back) ++ hidden) := by
      rw [← hshown, hvisible]
      conv => lhs; rw [← hline]
      simp only [List.append_assoc]
    rw [shownLine, hwidth, hsource]
    exact located_infix front _ hidden
  · show _ = Text.width (((d.shownLine _).filter _).map Prod.snd)
    rw [shownLine, hfront, Text.map_snd_located]
    rfl
  · have hafter : between (before ++ (part ++ after)) (before.width + part.width)
        (before ++ (part ++ after)).width = after := by
      have hend := between_end (before ++ part) after
      rwa [List.append_assoc, Text.width_append before part] at hend
    rw [covered, shownLine, hcovered, Text.length_located, Span.slice_append, hafter]
    exact hcarets

end Diagnostic

/-- **Carets.**  Whatever is wrong with a source, the error can be shown, with the line on
which it starts and as many blanks as bytes in front of it: the carets stand under what is
wrong, unless a character in front of it takes more than one byte, or it takes the carriage
return at the end of the line. -/
theorem underlined_of_assemble {source : Text} {e : SourceError} (h : assemble source = .error e)
    (file : Text) :
    ∃ d, Diagnostic.ofError? file source e = some d ∧ d.Underlined source e.span := by
  obtain ⟨part, hmarks, -⟩ := (outcome_assemble source).of_error h
  obtain ⟨d, hd, hmeasured⟩ := Diagnostic.exists_measured hmarks file
  exact ⟨d, hd, hmeasured.underlined⟩

/-- An error behind a character of two bytes. -/
def accented : Text := "db \"\u00e9\" #\nend".toList

/-- A string that is not closed, in front of a carriage return and a newline. -/
def torn : Text := "db \"ab\r\nend".toList

/-- The caret stands one too far to the right behind the character of two bytes, and one
caret too many stands for the carriage return. -/
theorem underlined_of_assemble_accented_torn : ∃ d d',
    assemble accented = .error ⟨.unexpectedCharacter '#', ⟨8, 9⟩⟩
    ∧ Diagnostic.ofError? [] accented ⟨.unexpectedCharacter '#', ⟨8, 9⟩⟩ = some d
    ∧ d.Underlined accented ⟨8, 9⟩ ∧ ¬ d.Underlines accented ⟨8, 9⟩
    ∧ d.position.column = 8 ∧ (d.inFront accented ⟨8, 9⟩).length = 7
    ∧ assemble torn = .error ⟨.unterminatedString, ⟨3, 7⟩⟩
    ∧ Diagnostic.ofError? [] torn ⟨.unterminatedString, ⟨3, 7⟩⟩ = some d'
    ∧ d'.Underlined torn ⟨3, 7⟩ ∧ ¬ d'.Underlines torn ⟨3, 7⟩
    ∧ d'.carets = 4 ∧ (d'.covered torn ⟨3, 7⟩).length = 3 := by
  have haccented : (assemble accented).map (fun _ => ())
      = .error ⟨.unexpectedCharacter '#', ⟨8, 9⟩⟩ := by decide +kernel
  have htorn : (assemble torn).map (fun _ => ()) = .error ⟨.unterminatedString, ⟨3, 7⟩⟩ := by
    decide +kernel
  have he := map_eq_error_iff.1 haccented
  have he' := map_eq_error_iff.1 htorn
  obtain ⟨d, hd, hunder⟩ := underlined_of_assemble he []
  obtain ⟨d', hd', hunder'⟩ := underlined_of_assemble he' []
  have hblanks : (Diagnostic.ofError? [] accented ⟨.unexpectedCharacter '#', ⟨8, 9⟩⟩).map (fun d =>
      (d.position.column, (d.inFront accented ⟨8, 9⟩).length)) = some (8, 7) := by decide +kernel
  have hcarets : (Diagnostic.ofError? [] torn ⟨.unterminatedString, ⟨3, 7⟩⟩).map (fun d =>
      (d.carets, (d.covered torn ⟨3, 7⟩).length)) = some (4, 3) := by decide +kernel
  rw [hd, Option.map_some, Option.some_inj, Prod.mk.injEq] at hblanks
  rw [hd', Option.map_some, Option.some_inj, Prod.mk.injEq] at hcarets
  refine ⟨d, d', he, hd, hunder, ?_, hblanks.1, hblanks.2, he', hd', hunder', ?_, hcarets.1,
    hcarets.2⟩
  · rw [Diagnostic.underlines_iff, hblanks.1, hblanks.2]
    omega
  · rw [Diagnostic.underlines_iff, hcarets.1, hcarets.2]
    omega

end EightBit
