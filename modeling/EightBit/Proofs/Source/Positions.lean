/-
  EightBit.Proofs.Source.Positions
  ────────────────────────────────
  **A POSITION TELLS THE PLACE.**

  The line of a place counts the newlines in front of it, and the column the bytes
  since the last of them.  What stands in front of a later place goes on from what
  stands in front of an earlier one.  If a newline is added the line grows, and if none
  is, the line stays and the column grows; so positions are ordered as places are.

  Main results:
    • `Position.after_lt_after` — more text moves the position on;
    • `Position.tells_after`    — a place is found from its position;
    • `positions_in_order`      — positions are in the order of their places, and lead
                                  back to them.
-/
import EightBit.Proofs.Source.Lines
import EightBit.Proofs.Source.Tiling
import Mathlib.Data.Prod.Lex

namespace EightBit

namespace Position

/-! ## §1. The order of positions. -/

/-- Positions in the order of lines, and of columns on one line. -/
def key (p : Position) : Nat ×ₗ Nat := toLex (p.line, p.column)

theorem key_lt_key_iff {p q : Position} :
    p.key < q.key ↔ p.line < q.line ∨ p.line = q.line ∧ p.column < q.column :=
  Prod.Lex.toLex_lt_toLex

theorem lastLine_append {more : Text} (h : '\n' ∉ more) (t : Text) :
    lastLine (t ++ more) = lastLine t ++ more := by
  have hmore : ∀ c ∈ more.reverse, decide (c ≠ '\n') = true := by
    intro c hc
    have hne : c ≠ '\n' := fun heq => h (heq ▸ List.mem_reverse.1 hc)
    exact decide_eq_true hne
  rw [lastLine, lastLine, List.reverse_append, List.takeWhile_append_of_pos hmore,
    List.reverse_append, List.reverse_reverse]

/-- **More text moves the position on**: to a later line if it holds a newline, else
along the line. -/
theorem after_lt_after (t : Text) {more : Text} (hne : more ≠ []) :
    (after t).key < (after (t ++ more)).key := by
  rw [key_lt_key_iff]
  simp only [after, List.count_append]
  by_cases hline : '\n' ∈ more
  · have hcount : 0 < more.count '\n' := List.count_pos_iff.2 hline
    left
    omega
  · have hwidth := Text.width_pos hne
    have hcount : more.count '\n' = 0 := List.count_eq_zero_of_not_mem hline
    right
    rw [lastLine_append hline, Text.width_append]
    omega

/-! ## §2. From a position to its place. -/

/-- **The position tells the offset** in the source. -/
structure Tells (source : Text) (p : Position) (offset : Nat) : Prop where
  offset_eq : source.lineStart p.line + p.column = offset
  /-- The line begins behind the text up to and with as many newlines as its number says,
  and the column does not go past the end of the line. -/
  on_line : ∃ head line rest, source = head ++ (line ++ rest)
    ∧ head.width = source.lineStart p.line ∧ head.count '\n' = p.line
    ∧ (head = [] ∨ head.getLast? = some '\n') ∧ '\n' ∉ line ∧ EndsLine rest
    ∧ p.column ≤ line.width

/-- In front of the last line stand all the newlines. -/
theorem exists_head (t : Text) : ∃ head, t = head ++ lastLine t
    ∧ head.count '\n' = t.count '\n' ∧ (head = [] ∨ head.getLast? = some '\n') := by
  rcases lastLine_cases t with ⟨hnone, hall⟩ | ⟨front, hsplit, hline⟩
  · refine ⟨[], hall.symm, ?_, .inl rfl⟩
    rw [List.count_nil, List.count_eq_zero_of_not_mem hnone]
  · refine ⟨front ++ ['\n'], by rw [List.append_assoc]; exact hsplit, ?_, .inr (by simp)⟩
    conv => rhs; rw [hsplit]
    simp [List.count_eq_zero_of_not_mem hline]

/-- **A place is found from its position.** -/
theorem tells_after (before after' : Text) :
    (after before).Tells (before ++ after') before.width := by
  have hstart : Text.lineStart (before ++ after') (after before).line + (after before).column
      = before.width := Text.lineStart_count before after'
  refine ⟨hstart, ?_⟩
  obtain ⟨head, hsplit, hcount, hhead⟩ := exists_head before
  -- the line of the place goes on to the next newline
  obtain ⟨rest, hrest, hends⟩ := exists_endsLine after'
  refine ⟨head, lastLine before ++ restOfLine after', rest, ?_, ?_, hcount, hhead, ?_, hends, ?_⟩
  · conv => lhs; rw [hsplit, ← hrest]
    simp only [List.append_assoc]
  · have hwidth := congrArg Text.width hsplit
    rw [Text.width_append] at hwidth
    have hcolumn : (after before).column = (lastLine before).width := rfl
    omega
  · rw [List.mem_append, not_or]
    exact ⟨newline_not_mem_lastLine before, newline_not_mem_restOfLine after'⟩
  · rw [Text.width_append]
    exact Nat.le_add_right _ _

/-! ## §3. Positions in a source. -/

/-- **A later place has a later position**, because what stands in front of it goes on from
what stands in front of the earlier one. -/
theorem after_lt_of_width_lt {before rest before' rest' : Text}
    (h : before ++ rest = before' ++ rest') (hlt : before.width < before'.width) :
    (after before).key < (after before').key := by
  obtain ⟨more, rfl⟩ := Text.exists_eq_append_of_width_le h hlt.le
  refine after_lt_after before ?_
  rintro rfl
  rw [List.append_nil] at hlt
  exact Nat.lt_irrefl _ hlt

end Position

/-- A place in a source has the position behind what stands in front of it. -/
theorem Span.exists_position {source : Text} {s : Span}
    (h : (source.splitAt? s.start).isSome = true) : ∃ before rest, before ++ rest = source
      ∧ before.width = s.start ∧ s.position? source = some (Position.after before)
      ∧ (Position.after before).Tells source s.start := by
  obtain ⟨start, stop⟩ := s
  obtain ⟨⟨before, rest⟩, hcut⟩ := Option.isSome_iff_exists.1 h
  obtain ⟨rfl, rfl⟩ := Text.eq_of_splitAt? hcut
  exact ⟨before, rest, rfl, rfl, Span.position?_append before rest stop,
    Position.tells_after before rest⟩

/-- **Positions are faithful.**  Any two places in a source, between two characters or at
one of its ends, have positions.  These are in the order of the places, they are the same
only for the same place, and they lead back to the places. -/
theorem positions_in_order {source : Text} {s t : Span}
    (hs : (source.splitAt? s.start).isSome = true) (ht : (source.splitAt? t.start).isSome = true) :
    ∃ p q, s.position? source = some p ∧ t.position? source = some q
      ∧ (s.start < t.start ↔ p.key < q.key) ∧ (s.start = t.start ↔ p = q)
      ∧ p.Tells source s.start ∧ q.Tells source t.start := by
  obtain ⟨before, rest, hsource, hwidth, hp, htells⟩ := Span.exists_position hs
  obtain ⟨before', rest', hsource', hwidth', hq, htells'⟩ := Span.exists_position ht
  have hsplit : before ++ rest = before' ++ rest' := hsource.trans hsource'.symm
  have hsame : s.start = t.start ↔ Position.after before = Position.after before' := by
    refine ⟨fun h => ?_, fun h => ?_⟩
    · rw [Span.position?, h] at hp
      exact Option.some.inj (hp.symm.trans hq)
    · rw [← htells.offset_eq, h, htells'.offset_eq]
  refine ⟨_, _, hp, hq, ⟨fun hlt => ?_, fun hkey => ?_⟩, hsame, htells, htells'⟩
  · rw [← hwidth, ← hwidth'] at hlt
    exact Position.after_lt_of_width_lt hsplit hlt
  · by_contra hnot
    rcases Nat.eq_or_lt_of_le (Nat.le_of_not_lt hnot) with heq | hgt
    · rw [hsame.1 heq.symm] at hkey
      exact lt_irrefl _ hkey
    · rw [← hwidth, ← hwidth'] at hgt
      exact lt_asymm hkey (Position.after_lt_of_width_lt hsplit.symm hgt)

/-- A character of two bytes, an empty line, and a line that the source ends with. -/
def shortLines : Text := "\u00e9;\n\nend".toList

/-- In front of the first newline and behind it: the end of one line, and the beginning of
the next. -/
theorem positions_in_order_shortLines :
    (shortLines.splitAt? 3).isSome = true ∧ (shortLines.splitAt? 4).isSome = true
    ∧ Span.position? ⟨3, 3⟩ shortLines = some ⟨0, 3⟩
    ∧ Span.position? ⟨4, 4⟩ shortLines = some ⟨1, 0⟩
    ∧ (Position.mk 0 3).key < (Position.mk 1 0).key
    ∧ (Position.mk 0 3).Tells shortLines 3 ∧ (Position.mk 1 0).Tells shortLines 4 := by
  have hthree : (shortLines.splitAt? 3).isSome = true := by decide
  have hfour : (shortLines.splitAt? 4).isSome = true := by decide
  obtain ⟨p, q, hp, hq, horder, -, htells, htells'⟩ :=
    positions_in_order (s := ⟨3, 3⟩) (t := ⟨4, 4⟩) hthree hfour
  have hend : Span.position? ⟨3, 3⟩ shortLines = some ⟨0, 3⟩ := by decide
  have hstart : Span.position? ⟨4, 4⟩ shortLines = some ⟨1, 0⟩ := by decide
  obtain rfl : p = ⟨0, 3⟩ := Option.some.inj (hp.symm.trans hend)
  obtain rfl : q = ⟨1, 0⟩ := Option.some.inj (hq.symm.trans hstart)
  exact ⟨hthree, hfour, hp, hq, horder.1 (by decide), htells, htells'⟩

end EightBit
