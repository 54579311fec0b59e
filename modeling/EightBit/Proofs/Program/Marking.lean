/-
  EightBit.Proofs.Program.Marking
  ───────────────────────────────
  **PLACES LEAD BACK TO THE SOURCE.**

  A span is two byte offsets, and most pairs of numbers are no place in a source:
  an offset may lie inside a character, behind the end, or in front of the other.
  A span marks a part of a source when it stands for it: the source is what comes
  before, the part, and what comes after, and the span has their widths.  Whatever
  is asked of such a span has an answer.  Tokens mark their spellings, and from one
  token to a later one everything in between is marked, too.

  Main results:
    • `Span.Marks.within` — a span that marks a part is a place in the source;
    • `Span.Marks.join`   — two parts in order are the ends of a part;
    • `located_lex`        — tokens mark their spellings, in order;
    • `points_lex`        — so does the fault that stops them.
-/
import EightBit.Proofs.Program.LabelNames

namespace EightBit

/-! ## §1. Parts of a source. -/

namespace Span

/-- **The span stands for the part** of the source, which begins neither with a blank
nor with a comment, or is at the end. -/
def Marks (s : Span) (source part : Text) : Prop :=
  ∃ before after, source = before ++ (part ++ after)
    ∧ s = ⟨before.width, before.width + part.width⟩
    ∧ (part ++ after = [] ∨ BeginsItem (part ++ after))

/-- **A place in the source**: its ends are in order, not behind the end of the
source, and not inside a character. -/
structure Within (s : Span) (source : Text) : Prop where
  ordered : s.start ≤ s.stop
  bounded : s.stop ≤ source.width
  start_boundary : (source.splitAt? s.start).isSome = true
  stop_boundary : (source.splitAt? s.stop).isSome = true

/-- A place has a line and a column. -/
theorem Within.isSome_position? {s : Span} {source : Text} (h : s.Within source) :
    (s.position? source).isSome = true := by
  have hmin : min s.start source.width = s.start :=
    Nat.min_eq_left (Nat.le_trans h.ordered h.bounded)
  rw [position?, hmin, Option.isSome_map]
  exact h.start_boundary

namespace Marks

variable {s t : Span} {source part part' : Text}

theorem slice_eq (h : s.Marks source part) : s.slice source = part := by
  obtain ⟨before, after, rfl, rfl, -⟩ := h
  exact slice_append before part after

theorem within (h : s.Marks source part) : s.Within source := by
  obtain ⟨before, after, rfl, rfl, -⟩ := h
  have hcut := Text.splitAt?_append before (part ++ after)
  have hcut' := Text.splitAt?_append (before ++ part) after
  rw [List.append_assoc, Text.width_append] at hcut'
  refine ⟨Nat.le_add_right _ _, ?_, ?_, ?_⟩
  · simp only [Text.width_append]
    omega
  · rw [hcut]
    rfl
  · rw [hcut']
    rfl

/-- The end of the source is a place, with nothing there. -/
theorem end_of_source (source : Text) : Marks ⟨source.width, source.width⟩ source [] :=
  ⟨source, [], by simp, rfl, .inl rfl⟩

/-- **Two parts in order** are the ends of a part. -/
theorem join (hs : s.Marks source part) (ht : t.Marks source part') (hle : s.stop ≤ t.start) :
    ∃ gap, (s.join t).Marks source (part ++ (gap ++ part')) := by
  obtain ⟨before, after, hsource, rfl, hitem⟩ := hs
  obtain ⟨before', after', rfl, rfl, -⟩ := ht
  -- what comes before the second part begins with what comes up to the end of the first
  have hsplit : (before ++ part) ++ after = before' ++ (part' ++ after') := by
    rw [hsource, List.append_assoc]
  obtain ⟨gap, rfl⟩ := Text.exists_eq_append_of_width_le hsplit (by
    rw [Text.width_append]
    exact hle)
  have hafter : after = gap ++ (part' ++ after') :=
    List.append_cancel_left (hsplit.trans (List.append_assoc ..))
  refine ⟨gap, before, after', by simp, ?_, ?_⟩
  · simp only [Span.join, Text.width_append, Span.mk.injEq]
    omega
  · rw [hafter] at hitem
    simpa only [List.append_assoc] using hitem

end Marks

end Span

/-! ## §2. What errors say of their places. -/

/-- The part of the source declares the label: it goes from the name to the colon. -/
def Declares (name part : Text) : Prop := name <+: part.upper ∧ part.getLast? = some ':'

/-- What the cause says of the part of the source that it is about. -/
def SourceError.Cause.Shows (part : Text) : SourceError.Cause → Prop
  | .unexpectedCharacter c => part = [c]
  | .invalidLabel name | .unknownLabel name | .jumpDistance _ name => part.upper = name
  | .duplicateLabel name => Declares name part
  | _ => True

/-- **The error is about a part of the source**, and says so. -/
def SourceError.Points (source : Text) (e : SourceError) : Prop :=
  ∃ part, e.span.Marks source part ∧ e.cause.Shows part

theorem Faulty.shows {cause : SourceError.Cause} {blamed rest : Text}
    (h : Faulty cause blamed rest) : cause.Shows blamed := by
  cases h with
  | address | string => trivial
  | character => exact rfl

theorem points_missingEnd (source : Text) : (missingEnd source.width).Points source :=
  ⟨[], .end_of_source source, trivial⟩

/-! ## §3. Tokens. -/

/-- The token marks its spelling. -/
def Token.Marked (source : Text) (t : Token) : Prop :=
  ∃ spelling rest, t.span.Marks source spelling ∧ Spelling t.kind t.text spelling rest

/-- **Tokens in place**: they mark their spellings, and stand in order. -/
structure Located (source : Text) (ts : List Token) : Prop where
  marked : ∀ t ∈ ts, t.Marked source
  ordered : ts.Pairwise fun t u => t.span.stop ≤ u.span.start

section Tokens

variable {source : Text} {t : Token} {ts ts' : List Token}

theorem Located.sublist (h : Located source ts) (hsub : ts'.Sublist ts) : Located source ts' where
  marked u hu := h.marked u (hsub.subset hu)
  ordered := h.ordered.sublist hsub

namespace Token.Marked

/-- A word is its spelling in upper case. -/
theorem word (h : t.Marked source) (hword : t.isWord = true) :
    ∃ part, t.span.Marks source part ∧ part.upper = t.text := by
  obtain ⟨spelling, rest, hmarks, hspelling⟩ := h
  exact ⟨spelling, hmarks, (hspelling.of_isWord hword).2.2.symm⟩

theorem colon (h : t.Marked source) (hcolon : t.kind = .colon) :
    t.span.Marks source [':'] := by
  obtain ⟨spelling, rest, hmarks, hspelling⟩ := h
  rw [hcolon] at hspelling
  generalize t.text = text at hspelling
  cases hspelling with
  | colon => exact hmarks
  | word _ _ _ hkind => cases hkind

/-- An error about a token is about its spelling. -/
theorem points (h : t.Marked source) {cause : SourceError.Cause}
    (hcause : ∀ part, cause.Shows part) : SourceError.Points source ⟨cause, t.span⟩ := by
  obtain ⟨spelling, -, hmarks, -⟩ := h
  exact ⟨spelling, hmarks, hcause spelling⟩

end Token.Marked

/-- **The tokens of a source are in place.** -/
theorem located_lex (source : Text) : Located source (lex source).tokens where
  marked := by
    intro t ht
    obtain ⟨before, spelling, rest, hsource, -, hspan, hspelling⟩ :=
      (tiled_lexFrom 0 source).spelled ht
    rw [Nat.zero_add] at hspan
    exact ⟨spelling, rest, ⟨before, rest, hsource, hspan, .inr hspelling.beginsItem⟩, hspelling⟩
  ordered := by
    have hordered : (lex source).spans.Pairwise fun s t => s.stop ≤ t.start :=
      (tiling_lex source).ordered
    exact List.pairwise_map.1 (List.pairwise_append.1 hordered).1

/-- **The fault that stops them** is about what is to blame. -/
theorem points_lex {e : SourceError} (h : (lex source).failure = some e) : e.Points source := by
  have htiled : Tiled 0 source ((lex source).tokens ++ []) (some e) := by
    rw [List.append_nil, ← h]
    exact tiled_lexFrom 0 source
  obtain ⟨front, rest, rfl, hwidth, -, hrest⟩ := htiled.drop
  rw [← hwidth, Nat.zero_add] at hrest
  obtain ⟨gap, blamed, rest, rfl, -, hfaulty, hstart, hstop⟩ := Tiled.fault_iff.1 hrest
  refine ⟨blamed, ⟨front ++ gap, rest, by simp, ?_, .inr hfaulty.beginsItem⟩, hfaulty.shows⟩
  obtain ⟨cause, start, stop⟩ := e
  simp only at hstart hstop
  rw [hstop, hstart, Text.width_append]

end Tokens

end EightBit
