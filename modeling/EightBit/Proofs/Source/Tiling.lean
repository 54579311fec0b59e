/-
  EightBit.Proofs.Source.Tiling
  ─────────────────────────────
  **TOKENS TILE THEIR SOURCE.**

  A source is gap, token, gap, token and so on, up to a last gap or to a place
  where no token is spelled.  Such a tiling determines the tokens, and they are
  those that are read.  So nothing of a source is lost and nothing is made up,
  and each span leads back to the text that it stands for.

  Main results:
    • `lexFrom_eq_iff` — what is read is the one tiling of the text;
    • `Tiled.drop`     — behind some tokens stands the tiling of the rest;
    • `tiling_lex`     — spans, gaps, spellings and the fault of a source.
-/
import EightBit.Proofs.Source.Spelling

namespace EightBit

/-! ## §1. Tilings. -/

/-- **A tiling of the text**, which stands at the byte offset `start`: tokens
with gaps between them, and what stops them. -/
inductive Tiled : (start : Nat) → Text → List Token → Option SourceError → Prop where
  /-- Nothing but a gap is left. -/
  | tail {start : Nat} {t : Text} : Trailing t → Tiled start t [] none
  /-- No token is spelled behind a gap. -/
  | fault {start : Nat} {gap blamed rest : Text} {cause : SourceError.Cause} : Gap gap →
    Faulty cause blamed rest →
    Tiled start (gap ++ (blamed ++ rest)) []
      (some ⟨cause, ⟨start + gap.width, start + gap.width + blamed.width⟩⟩)
  /-- A token is spelled behind a gap, and the text behind it is tiled. -/
  | token {start : Nat} {gap spelling rest text : Text} {kind : Token.Kind} {ts : List Token}
    {failure : Option SourceError} : Gap gap → Spelling kind text spelling rest →
    Tiled (start + gap.width + spelling.width) rest ts failure →
    Tiled start (gap ++ (spelling ++ rest))
      (⟨kind, text, ⟨start + gap.width, start + gap.width + spelling.width⟩⟩ :: ts) failure

theorem Spelling.beginsItem {kind : Token.Kind} {text spelling rest : Text}
    (h : Spelling kind text spelling rest) : BeginsItem (spelling ++ rest) := by
  cases h with
  | colon => exact ⟨':', rest, rfl, by decide, by decide⟩
  | comma => exact ⟨',', rest, rfl, by decide, by decide⟩
  | address => exact ⟨'[', _, rfl, by decide, by decide⟩
  | string => exact ⟨'\x22', _, rfl, by decide, by decide⟩
  | word hne hchars =>
    obtain ⟨c, cs, rfl⟩ := List.exists_cons_of_ne_nil hne
    exact beginsItem_of_isWordChar (hchars c List.mem_cons_self) (cs ++ rest)

theorem Faulty.beginsItem {cause : SourceError.Cause} {blamed rest : Text}
    (h : Faulty cause blamed rest) : BeginsItem (blamed ++ rest) := by
  cases h with
  | address => exact ⟨'[', _, rfl, by decide, by decide⟩
  | string => exact ⟨'\x22', _, rfl, by decide, by decide⟩
  | @character c _ hmarks _ hblank =>
    refine ⟨c, rest, rfl, fun hc => hmarks ?_, hblank⟩
    simp [hc]

/-! ## §2. What is read tiles the text. -/

theorem lexFrom_of_trailing {t : Text} (start : Nat) (h : Trailing t) :
    lexFrom start t = ⟨[], none⟩ := by
  have hsplit := splitGap_of_trailing h
  rw [lexFrom]
  split
  · rfl
  · next hsplit' =>
    rw [hsplit] at hsplit'
    exact absurd hsplit' (by simp)

theorem lexFrom_of_item {gap : Text} {c : Char} {cs : Text} (start : Nat) (hgap : Gap gap)
    (hitem : BeginsItem (c :: cs)) :
    lexFrom start (gap ++ c :: cs) =
      match scan c cs with
      | .fault cause spelling =>
        ⟨[], some ⟨cause, ⟨start + gap.width, start + gap.width + spelling.width⟩⟩⟩
      | .token kind text spelling rest =>
        let later := lexFrom (start + gap.width + spelling.width) rest
        ⟨⟨kind, text, ⟨start + gap.width, start + gap.width + spelling.width⟩⟩ :: later.tokens,
          later.failure⟩ := by
  have hsplit := splitGap_of_gap hgap hitem
  rw [lexFrom]
  split
  · next hsplit' =>
    rw [hsplit] at hsplit'
    exact absurd hsplit' (by simp)
  · next gap' c' cs' hsplit' =>
    rw [hsplit] at hsplit'
    obtain ⟨rfl, heq⟩ := Prod.mk.inj hsplit'
    obtain ⟨rfl, rfl⟩ := List.cons.inj heq
    split <;> simp [*]

/-- A tiling of the text is what is read. -/
theorem Tiled.lexFrom_eq {start : Nat} {t : Text} {ts : List Token} {failure : Option SourceError}
    (h : Tiled start t ts failure) : lexFrom start t = ⟨ts, failure⟩ := by
  -- along the tiling, which has one rule for each way the reader goes
  induction h with
  | tail h => exact lexFrom_of_trailing _ h
  | @fault start gap blamed rest cause hgap hfaulty =>
    have hitem := hfaulty.beginsItem
    have ⟨c, cs, heq, _⟩ := hitem
    rw [heq] at hitem ⊢
    rw [lexFrom_of_item start hgap hitem, scan_of_faulty hfaulty heq]
  | @token start gap spelling rest text kind ts failure hgap hspelling _ ih =>
    have hitem := hspelling.beginsItem
    have ⟨c, cs, heq, _⟩ := hitem
    rw [heq] at hitem ⊢
    rw [lexFrom_of_item start hgap hitem, scan_of_spelling hspelling heq]
    simp only [ih]

/-- What is read is a tiling of the text. -/
theorem tiled_lexFrom (start : Nat) (t : Text) :
    Tiled start t (lexFrom start t).tokens (lexFrom start t).failure := by
  -- on the length: behind each token less is left
  induction hn : t.length using Nat.strongRecOn generalizing start t with
  | _ n ih =>
    rcases trailing_or_item t with htrail | ⟨gap, item, rfl, hgap, hitem⟩
    · rw [lexFrom_of_trailing start htrail]
      exact .tail htrail
    · have ⟨c, cs, heq, _⟩ := hitem
      subst heq
      rw [lexFrom_of_item start hgap hitem]
      cases hscan : scan c cs with
      | fault cause blamed =>
        obtain ⟨rest, heq, hfaulty⟩ := faulty_of_scan hitem hscan
        rw [← heq]
        exact .fault hgap hfaulty
      | token kind text spelling rest =>
        obtain ⟨heq, hspelling⟩ := scan_eq_token_iff.1 hscan
        have hlt := Scan.length_rest_lt (splitGap_of_gap hgap hitem) hscan
        rw [← heq]
        exact .token hgap hspelling (ih rest.length (hn ▸ hlt) _ rest rfl)

/-- **What is read is the one tiling of the text.** -/
theorem lexFrom_eq_iff {start : Nat} {t : Text} {l : Lexed} :
    lexFrom start t = l ↔ Tiled start t l.tokens l.failure := by
  constructor
  · intro h
    subst h
    exact tiled_lexFrom start t
  · exact fun h => h.lexFrom_eq

/-! ## §3. Behind some of the tokens. -/

/-- Where the last of the spans stops, and `start` if there is none. -/
def stopAfter : (start : Nat) → List Span → Nat
  | start, [] => start
  | _, s :: spans => stopAfter s.stop spans

/-- No word goes on from the first text into the second. -/
def Apart (before after : Text) : Prop :=
  ∀ c d, before.getLast? = some c → after.head? = some d →
    isWordChar c = false ∨ isWordChar d = false

theorem Spelling.apart {kind : Token.Kind} {text spelling rest : Text}
    (h : Spelling kind text spelling rest) : Apart spelling rest := by
  intro c d hc hd
  cases h with
  | colon =>
    obtain rfl : ':' = c := by simpa using hc
    exact .inl (by decide)
  | comma =>
    obtain rfl : ',' = c := by simpa using hc
    exact .inl (by decide)
  | address =>
    rw [List.getLast?_concat, Option.some.injEq] at hc
    subst hc
    exact .inl (by decide)
  | string =>
    rw [List.getLast?_concat, Option.some.injEq] at hc
    subst hc
    exact .inl (by decide)
  | word _ _ hends => exact .inr (hends d hd)

theorem Spelling.ne_nil {kind : Token.Kind} {text spelling rest : Text}
    (h : Spelling kind text spelling rest) : spelling ≠ [] := by
  cases h with
  | word hne => exact hne
  | _ => simp

theorem Apart.append {front before after : Text} (h : Apart before after) (hne : before ≠ []) :
    Apart (front ++ before) after := by
  intro c d hc hd
  rw [List.getLast?_append_of_ne_nil _ hne] at hc
  exact h c d hc hd

theorem Gap.isBlank_getLast? {gap : Text} (h : Gap gap) {c : Char} (hc : gap.getLast? = some c) :
    Text.isBlank c = true := by
  induction h with
  | nil => exact absurd hc (by simp)
  | @blank b gap hb _ ih =>
    cases hgap : gap.getLast? with
    | none =>
      rw [List.getLast?_eq_none_iff] at hgap
      subst hgap
      obtain rfl : b = c := by simpa using hc
      exact hb
    | some d =>
      rw [List.getLast?_cons, hgap] at hc
      exact ih (by rw [hgap]; simpa using hc)
  | @comment body gap _ _ ih =>
    rw [List.getLast?_cons, List.getLast?_append, List.getLast?_cons] at hc
    cases hgap : gap.getLast? with
    | none =>
      rw [hgap] at hc
      obtain rfl : '\n' = c := by simpa using hc
      decide
    | some d =>
      rw [hgap] at hc
      exact ih (by rw [hgap]; simpa using hc)

/-- **Behind some of the tokens** stands the tiling of the rest. -/
theorem Tiled.drop {start : Nat} {t : Text} {ts₁ ts₂ : List Token} {failure : Option SourceError}
    (h : Tiled start t (ts₁ ++ ts₂) failure) : ∃ front rest, t = front ++ rest
      ∧ start + front.width = stopAfter start (ts₁.map Token.span) ∧ Apart front rest
      ∧ Tiled (stopAfter start (ts₁.map Token.span)) rest ts₂ failure := by
  -- on the tokens in front: each takes its gap and its spelling with it
  induction ts₁ generalizing start t with
  | nil => exact ⟨[], t, rfl, rfl, fun c d hc => absurd hc (by simp), h⟩
  | cons tok ts₁ ih =>
    cases h with
    | @token _ gap spelling rest text kind _ _ hgap hspelling hrest =>
      obtain ⟨front, rest', rfl, hwidth, hapart, htiled⟩ := ih hrest
      refine ⟨gap ++ spelling ++ front, rest', by simp, ?_, ?_, htiled⟩
      · rw [List.map_cons, stopAfter, ← hwidth, Text.width_append, Text.width_append]
        omega
      · cases front with
        -- no text behind the last of these tokens: it is this one that ends there
        | nil =>
          rw [List.append_nil]
          exact hspelling.apart.append hspelling.ne_nil
        | cons c front => exact hapart.append (by simp)

/-! ## §4. Spans and slices. -/

theorem Span.slice_append (before middle after : Text) :
    (Span.mk before.width (before.width + middle.width)).slice (before ++ (middle ++ after))
      = middle := by
  have hwidth : (before ++ (middle ++ after)).width
      = before.width + (middle.width + after.width) := by simp
  have hstart : min before.width (before ++ (middle ++ after)).width = before.width := by omega
  have hstop : min (before.width + middle.width) (before ++ (middle ++ after)).width
      = before.width + middle.width := by omega
  simp only [slice, hstart, hstop, Text.splitAt?_append, Nat.add_sub_cancel_left]
  rw [if_neg (by omega)]

/-- The spans of the tokens, and of the fault if there is one. -/
def Lexed.spans (l : Lexed) : List Span :=
  l.tokens.map Token.span ++ (l.failure.map SourceError.span).toList

/-- The part of the source between two byte offsets. -/
def between (source : Text) (start stop : Nat) : Text := (Span.mk start stop).slice source

theorem Text.width_pos {t : Text} (h : t ≠ []) : 0 < t.width := by
  obtain ⟨c, cs, rfl⟩ := List.exists_cons_of_ne_nil h
  have := Char.utf8Size_pos c
  rw [Text.width_cons]
  omega

/-- When one beginning of a text is not wider than another, this goes on from it. -/
theorem Text.exists_eq_append_of_width_le {s t rest rest' : Text} (h : s ++ rest = t ++ rest')
    (hle : s.width ≤ t.width) : ∃ more, t = s ++ more := by
  rcases List.append_eq_append_iff.1 h with ⟨more, ht, -⟩ | ⟨more, hs, -⟩
  · exact ⟨more, ht⟩
  · -- nothing can be left over, because every character has a width
    have hnil : more = [] := by
      by_contra hne
      have hpos := Text.width_pos hne
      rw [hs, Text.width_append] at hle
      omega
    exact ⟨[], by rw [hs, hnil, List.append_nil, List.append_nil]⟩

theorem between_append (before middle after : Text) :
    between (before ++ (middle ++ after)) before.width (before.width + middle.width) = middle :=
  Span.slice_append before middle after

theorem between_end (before after : Text) :
    between (before ++ after) before.width (before ++ after).width = after := by
  have := between_append before after []
  rwa [List.append_nil, ← Text.width_append] at this

theorem Faulty.ne_nil {cause : SourceError.Cause} {blamed rest : Text}
    (h : Faulty cause blamed rest) : blamed ≠ [] := by
  cases h <;> simp

namespace Tiled

variable {start : Nat} {t : Text} {ts : List Token} {failure : Option SourceError}

/-- An item stands behind a gap, and this behind the item before it. -/
theorem item (h : Tiled start t ts failure) {before after : List Span} {s : Span}
    (hs : (Lexed.mk ts failure).spans = before ++ s :: after) : ∃ front gap part rest,
      t = front ++ (gap ++ (part ++ rest)) ∧ start + front.width = stopAfter start before
        ∧ Gap gap ∧ part ≠ [] ∧ s.start = start + front.width + gap.width
        ∧ s.stop = s.start + part.width := by
  induction h generalizing before with
  | tail => exact absurd hs (by simp [Lexed.spans])
  | @fault start gap blamed rest cause hgap hfaulty =>
    have hsingle : before = [] ∧ s = ⟨start + gap.width, start + gap.width + blamed.width⟩ := by
      cases before with
      | nil => exact ⟨rfl, (List.cons.inj hs).1.symm⟩
      | cons b before => exact absurd hs (by simp [Lexed.spans])
    obtain ⟨rfl, rfl⟩ := hsingle
    exact ⟨[], gap, blamed, rest, rfl, rfl, hgap, hfaulty.ne_nil, rfl, rfl⟩
  | @token start gap spelling rest text kind ts failure hgap hspelling _ ih =>
    cases before with
    | nil =>
      obtain ⟨hspan, -⟩ := List.cons.inj hs
      subst hspan
      exact ⟨[], gap, spelling, rest, rfl, rfl, hgap, hspelling.ne_nil, rfl, rfl⟩
    | cons b before =>
      obtain ⟨rfl, hspans⟩ := List.cons.inj hs
      obtain ⟨front, gap', part, rest', rfl, hwidth, hgap', hne, hstart, hstop⟩ := ih hspans
      refine ⟨gap ++ (spelling ++ front), gap', part, rest', by simp, ?_, hgap', hne, ?_, hstop⟩
      · rw [stopAfter, ← hwidth, Text.width_append, Text.width_append]
        omega
      · rw [hstart, Text.width_append, Text.width_append]
        omega

theorem start_le (h : Tiled start t ts failure) : ∀ s ∈ (Lexed.mk ts failure).spans,
    start ≤ s.start := by
  intro s hs
  obtain ⟨before, after, hsplit⟩ := List.append_of_mem hs
  obtain ⟨front, gap, part, rest, -, -, -, -, hstart, -⟩ := h.item hsplit
  omega

theorem ordered (h : Tiled start t ts failure) :
    (Lexed.mk ts failure).spans.Pairwise fun s t => s.stop ≤ t.start := by
  induction h with
  | tail => exact List.Pairwise.nil
  | fault => exact List.pairwise_singleton _ _
  | token _ _ hrest ih => exact List.pairwise_cons.2 ⟨hrest.start_le, ih⟩

/-- A token is spelled where its span says, apart from what stands before it. -/
theorem spelled (h : Tiled start t ts failure) {tok : Token} (htok : tok ∈ ts) :
    ∃ before spelling rest, t = before ++ (spelling ++ rest) ∧ Apart before (spelling ++ rest)
      ∧ tok.span = ⟨start + before.width, start + before.width + spelling.width⟩
      ∧ Spelling tok.kind tok.text spelling rest := by
  obtain ⟨ts₁, ts₂, rfl⟩ := List.append_of_mem htok
  obtain ⟨front, t', rfl, hwidth, hapart, htiled⟩ := h.drop
  rw [← hwidth] at htiled
  cases htiled with
  | @token _ gap spelling rest text kind _ _ hgap hspelling =>
    refine ⟨front ++ gap, spelling, rest, by simp, ?_, ?_, hspelling⟩
    · cases gap with
      | nil => rwa [List.append_nil]
      | cons b gap =>
        -- a gap ends with a blank, which belongs to no word
        intro c d hc _
        rw [List.getLast?_append_of_ne_nil _ (by simp)] at hc
        left
        by_contra hword
        have hblank := isBlank_of_isWordChar (by simpa using hword)
        rw [hgap.isBlank_getLast? hc] at hblank
        exact absurd hblank (by simp)
    · simp only [Text.width_append, Nat.add_assoc]

theorem unique (h : Tiled start t ts failure) {ts' : List Token} {failure' : Option SourceError}
    (h' : Tiled start t ts' failure') : ts = ts' ∧ failure = failure' := by
  have heq := h.lexFrom_eq
  rw [h'.lexFrom_eq, Lexed.mk.injEq] at heq
  exact ⟨heq.1.symm, heq.2.symm⟩

theorem trailing (h : Tiled start t [] none) : Trailing t := by
  cases h with
  | tail h => exact h

/-- Where the tiling stops with a fault, and no token is left, none is spelled. -/
theorem fault_iff {e : SourceError} : Tiled start t [] (some e) ↔ ∃ gap blamed rest,
    t = gap ++ (blamed ++ rest) ∧ Gap gap ∧ Faulty e.cause blamed rest
      ∧ e.span.start = start + gap.width ∧ e.span.stop = e.span.start + blamed.width := by
  constructor
  · intro h
    cases h with
    | fault hgap hfaulty => exact ⟨_, _, _, rfl, hgap, hfaulty, rfl, rfl⟩
  · intro h
    obtain ⟨gap, blamed, rest, rfl, hgap, hfaulty, hstart, hstop⟩ := h
    obtain ⟨cause, from', to'⟩ := e
    simp only at hstart hstop hfaulty
    subst hstart hstop
    exact .fault hgap hfaulty

end Tiled

/-- **Tokens tile their source.** -/
structure Tiling (source : Text) (l : Lexed) : Prop where
  /-- No item is empty, and each stops within the source. -/
  proper : ∀ s ∈ l.spans, s.start < s.stop ∧ s.stop ≤ source.width
  /-- The items stand in order and do not overlap. -/
  ordered : l.spans.Pairwise fun s t => s.stop ≤ t.start
  /-- Items start and stop between two characters. -/
  boundary : ∀ s ∈ l.spans,
    (source.splitAt? s.start).isSome = true ∧ (source.splitAt? s.stop).isSome = true
  /-- In front of an item, from the item before it on, there is a gap. -/
  gap : ∀ before s after, l.spans = before ++ s :: after →
    Gap (between source (stopAfter 0 before) s.start)
  /-- There is no fault when behind the last token there is no item. -/
  tail : l.failure = none ↔ Trailing (between source (stopAfter 0 (l.tokens.map Token.span))
    source.width)
  /-- A token is spelled as its slice, in front of the text behind it. -/
  spelled : ∀ t ∈ l.tokens,
    Spelling t.kind t.text (t.span.slice source) (between source t.span.stop source.width)
  /-- A word does not start within a run of characters of words. -/
  maximal : ∀ t ∈ l.tokens, Apart (between source 0 t.span.start) (t.span.slice source)
  /-- There is a fault when behind the last token, after a gap, no token is
  spelled. -/
  fault_iff : ∀ e, l.failure = some e ↔ ∃ gap blamed rest,
    between source (stopAfter 0 (l.tokens.map Token.span)) source.width = gap ++ (blamed ++ rest)
      ∧ Gap gap ∧ Faulty e.cause blamed rest
      ∧ e.span.start = stopAfter 0 (l.tokens.map Token.span) + gap.width
      ∧ e.span.stop = e.span.start + blamed.width

/-- The text behind the last token is tiled without one. -/
theorem Tiled.ending {source : Text} {l : Lexed} (h : Tiled 0 source l.tokens l.failure) :
    Tiled (stopAfter 0 (l.tokens.map Token.span))
      (between source (stopAfter 0 (l.tokens.map Token.span)) source.width) [] l.failure := by
  rw [← List.append_nil l.tokens] at h
  obtain ⟨front, rest, rfl, hwidth, -, hrest⟩ := h.drop
  rw [Nat.zero_add] at hwidth
  rw [← hwidth] at hrest ⊢
  rw [between_end]
  exact hrest

/-- **Nothing is lost and nothing is made up.**  The tokens that are read tile
their source. -/
theorem tiling_lex (source : Text) : Tiling source (lex source) := by
  have htiled : Tiled 0 source (lex source).tokens (lex source).failure := tiled_lexFrom 0 source
  have hending := htiled.ending
  have hitem : ∀ before s after, (lex source).spans = before ++ s :: after → ∃ front gap part rest,
      source = front ++ (gap ++ (part ++ rest)) ∧ front.width = stopAfter 0 before ∧ Gap gap
        ∧ part ≠ [] ∧ s.start = front.width + gap.width ∧ s.stop = s.start + part.width := by
    intro before s after hs
    simpa using htiled.item hs
  have hspelled : ∀ t ∈ (lex source).tokens, ∃ before spelling rest,
      source = before ++ (spelling ++ rest) ∧ Apart before (spelling ++ rest)
        ∧ t.span = ⟨before.width, before.width + spelling.width⟩
        ∧ Spelling t.kind t.text spelling rest := by
    intro t ht
    simpa using htiled.spelled ht
  refine
    { proper := fun s hs => ?_
      ordered := htiled.ordered
      boundary := fun s hs => ?_
      gap := fun before s after hs => ?_
      tail := ⟨fun hnone => ?_, fun htrail => ?_⟩
      spelled := fun t ht => ?_
      maximal := fun t ht => ?_
      fault_iff := fun e => ⟨fun he => ?_, fun hfault => ?_⟩ }
  -- an item is as wide as its part, which is not empty
  · obtain ⟨before, after, hsplit⟩ := List.append_of_mem hs
    obtain ⟨front, gap, part, rest, hsource, -, -, hne, hstart, hstop⟩ := hitem before s after hsplit
    have hpos := Text.width_pos hne
    rw [hsource]
    simp only [Text.width_append]
    omega
  · obtain ⟨before, after, hsplit⟩ := List.append_of_mem hs
    obtain ⟨front, gap, part, rest, hsource, -, -, -, hstart, hstop⟩ := hitem before s after hsplit
    -- the source can be cut in front of the part and behind it
    have hcut := Text.splitAt?_append (front ++ gap) (part ++ rest)
    have hcut' := Text.splitAt?_append (front ++ gap ++ part) rest
    rw [hstop, hstart, hsource]
    simp only [List.append_assoc, Text.width_append, Nat.add_assoc] at hcut hcut' ⊢
    rw [hcut, hcut']
    exact ⟨rfl, rfl⟩
  · obtain ⟨front, gap, part, rest, hsource, hwidth, hgap, -, hstart, -⟩ := hitem before s after hs
    rw [← hwidth, hstart, hsource, between_append]
    exact hgap
  -- whether there is a fault is decided by the text behind the last token
  · rw [hnone] at hending
    exact hending.trailing
  · exact (hending.unique (.tail htrail)).2
  · obtain ⟨before, spelling, rest, hsource, -, hspan, hspelling⟩ := hspelled t ht
    have hrest := between_end (before ++ spelling) rest
    rw [List.append_assoc, Text.width_append] at hrest
    rw [hspan, hsource, Span.slice_append, hrest]
    exact hspelling
  · obtain ⟨before, spelling, rest, hsource, hapart, hspan, hspelling⟩ := hspelled t ht
    have hbefore := between_append [] before (spelling ++ rest)
    rw [List.nil_append, Text.width_nil, Nat.zero_add] at hbefore
    rw [hspan, hsource, hbefore, Span.slice_append]
    -- the next character is the first of the spelling
    intro c d hc hd
    refine hapart c d hc ?_
    rw [List.head?_append_of_ne_nil _ hspelling.ne_nil]
    exact hd
  · rw [he] at hending
    exact Tiled.fault_iff.1 hending
  · exact (hending.unique (Tiled.fault_iff.2 hfault)).2

end EightBit
