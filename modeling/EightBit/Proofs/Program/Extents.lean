/-
  EightBit.Proofs.Program.Extents
  ───────────────────────────────
  **EVERY STATEMENT HAS ITS OWN PART OF THE SOURCE.**

  A statement stands from its first token to its last, in front of the statement
  behind it, and what it says does not depend on what stands around it.  The part of
  the source that it takes, cut out and read with an END on a new line, is that
  statement again; only its places are moved, by as much as was cut off in front.

  Main results:
    • `Tiled.shift`            — a text is tiled alike wherever it stands;
    • `Tiled.take`             — some of the tokens tile their own part of a text;
    • `Statement.Spells.unshift` — tokens spell the same statement at another place;
    • `Statement.Spells.occupies` — a statement takes the place of its tokens;
    • `extents_of_parse`       — the four together, for a source that is read.
-/
import EightBit.Proofs.Program.AfterEnd
import EightBit.Proofs.Program.Marking

namespace EightBit

/-! ## §1. Moved places. -/

namespace Span

/-- The span `n` bytes further on. -/
def shift (n : Nat) (s : Span) : Span := ⟨s.start + n, s.stop + n⟩

theorem shift_join (n : Nat) (s t : Span) : (s.join t).shift n = (s.shift n).join (t.shift n) := by
  simp only [join, shift, mk.injEq]
  omega

theorem shift_inj {n : Nat} {s t : Span} : s.shift n = t.shift n ↔ s = t := by
  obtain ⟨start, stop⟩ := s
  obtain ⟨start', stop'⟩ := t
  simp [shift]

end Span

/-- The token `n` bytes further on. -/
def Token.shift (n : Nat) (t : Token) : Token := { t with span := t.span.shift n }

def SourceError.shift (n : Nat) (e : SourceError) : SourceError := { e with span := e.span.shift n }

def Operand.shift (n : Nat) (o : Operand) : Operand := { o with span := o.span.shift n }

def Instruction.shift (n : Nat) (i : Instruction) : Instruction :=
  { i with operands := i.operands.map (Operand.shift n), span := i.span.shift n }

/-- The statement with all its places `n` bytes further on. -/
def Statement.shift (n : Nat) : Statement → Statement
  | .label name span => .label name (span.shift n)
  | .instruction i => .instruction (i.shift n)

theorem Statement.isEnd_shift (n : Nat) (s : Statement) : (s.shift n).isEnd = s.isEnd := by
  cases s <;> rfl

/-- **A text is tiled alike wherever it stands.** -/
theorem Tiled.shift {start : Nat} {t : Text} {ts : List Token} {failure : Option SourceError}
    (h : Tiled start t ts failure) (n : Nat) :
    Tiled (start + n) t (ts.map (Token.shift n)) (failure.map (SourceError.shift n)) := by
  induction h with
  | tail htrail => exact .tail htrail
  | @fault start gap blamed rest cause hgap hfaulty =>
    have hfault : Tiled (start + n) _ [] _ := .fault hgap hfaulty
    rw [Nat.add_right_comm start n, Nat.add_right_comm _ n] at hfault
    exact hfault
  | @token start gap spelling rest text kind ts failure hgap hspelling _ ih =>
    have hplace : start + n + gap.width + spelling.width = start + gap.width + spelling.width + n := by
      omega
    rw [← hplace] at ih
    have htoken := Tiled.token hgap hspelling ih
    rw [hplace, Nat.add_right_comm start n] at htoken
    exact htoken

/-! ## §2. Some of the tokens. -/

/-- **Some of the tokens** tile a part of the text that begins with the first of them
and ends with the last, and they do so in front of any text in which no word goes on. -/
theorem Tiled.take {start : Nat} {t : Text} {segment after : List Token}
    {failure : Option SourceError} (h : Tiled start t (segment ++ after) failure)
    (hne : segment ≠ []) : ∃ gap body behind, t = gap ++ (body ++ behind) ∧ Gap gap ∧ body ≠ []
      ∧ BeginsItem (body ++ behind)
      ∧ (∀ first, segment.head? = some first → first.span.start = start + gap.width)
      ∧ (∀ last, segment.getLast? = some last → last.span.stop = start + gap.width + body.width)
      ∧ ∀ tail more failure', EndsWord tail →
        Tiled (start + gap.width + body.width) tail more failure' →
        Tiled (start + gap.width) (body ++ tail) (segment ++ more) failure' := by
  induction segment generalizing start t with
  | nil => exact absurd rfl hne
  | cons tok segment ih =>
    cases h with
    | @token _ gap spelling rest text kind _ _ hgap hspelling hrest =>
      cases segment with
      | nil =>
        refine ⟨gap, spelling, rest, rfl, hgap, hspelling.ne_nil, hspelling.beginsItem, ?_, ?_, ?_⟩
        · intro first hfirst
          obtain rfl := Option.some.inj hfirst
          rfl
        · intro last hlast
          obtain rfl := Option.some.inj hlast
          rfl
        · intro tail more failure' htail hmore
          exact .token .nil (hspelling.of_rest fun _ => htail) hmore
      | cons tok' segment =>
        obtain ⟨gap', body, behind, rfl, hgap', hbody, -, -, hlast, htiles⟩ := ih hrest (by simp)
        have hwidth : start + gap.width + (spelling ++ (gap' ++ body)).width
            = start + gap.width + spelling.width + gap'.width + body.width := by
          simp only [Text.width_append]
          omega
        refine ⟨gap, spelling ++ (gap' ++ body), behind, by simp, hgap, by simp [hbody], ?_, ?_, ?_, ?_⟩
        · simpa only [List.append_assoc] using hspelling.beginsItem
        · intro first hfirst
          obtain rfl := Option.some.inj hfirst
          rfl
        · intro last hlast'
          rw [List.getLast?_cons_cons] at hlast'
          rw [hwidth, hlast last hlast']
        · intro tail more failure' htail hmore
          rw [hwidth] at hmore
          have hlater := (htiles tail more failure' htail hmore).behind_gap hgap'
          -- the token ends where it did: behind it the text begins as before
          have hspelling' : Spelling kind text spelling (gap' ++ (body ++ tail)) :=
            hspelling.of_rest fun hends => hends.of_head? (head?_in_front hbody gap' behind tail)
          have htoken : Tiled (start + gap.width) _ _ failure' := .token .nil hspelling' hlater
          simp only [List.append_assoc]
          exact htoken

/-! ## §3. The same statement at another place. -/

section Unshift

variable {n : Nat} {m : Mnemonic} {row segment : List Token} {os : List Operand} {s : Statement}

theorem Following.unshift (h : Following m (row.map (Token.shift n)) os) :
    ∃ os', Following m row os' ∧ os'.map (Operand.shift n) = os := by
  generalize hrow : row.map (Token.shift n) = shifted at h
  induction h generalizing row with
  | nil =>
    obtain rfl := List.map_eq_nil_iff.1 hrow
    exact ⟨[], .nil, rfl⟩
  | @cons comma t v ts os hcomma hdenotes _ ih =>
    obtain ⟨comma', behind, rfl, rfl, hbehind⟩ := List.map_eq_cons_iff.1 hrow
    obtain ⟨t', more, rfl, rfl, hmore⟩ := List.map_eq_cons_iff.1 hbehind
    obtain ⟨os', hfollowing, rfl⟩ := ih hmore
    exact ⟨⟨v, t'.span⟩ :: os', .cons hcomma (hdenotes.of_eq rfl rfl) hfollowing, rfl⟩

theorem OperandRow.unshift (h : OperandRow m (row.map (Token.shift n)) os) :
    ∃ os', OperandRow m row os' ∧ os'.map (Operand.shift n) = os := by
  generalize hrow : row.map (Token.shift n) = shifted at h
  cases h with
  | nil =>
    obtain rfl := List.map_eq_nil_iff.1 hrow
    exact ⟨[], .nil, rfl⟩
  | @cons t v ts os hdenotes hfollowing =>
    obtain ⟨t', row, rfl, rfl, rfl⟩ := List.map_eq_cons_iff.1 hrow
    obtain ⟨os', hfollowing', rfl⟩ := hfollowing.unshift
    exact ⟨⟨v, t'.span⟩ :: os', .cons (hdenotes.of_eq rfl rfl) hfollowing', rfl⟩

/-- **Tokens spell the same statement at another place.** -/
theorem Statement.Spells.unshift (h : Spells (segment.map (Token.shift n)) s) :
    ∃ s', Spells segment s' ∧ s'.shift n = s := by
  generalize hsegment : segment.map (Token.shift n) = shifted at h
  cases h with
  | label hhead hname hcolon =>
    obtain ⟨head, tail, rfl, rfl, htail⟩ := List.map_eq_cons_iff.1 hsegment
    obtain ⟨colon, tail, rfl, rfl, hnil⟩ := List.map_eq_cons_iff.1 htail
    obtain rfl := List.map_eq_nil_iff.1 hnil
    refine ⟨_, .label hhead hname hcolon, ?_⟩
    rw [shift, Span.shift_join]
    rfl
  | @code _ _ i hhead hname hrow hformed hspan =>
    obtain ⟨head, row, rfl, rfl, rfl⟩ := List.map_eq_cons_iff.1 hsegment
    obtain ⟨os, hrow', hos⟩ := hrow.unshift
    obtain ⟨m, opcode, operands, span⟩ := i
    obtain rfl : os.map (Operand.shift n) = operands := hos
    have hkinds : (os.map (Operand.shift n)).map (fun o => o.value.kind)
        = os.map fun o => o.value.kind := by
      rw [List.map_map]
      rfl
    refine ⟨.instruction ⟨m, opcode, os, os.getLast?.elim head.span (fun o => head.span.join o.span)⟩,
      .code hhead hname hrow' ?_ rfl, ?_⟩
    · obtain ⟨f, hf, hkinds', hopcode⟩ := hformed
      exact ⟨f, hf, hkinds.symm.trans hkinds', hopcode⟩
    · rw [List.getLast?_map] at hspan
      simp only [Statement.shift, Instruction.shift, Statement.instruction.injEq,
        Instruction.mk.injEq, true_and]
      refine Eq.trans ?_ hspan.symm
      cases os.getLast? with
      | none => rfl
      | some o => exact Span.shift_join n head.span o.span

end Unshift

/-! ## §4. The place of a statement. -/

/-- The statement stands from the first of the tokens to the last. -/
def Statement.Occupies (segment : List Token) (s : Statement) : Prop :=
  ∃ first last, segment.head? = some first ∧ segment.getLast? = some last
    ∧ s.span = ⟨first.span.start, last.span.stop⟩

theorem Span.join_of_le {s t : Span} (hs : s.start ≤ s.stop) (hle : s.stop ≤ t.start)
    (ht : t.start ≤ t.stop) : s.join t = ⟨s.start, t.stop⟩ := by
  rw [join, Nat.min_eq_left (by omega), Nat.max_eq_right (by omega)]

theorem map_getLast?_cons {α β : Type} (f : α → β) (a : α) (l : List α) :
    (a :: l).getLast?.map f = some ((l.getLast?.map f).getD (f a)) := by
  rw [List.getLast?_cons, Option.map_some, Option.getD_map]

/-- The last operand is the last token. -/
theorem Following.getLast?_eq {m : Mnemonic} {row : List Token} {os : List Operand}
    (h : Following m row os) : os.getLast?.map Operand.span = row.getLast?.map Token.span := by
  induction h with
  | nil => rfl
  | @cons comma t v ts os _ _ _ ih =>
    rw [List.getLast?_cons_cons, map_getLast?_cons, map_getLast?_cons, ih]

theorem OperandRow.getLast?_eq {m : Mnemonic} {row : List Token} {os : List Operand}
    (h : OperandRow m row os) : os.getLast?.map Operand.span = row.getLast?.map Token.span := by
  cases h with
  | nil => rfl
  | cons _ hfollowing =>
    rw [map_getLast?_cons, map_getLast?_cons, hfollowing.getLast?_eq]

theorem Token.Marked.start_le_stop {source : Text} {t : Token} (h : t.Marked source) :
    t.span.start ≤ t.span.stop := by
  obtain ⟨spelling, -, hmarks, -⟩ := h
  exact hmarks.within.ordered

/-- **A statement takes the place of its tokens.**  What is between them, commas and
gaps, belongs to it. -/
theorem Statement.Spells.occupies {source : Text} {segment : List Token} {s : Statement}
    (h : Spells segment s) (hlocated : Located source segment) : s.Occupies segment := by
  have hle : ∀ t ∈ segment, t.span.start ≤ t.span.stop :=
    fun t ht => (hlocated.marked t ht).start_le_stop
  cases h with
  | @label head colon =>
    have hapart : head.span.stop ≤ colon.span.start :=
      (List.pairwise_cons.1 hlocated.ordered).1 colon List.mem_cons_self
    exact ⟨head, colon, rfl, rfl, Span.join_of_le (hle head (by simp)) hapart (hle colon (by simp))⟩
  | @code head row i _ _ hrow _ hspan =>
    have hlast := hrow.getLast?_eq
    cases hrowLast : row.getLast? with
    | none =>
      rw [hrowLast, Option.map_none, Option.map_eq_none_iff] at hlast
      rw [hlast] at hspan
      obtain rfl := List.getLast?_eq_none_iff.1 hrowLast
      exact ⟨head, head, rfl, rfl, hspan⟩
    | some last =>
      rw [hrowLast, Option.map_some, Option.map_eq_some_iff] at hlast
      obtain ⟨o, ho, hsame⟩ := hlast
      rw [ho, Option.elim_some, hsame] at hspan
      have hmem : last ∈ row := List.mem_of_getLast? hrowLast
      have hapart : head.span.stop ≤ last.span.start :=
        (List.pairwise_cons.1 hlocated.ordered).1 last hmem
      refine ⟨head, last, rfl, by rw [List.getLast?_cons, hrowLast]; rfl, hspan.trans ?_⟩
      exact Span.join_of_le (hle head (by simp)) hapart (hle last (by simp [hmem]))

theorem occupies_segments {source : Text} {segments : List (List Token)} {ss : List Statement}
    (h : List.Forall₂ Statement.Spells segments ss) (hlocated : Located source segments.flatten) :
    List.Forall₂ Statement.Occupies segments ss := by
  induction h with
  | nil => exact .nil
  | @cons segment s segments ss hs _ ih =>
    have hflat : Located source (segment ++ segments.flatten) := hlocated
    exact .cons (hs.occupies (hflat.sublist (List.sublist_append_left _ _)))
      (ih (hflat.sublist (List.sublist_append_right _ _)))

/-- Statements of segments in order are in order. -/
theorem ordered_segments {source : Text} {segments : List (List Token)} {ss : List Statement}
    (h : List.Forall₂ Statement.Occupies segments ss)
    (hlocated : Located source segments.flatten) :
    ss.Pairwise fun s s' => s.span.stop ≤ s'.span.start := by
  induction h with
  | nil => exact List.Pairwise.nil
  | @cons segment s segments ss hs hss ih =>
    have hflat : Located source (segment ++ segments.flatten) := hlocated
    refine List.pairwise_cons.2 ⟨fun s' hs' => ?_, ih (hflat.sublist (List.sublist_append_right _ _))⟩
    obtain ⟨_, last, -, hlast, hspan⟩ := hs
    obtain ⟨segment', hsegment', first, _, hfirst, -, hspan'⟩ := exists_mem_of_forall₂ hss hs'
    rw [hspan, hspan']
    refine (List.pairwise_append.1 hflat.ordered).2.2 last (List.mem_of_getLast? hlast) first ?_
    exact List.mem_flatten.2 ⟨segment', hsegment', List.mem_of_mem_head? hfirst⟩

/-! ## §5. Every statement on its own. -/

/-- The statement END at the byte offset. -/
def finishAt (start : Nat) : Statement := .instruction ⟨.finish, some .halt, [], ⟨start, start + 3⟩⟩

/-- The END on a line of its own. -/
def finishLine : Text := "\nEND".toList

/-- The token of that END. -/
def finishToken (start : Nat) : Token := ⟨.ident, "END".toList, ⟨start, start + 3⟩⟩

theorem spells_finishAt (start : Nat) : Statement.Spells [finishToken start] (finishAt start) :=
  .code rfl rfl .nil ⟨⟨[], some .halt⟩, List.mem_cons_self, rfl, rfl⟩ rfl

theorem tiled_finishLine (start : Nat) :
    Tiled start finishLine [finishToken (start + 1)] none := by
  have hgap : Gap ['\n'] := .blank (by decide) .nil
  have hword : FreeWord (Text.upper "END".toList) := Mnemonic.finish.freeWord_name
  have hspelling : Spelling .ident (Text.upper "END".toList) "END".toList [] :=
    .word (by decide) hword.chars (fun _ hc => absurd hc (by simp))
      (.ident hword.free ⟨'N', by decide, by decide⟩)
  exact .token hgap hspelling (.tail (.gap .nil))

/-- **The part of a source that has these tokens**, and has them in front of any text
in which no word goes on. -/
structure PartOf (source : Text) (segment : List Token) (s : Span) (part : Text) : Prop where
  marks : s.Marks source part
  ne_nil : part ≠ []
  tiles : ∀ tail more failure, EndsWord tail → Tiled s.stop tail more failure →
    Tiled s.start (part ++ tail) (segment ++ more) failure

/-- A statement has its part of the source. -/
theorem Statement.Occupies.exists_part {source : Text} {before segment after : List Token}
    {failure : Option SourceError} {s : Statement} (h : s.Occupies segment)
    (htiled : Tiled 0 source (before ++ (segment ++ after)) failure) :
    ∃ part, PartOf source segment s.span part := by
  obtain ⟨first, last, hfirst, hlast, hspan⟩ := h
  have hne : segment ≠ [] := by
    intro hnil
    rw [hnil] at hfirst
    exact absurd hfirst (by simp)
  obtain ⟨front, t, rfl, hwidth, -, hrest⟩ := htiled.drop
  rw [← hwidth, Nat.zero_add] at hrest
  obtain ⟨gap, body, behind, rfl, -, hbody, hitem, hstart, hstop, htiles⟩ := hrest.take hne
  rw [← Text.width_append] at hstart hstop htiles
  rw [hstart first hfirst, hstop last hlast] at hspan
  rw [hspan]
  exact ⟨body, ⟨front ++ gap, behind, by simp, rfl, .inr hitem⟩, hbody, htiles⟩

theorem Split.located {source : Text} {segments : List (List Token)} {rest : List Token}
    {ss : List Statement} (h : Split (lex source).tokens segments rest ss) :
    Located source segments.flatten := by
  refine (located_lex source).sublist ?_
  rw [h.tokens]
  exact List.sublist_append_left _ _

theorem Split.exists_part {source : Text} {segments : List (List Token)} {rest : List Token}
    {ss : List Statement} (h : Split (lex source).tokens segments rest ss) {s : Statement}
    (hs : s ∈ ss) : ∃ segment part, Statement.Spells segment s
      ∧ PartOf source segment s.span part := by
  obtain ⟨segment, hmem, hspells⟩ := exists_mem_of_forall₂ h.spells hs
  obtain ⟨before, after, hsegments⟩ := List.append_of_mem hmem
  have htokens : (lex source).tokens = before.flatten ++ (segment ++ (after.flatten ++ rest)) := by
    rw [h.tokens, hsegments]
    simp
  have htiled : Tiled 0 source (lex source).tokens (lex source).failure := tiled_lexFrom 0 source
  rw [htokens] at htiled
  have hplace : s.Occupies segment :=
    hspells.occupies (h.located.sublist (List.sublist_flatten_of_mem hmem))
  obtain ⟨part, hpart⟩ := hplace.exists_part htiled
  exact ⟨segment, part, hspells, hpart⟩

/-- A part with the tokens of a statement is read as this statement, moved back to the
beginning. -/
theorem parse_alone {n : Nat} {body : Text} {segment : List Token} {s : Statement}
    (hspells : Statement.Spells segment s) (hend : s.isEnd = false)
    (htiled : Tiled n (body ++ finishLine) (segment ++ [finishToken (n + body.width + 1)]) none) :
    ∃ s', parse (body ++ finishLine) = .ok [s', finishAt (body.width + 1)] ∧ s'.shift n = s := by
  have hlex := (tiled_lexFrom 0 (body ++ finishLine)).shift n
  rw [Nat.zero_add] at hlex
  -- a text has one tiling, so what is read there is the segment moved back
  obtain ⟨segment', htokens, rfl⟩ : ∃ segment', (lex (body ++ finishLine)).tokens
      = segment' ++ [finishToken (body.width + 1)] ∧ segment'.map (Token.shift n) = segment := by
    obtain ⟨segment', tail, htokens, hsegment, htail⟩ :=
      List.map_eq_append_iff.1 (hlex.unique htiled).1
    obtain ⟨⟨kind, text, span⟩, rfl, hfinish⟩ := List.map_eq_singleton_iff.1 htail
    obtain ⟨rfl, rfl, hspan⟩ := Token.mk.inj hfinish
    have hmoved : (Span.mk (body.width + 1) (body.width + 1 + 3)).shift n
        = ⟨n + body.width + 1, n + body.width + 1 + 3⟩ := by
      simp only [Span.shift, Span.mk.injEq]
      omega
    rw [← hmoved, Span.shift_inj] at hspan
    subst hspan
    exact ⟨segment', htokens, hsegment⟩
  obtain ⟨s', hspells', rfl⟩ := hspells.unshift
  rw [Statement.isEnd_shift] at hend
  have hfinish : Split ([finishToken (body.width + 1)] ++ []) _ [] _ :=
    .single (spells_finishAt (body.width + 1)) rfl (by simp)
  have hsplit := hfinish.cons hspells' hend
  rw [List.append_nil, ← htokens] at hsplit
  exact ⟨s', statements_of_split _ (lexical_lex _) hsplit, rfl⟩

/-- **The places of the statements.** -/
structure Extents (source : Text) (ss : List Statement) : Prop where
  /-- The tokens are split among the statements, and each statement stands from its
  first token to its last. -/
  tokens : ∃ segments rest, Split (lex source).tokens segments rest ss
    ∧ List.Forall₂ Statement.Occupies segments ss
  nonempty : ∀ s ∈ ss, s.span.start < s.span.stop
  increasing : ss.Pairwise fun s s' => s.span.start < s'.span.start
  /-- No statement reaches into the next. -/
  apart : ss.Pairwise fun s s' => s.span.stop ≤ s'.span.start
  /-- What stands there is the statement on its own, in front of an END. -/
  alone : ∀ s ∈ ss, s.isEnd = false → ∃ s',
    parse (s.span.slice source ++ finishLine)
        = .ok [s', finishAt ((s.span.slice source).width + 1)]
      ∧ s'.shift s.span.start = s

/-- **Statements are apart and can be read apart.** -/
theorem extents_of_parse {source : Text} {ss : List Statement} (h : parse source = .ok ss) :
    Extents source ss := by
  obtain ⟨segments, rest, hsplit⟩ := split_of_statements (lexical_lex source) h
  have hoccupies := occupies_segments hsplit.spells hsplit.located
  have hordered := ordered_segments hoccupies hsplit.located
  have hnonempty : ∀ s ∈ ss, s.span.start < s.span.stop := by
    intro s hs
    obtain ⟨_, part, -, hpart⟩ := hsplit.exists_part hs
    obtain ⟨front, behind, -, hspan, -⟩ := hpart.marks
    rw [hspan]
    exact Nat.lt_add_of_pos_right (Text.width_pos hpart.ne_nil)
  refine ⟨⟨segments, rest, hsplit, hoccupies⟩, hnonempty, ?_, hordered, fun s hs hend => ?_⟩
  · exact hordered.imp_of_mem fun {s s'} hs _ hle => Nat.lt_of_lt_of_le (hnonempty s hs) hle
  · obtain ⟨segment, part, hspells, hpart⟩ := hsplit.exists_part hs
    rw [hpart.marks.slice_eq]
    have htiled := hpart.tiles _ _ _ (EndsWord.cons (by decide) _) (tiled_finishLine s.span.stop)
    have hstop : s.span.stop = s.span.start + part.width := by
      obtain ⟨front, behind, -, hspan, -⟩ := hpart.marks
      rw [hspan]
    rw [hstop] at htiled
    exact parse_alone hspells hend htiled

/-- A label whose colon is on the next line, a string with a quote, a semicolon and an
umlaut, operands across a comment, and text behind END. -/
def scattered : Text :=
  "A ;\n: db \x22\\\x22;\u00fc\x22mov al ; \u20ac,\n,[ bL ]\tend .".toList

theorem extents_of_parse_scattered : ∃ ss, parse scattered = .ok ss ∧ Extents scattered ss
    ∧ ss.map Statement.span = [⟨0, 5⟩, ⟨6, 16⟩, ⟨16, 37⟩, ⟨38, 41⟩] := by
  have hspans : (parse scattered).toOption.map (fun ss => ss.map Statement.span)
      = some [⟨0, 5⟩, ⟨6, 16⟩, ⟨16, 37⟩, ⟨38, 41⟩] := by decide +kernel
  obtain ⟨ss, hss, heq⟩ := exists_of_toOption_map hspans
  exact ⟨ss, hss, extents_of_parse hss, heq⟩

end EightBit
