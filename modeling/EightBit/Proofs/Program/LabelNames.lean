/-
  EightBit.Proofs.Program.LabelNames
  ──────────────────────────────────
  **LABEL NAMES ARE ONLY NAMES.**

  In a source that is read, the words that name labels are replaced by others.
  The others may be numbers or mnemonics elsewhere: as they stand where the old
  ones stood, they are labels too.  So the new source is read as the old one,
  with its labels called otherwise, and it has the same program.

  Main results:
    • `Tiled.edit`            — a source with other words is tiled by other tokens;
    • `Split.carries`         — these are split as the tokens were;
    • `Carries.slice_eq`      — the words that are replaced are those of the labels;
    • `assemble_renameLabels` — the new source has the same program.
-/
import EightBit.Proofs.Program.SameTokens

namespace EightBit

/-! ## §1. The words of labels. -/

/-- The words of labels in the statement: the names and where they stand.  A
declaration begins with its name. -/
def Statement.labelWords : Statement → List (Text × Span)
  | .label name span => [(name, ⟨span.start, span.start + name.width⟩)]
  | .instruction i => i.references

/-- The words of labels in the statements. -/
def labelWords (ss : List Statement) : List (Text × Span) := ss.flatMap Statement.labelWords

/-- The names of labels in the statements. -/
def labelNames (ss : List Statement) : List Text := (labelWords ss).map Prod.fst

/-- The source from the byte offset on, with other words at the places given. -/
def replaceFrom (source : Text) : (start : Nat) → List (Text × Span) → Text
  | start, [] => between source start source.width
  | start, (word, span) :: words =>
    between source start span.start ++ (word ++ replaceFrom source span.stop words)

/-- The new words, where the old ones stand. -/
def newWords (f : Text → Text) (uses : List (Text × Span)) : List (Text × Span) :=
  uses.map fun use => (f use.1, use.2)

/-- **The source with its labels called otherwise**, the statements being those of
the source. -/
def renameLabels (f : Text → Text) (source : Text) (ss : List Statement) : Text :=
  replaceFrom source 0 (newWords f (labelWords ss))

/-- The new name as it is read. -/
def newName (f : Text → Text) (name : Text) : Text := (f name).upper

/-- **New names for labels**: they can name labels, they name no register, and
different labels get different ones, whatever the case of their letters. -/
structure NewNames (f : Text → Text) (names : List Text) : Prop where
  labelName : ∀ name ∈ names, LabelName (f name)
  free : ∀ name ∈ names, ∀ r : Register, newName f name ≠ r.name
  injective : ∀ name ∈ names, ∀ other ∈ names, newName f name = newName f other → name = other

/-! ## §2. Tokens with other words. -/

/-- What becomes of a token: it is kept, or the new name of its word stands in its
place. -/
inductive Edit where
  | keep (t : Token)
  | rename (t : Token)

namespace Edit

def token : Edit → Token
  | keep t => t
  | rename t => t

/-- The word that gets a new name. -/
def use? : Edit → Option (Text × Span)
  | keep _ => none
  | rename t => some (t.text, t.span)

/-- Only words get new names, and these are words that name no register. -/
def Fits (f : Text → Text) : Edit → Prop
  | keep _ => True
  | rename t => t.isWord = true ∧ FreeWord (newName f t.text)

/-- The token is there after the edit. -/
def Yields (f : Text → Text) : Edit → Token → Prop
  | keep t, t' => t'.kind = t.kind ∧ t'.text = t.text
  | rename t, t' => t'.isWord = true ∧ t'.text = newName f t.text

end Edit

/-- A token is spelled in front of another text too, if its word ends there. -/
theorem Spelling.of_rest {kind : Token.Kind} {text spelling rest rest' : Text}
    (h : Spelling kind text spelling rest) (hends : EndsWord rest → EndsWord rest') :
    Spelling kind text spelling rest' := by
  cases h with
  | colon => exact .colon
  | comma => exact .comma
  | address hnl hbracket => exact .address hnl hbracket
  | string hnl hquotes hopen => exact .string hnl hquotes hopen
  | word hne hchars hrest hkind => exact .word hne hchars (hends hrest) hkind

/-- A word is spelled by characters of words, and ends. -/
theorem Spelling.of_isWord {t : Token} {spelling rest : Text}
    (h : Spelling t.kind t.text spelling rest) (hword : t.isWord = true) :
    (∀ c ∈ spelling, isWordChar c = true) ∧ EndsWord rest ∧ t.text = spelling.upper := by
  obtain ⟨kind, text, span⟩ := t
  cases h with
  | word _ hchars hrest => exact ⟨hchars, hrest, rfl⟩
  | _ => exact absurd hword (by simp [Token.isWord])

theorem EndsWord.of_head? {t t' : Text} (h : EndsWord t) (hhead : t'.head? = t.head?) :
    EndsWord t' := by
  intro c hc
  exact h c (hhead ▸ hc)

/-- In front of a token everything begins as before. -/
theorem head?_in_front {spelling : Text} (hne : spelling ≠ []) (gap rest rest' : Text) :
    (gap ++ (spelling ++ rest')).head? = (gap ++ (spelling ++ rest)).head? := by
  obtain ⟨c, cs, rfl⟩ := List.exists_cons_of_ne_nil hne
  cases gap <;> rfl

/-- Where a word stands without a gap, no word ends. -/
theorem not_endsWord {spelling : Text} (hne : spelling ≠ [])
    (hchars : ∀ c ∈ spelling, isWordChar c = true) (rest : Text) : ¬ EndsWord (spelling ++ rest) := by
  obtain ⟨c, cs, rfl⟩ := List.exists_cons_of_ne_nil hne
  intro h
  exact absurd (h c rfl) (by simp [hchars c])

/-- A word that is new stands where the old one stood, behind what is kept. -/
theorem replaceFrom_word (front kept spelling rest word : Text) (words : List (Text × Span)) :
    replaceFrom (front ++ (kept ++ (spelling ++ rest))) front.width
        ((word, ⟨(front ++ kept).width, (front ++ kept ++ spelling).width⟩) :: words)
      = kept ++ (word ++ replaceFrom (front ++ kept ++ spelling ++ ([] ++ rest))
        (front ++ kept ++ spelling).width words) := by
  rw [replaceFrom, Text.width_append front kept, between_append]
  simp only [List.append_assoc, List.nil_append]

/-- **A source with other words** is tiled by the tokens that the edits yield. -/
theorem Tiled.edit {f : Text → Text} {start : Nat} {t : Text} {es : List Edit}
    {failure : Option SourceError} (h : Tiled start t (es.map Edit.token) failure)
    (hes : ∀ e ∈ es, e.Fits f) (start' : Nat) : ∃ t' ts' failure', Tiled start' t' ts' failure'
      ∧ List.Forall₂ (Edit.Yields f) es ts' ∧ (EndsWord t → EndsWord t')
      ∧ ∀ front kept, start = (front ++ kept).width →
        replaceFrom (front ++ (kept ++ t)) front.width (newWords f (es.filterMap Edit.use?))
          = kept ++ t' := by
  -- `front` is behind the last word that is new, and `kept` is what has been kept since
  generalize hts : es.map Edit.token = ts at h
  induction h generalizing es start' with
  | @tail start t htrail =>
    obtain rfl := List.map_eq_nil_iff.1 hts
    refine ⟨t, [], none, .tail htrail, .nil, id, fun front kept _ => ?_⟩
    exact between_end front (kept ++ t)
  | @fault start gap blamed rest cause hgap hfaulty =>
    obtain rfl := List.map_eq_nil_iff.1 hts
    refine ⟨_, [], _, .fault hgap hfaulty, .nil, id, fun front kept _ => ?_⟩
    exact between_end front _
  | @token start gap spelling rest text kind ts failure hgap hspelling _ ih =>
    cases es with
    | nil => exact absurd hts (by simp)
    | cons e es =>
      obtain ⟨htoken, htokens⟩ := List.cons.inj hts
      have hes' : ∀ e ∈ es, e.Fits f := fun e he => hes e (List.mem_cons_of_mem _ he)
      have hfits := hes e List.mem_cons_self
      cases e with
      | keep t =>
        obtain rfl : t = _ := htoken
        obtain ⟨rest', ts', failure', htiled, hyields, hends, htext⟩ :=
          ih hes' (start' + gap.width + spelling.width) htokens
        refine ⟨_, _, failure', .token hgap (hspelling.of_rest hends) htiled,
          .cons ⟨rfl, rfl⟩ hyields, fun h => ?_, fun front kept hstart => ?_⟩
        · exact h.of_head? (head?_in_front hspelling.ne_nil gap rest rest')
        · have hwidth : start + gap.width + spelling.width
              = (front ++ (kept ++ (gap ++ spelling))).width := by
            simp only [hstart, Text.width_append]
            omega
          have hlater := htext front (kept ++ (gap ++ spelling)) hwidth
          simp only [List.append_assoc] at hlater
          exact hlater
      | rename t =>
        obtain rfl : t = _ := htoken
        obtain ⟨hword, hfree⟩ := hfits
        obtain ⟨hchars, hrest, -⟩ := Spelling.of_isWord hspelling hword
        obtain ⟨rest', ts', failure', htiled, hyields, hends, htext⟩ :=
          ih hes' (start' + gap.width + (f text).width) htokens
        obtain ⟨kind', hkind', hspelling'⟩ := hfree.spelling rfl (hends hrest)
        refine ⟨_, _, failure', .token hgap hspelling' htiled, .cons ⟨?_, rfl⟩ hyields,
          fun h => ?_, fun front kept hstart => ?_⟩
        · rcases hkind' with rfl | rfl <;> rfl
        -- only a gap can end a word here
        · cases gap with
          | nil => exact absurd h (not_endsWord hspelling.ne_nil hchars rest)
          | cons c gap => exact h.of_head? rfl
        · have hspan : Span.mk (start + gap.width) (start + gap.width + spelling.width)
              = ⟨(front ++ (kept ++ gap)).width, (front ++ (kept ++ gap) ++ spelling).width⟩ := by
            simp only [hstart, Text.width_append, Nat.add_assoc]
          have hlater := htext (front ++ (kept ++ gap) ++ spelling) []
            (by simp only [hstart, Text.width_append, Text.width_nil]; omega)
          have hnew := replaceFrom_word front (kept ++ gap) spelling rest (f text)
            (newWords f (es.filterMap Edit.use?))
          rw [hlater, ← hspan] at hnew
          simp only [List.append_assoc, List.nil_append] at hnew
          exact hnew

/-! ## §3. Tokens that stand for the same. -/

/-- The use of a label that the operand is, if it is one. -/
def Operand.use? (o : Operand) : Option (Text × Span) :=
  match o.value with
  | .label name _ => some (name, o.span)
  | _ => none

theorem Instruction.references_eq (i : Instruction) :
    i.references = i.operands.filterMap Operand.use? := rfl

section Carries

variable {f : Text → Text} {ts ts₁ ts₂ : List Token}
  {uses uses₁ uses₂ : List (Text × Span)} {post post₁ post₂ : List Token → Prop}
  {es es₁ es₂ : List Edit}

/-- **Edits that give new names** to the uses of labels among the tokens, after
which the tokens are as they should be. -/
structure Carries (f : Text → Text) (ts : List Token) (uses : List (Text × Span))
    (post : List Token → Prop) (es : List Edit) : Prop where
  tokens : es.map Edit.token = ts
  fits : ∀ e ∈ es, e.Fits f
  words : es.filterMap Edit.use? = uses
  yields : ∀ ts', List.Forall₂ (Edit.Yields f) es ts' → post ts'

namespace Carries

theorem append (h₁ : Carries f ts₁ uses₁ post₁ es₁) (h₂ : Carries f ts₂ uses₂ post₂ es₂)
    (hpost : ∀ ts₁' ts₂', post₁ ts₁' → post₂ ts₂' → post (ts₁' ++ ts₂')) :
    Carries f (ts₁ ++ ts₂) (uses₁ ++ uses₂) post (es₁ ++ es₂) where
  tokens := by rw [List.map_append, h₁.tokens, h₂.tokens]
  fits := by
    intro e he
    rcases List.mem_append.1 he with he | he
    · exact h₁.fits e he
    · exact h₂.fits e he
  words := by rw [List.filterMap_append, h₁.words, h₂.words]
  yields := by
    intro ts' hyields
    have hfirst := List.forall₂_take es₁.length hyields
    have hsecond := List.forall₂_drop es₁.length hyields
    rw [List.take_left] at hfirst
    rw [List.drop_left] at hsecond
    rw [← List.take_append_drop es₁.length ts']
    exact hpost _ _ (h₁.yields _ hfirst) (h₂.yields _ hsecond)

theorem nil (h : post []) : Carries f [] [] post [] where
  tokens := rfl
  fits := fun _ he => absurd he (by simp)
  words := rfl
  yields := by
    intro ts' hyields
    cases hyields
    exact h

/-- A token is kept. -/
theorem keep {t : Token} (h : ∀ t', t'.kind = t.kind → t'.text = t.text → post [t']) :
    Carries f [t] [] post [.keep t] where
  tokens := rfl
  fits := by
    intro e he
    obtain rfl := List.mem_singleton.1 he
    trivial
  words := rfl
  yields := by
    intro ts' hyields
    cases hyields with
    | cons hyield hnil =>
      cases hnil
      exact h _ hyield.1 hyield.2

/-- A word gets its new name. -/
theorem rename {t : Token} (hword : t.isWord = true) (hfree : FreeWord (newName f t.text))
    (h : ∀ t', t'.isWord = true → t'.text = newName f t.text → post [t']) :
    Carries f [t] [(t.text, t.span)] post [.rename t] where
  tokens := rfl
  fits := by
    intro e he
    obtain rfl := List.mem_singleton.1 he
    exact ⟨hword, hfree⟩
  words := rfl
  yields := by
    intro ts' hyields
    cases hyields with
    | cons hyield hnil =>
      cases hnil
      exact h _ hyield.1 hyield.2

end Carries

variable {names : List Text} {m : Mnemonic}

theorem NewNames.labelWord (hf : NewNames f names) {name : Text} (hname : name ∈ names) :
    LabelWord (newName f name) where
  ne_nil := by
    intro h
    exact (hf.labelName name hname).1 (List.map_eq_nil_iff.1 h)
  chars := by
    intro c hc
    obtain ⟨d, hd, rfl⟩ := List.mem_map.1 hc
    rcases (hf.labelName name hname).2 d hd with halpha | rfl
    · exact .inl (Text.isUpper_toUpper halpha)
    · exact .inr (by decide)
  free := hf.free name hname

/-- What a token stands for does not depend on its place. -/
theorem Token.Denotes.of_eq {t t' : Token} {v : Operand.Value} (h : t.Denotes m v)
    (hkind : t'.kind = t.kind) (htext : t'.text = t.text) : t'.Denotes m v := by
  rw [Token.denotes_iff] at h ⊢
  simpa only [Token.isWord, hkind, htext] using h

/-- What a word stands for after a jump, its new name stands for. -/
theorem Token.Denotes.carries (hf : NewNames f names) {t : Token} {v : Operand.Value}
    (h : t.Denotes m v) (hknown : ∀ use ∈ (Operand.use? ⟨v, t.span⟩).toList, use.1 ∈ names) :
    ∃ es, Carries f [t] (Operand.use? ⟨v, t.span⟩).toList (fun ts' => ∃ t' v', ts' = [t']
      ∧ t'.Denotes m v' ∧ Operand.Value.Renames {name | name ∈ names} (newName f) v v') es := by
  have hkeep : v.kind ≠ .label → Carries f [t] [] (fun ts' => ∃ t' v', ts' = [t']
      ∧ t'.Denotes m v' ∧ Operand.Value.Renames {name | name ∈ names} (newName f) v v')
      [.keep t] :=
    fun hv => .keep fun t' hkind htext => ⟨t', v, rfl, h.of_eq hkind htext, .other hv⟩
  cases h with
  | label hjump hword hname =>
    have hmem : t.text ∈ names := hknown (t.text, t.span) (List.mem_singleton.2 rfl)
    have hnew := hf.labelWord hmem
    refine ⟨_, .rename hword hnew.freeWord fun t' hword' htext => ?_⟩
    refine ⟨t', .label t'.text none, rfl, .label hjump hword' (htext ▸ hnew.labelName), ?_⟩
    rw [htext]
    exact .label hmem
  | _ => exact ⟨_, hkeep (by simp [Operand.Value.kind])⟩

theorem filterMap_use?_cons (o : Operand) (os : List Operand) : (o :: os).filterMap Operand.use?
    = o.use?.toList ++ os.filterMap Operand.use? := by
  rw [List.filterMap_cons]
  cases o.use? <;> rfl

/-- So do operands that follow others, -/
theorem Following.carries (hf : NewNames f names) {row : List Token} {os : List Operand}
    (h : Following m row os) (hknown : ∀ use ∈ os.filterMap Operand.use?, use.1 ∈ names) :
    ∃ es, Carries f row (os.filterMap Operand.use?) (fun row' => ∃ os', Following m row' os'
      ∧ List.Forall₂ (Operand.Renames {name | name ∈ names} (newName f)) os os') es := by
  induction h with
  | nil => exact ⟨[], .nil ⟨[], .nil, .nil⟩⟩
  | @cons comma t v ts os hcomma hdenotes _ ih =>
    rw [filterMap_use?_cons] at hknown ⊢
    obtain ⟨es₁, htoken⟩ :=
      hdenotes.carries hf fun use huse => hknown use (List.mem_append_left _ huse)
    obtain ⟨es₂, hrow⟩ := ih fun use huse => hknown use (List.mem_append_right _ huse)
    have hfirst : Carries f [comma] [] (fun ts' => ∃ comma', ts' = [comma'] ∧ comma'.kind = .comma)
        [.keep comma] := .keep fun comma' hkind _ => ⟨comma', rfl, hkind.trans hcomma⟩
    have hrest : Carries f (t :: ts) ((Operand.use? ⟨v, t.span⟩).toList ++ os.filterMap Operand.use?)
        (fun row' => ∀ comma' : Token, comma'.kind = .comma →
          ∃ os', Following m (comma' :: row') os' ∧ List.Forall₂
            (Operand.Renames {name | name ∈ names} (newName f)) (⟨v, t.span⟩ :: os) os')
        (es₁ ++ es₂) := by
      refine htoken.append hrow ?_
      rintro _ row' ⟨t', v', rfl, hdenotes', hv⟩ ⟨os', hrow', hos⟩ comma' hcomma'
      exact ⟨⟨v', t'.span⟩ :: os', .cons hcomma' hdenotes' hrow', .cons hv hos⟩
    refine ⟨_, hfirst.append hrest ?_⟩
    rintro _ row' ⟨comma', rfl, hcomma'⟩ hrow'
    exact hrow' comma' hcomma'

/-- and all the operands of an instruction. -/
theorem OperandRow.carries (hf : NewNames f names) {row : List Token} {os : List Operand}
    (h : OperandRow m row os) (hknown : ∀ use ∈ os.filterMap Operand.use?, use.1 ∈ names) :
    ∃ es, Carries f row (os.filterMap Operand.use?) (fun row' => ∃ os', OperandRow m row' os'
      ∧ List.Forall₂ (Operand.Renames {name | name ∈ names} (newName f)) os os') es := by
  cases h with
  | nil => exact ⟨[], .nil ⟨[], .nil, .nil⟩⟩
  | @cons t v ts os hdenotes hrow =>
    rw [filterMap_use?_cons] at hknown ⊢
    obtain ⟨es₁, htoken⟩ :=
      hdenotes.carries hf fun use huse => hknown use (List.mem_append_left _ huse)
    obtain ⟨es₂, hrow⟩ := hrow.carries hf fun use huse => hknown use (List.mem_append_right _ huse)
    refine ⟨_, htoken.append hrow ?_⟩
    rintro _ row' ⟨t', v', rfl, hdenotes', hv⟩ ⟨os', hrow', hos⟩
    exact ⟨⟨v', t'.span⟩ :: os', .cons hdenotes' hrow', .cons hv hos⟩

/-! ## §4. Statements under new names. -/

/-- Words are as wide as their texts, and tokens stand in order. -/
structure InPlace (ts : List Token) : Prop where
  wide : ∀ t ∈ ts, t.isWord = true → t.span.stop = t.span.start + t.text.width
  ordered : ts.Pairwise fun t u => t.span.start ≤ u.span.start

theorem InPlace.left (h : InPlace (ts₁ ++ ts₂)) : InPlace ts₁ where
  wide := fun t ht => h.wide t (List.mem_append_left _ ht)
  ordered := (List.pairwise_append.1 h.ordered).1

theorem InPlace.right (h : InPlace (ts₁ ++ ts₂)) : InPlace ts₂ where
  wide := fun t ht => h.wide t (List.mem_append_right _ ht)
  ordered := (List.pairwise_append.1 h.ordered).2.1

/-- A statement is spelled under new names by the tokens that the edits yield. -/
theorem Statement.Spells.carries (hf : NewNames f names) {segment : List Token} {s : Statement}
    (h : Spells segment s) (hplace : InPlace segment)
    (hknown : ∀ use ∈ s.labelWords, use.1 ∈ names) :
    ∃ es, Carries f segment s.labelWords (fun segment' => ∃ s', Spells segment' s'
      ∧ s.Renames {name | name ∈ names} (newName f) s') es := by
  cases h with
  | @label head colon hhead hname hcolon =>
    have hmem : head.text ∈ names := hknown _ List.mem_cons_self
    have hnew := hf.labelWord hmem
    -- a declaration stands from its name on
    have hstart : (head.span.join colon.span).start = head.span.start := by
      have hle : head.span.start ≤ colon.span.start :=
        (List.pairwise_cons.1 hplace.ordered).1 colon List.mem_cons_self
      exact Nat.min_eq_left hle
    have hspan : Span.mk head.span.start (head.span.start + head.text.width) = head.span := by
      rw [← hplace.wide head List.mem_cons_self hhead]
    have hwords : (Statement.label head.text (head.span.join colon.span)).labelWords
        = [(head.text, head.span)] ++ [] := by
      rw [labelWords, hstart, hspan]
      rfl
    have hword : Carries f [head] [(head.text, head.span)] (fun ts' => ∃ head', ts' = [head']
        ∧ head'.isWord = true ∧ head'.text = newName f head.text) [.rename head] :=
      .rename hhead hnew.freeWord fun head' hhead' htext => ⟨head', rfl, hhead', htext⟩
    have hmark : Carries f [colon] [] (fun ts' => ∃ colon', ts' = [colon'] ∧ colon'.kind = .colon)
        [.keep colon] := .keep fun colon' hkind _ => ⟨colon', rfl, hkind.trans hcolon⟩
    rw [hwords]
    refine ⟨_, hword.append hmark ?_⟩
    rintro _ _ ⟨head', rfl, hhead', htext⟩ ⟨colon', rfl, hcolon'⟩
    refine ⟨_, .label hhead' (htext ▸ hnew.labelName) hcolon', ?_⟩
    rw [htext]
    exact .label hmem
  | @code head row i hhead hname hrow hformed hspan =>
    have hwords : (Statement.instruction i).labelWords = i.operands.filterMap Operand.use? :=
      i.references_eq
    rw [hwords] at hknown ⊢
    obtain ⟨es, hcarries⟩ := hrow.carries hf hknown
    have hfirst : Carries f [head] [] (fun ts' => ∃ head', ts' = [head'] ∧ head'.isWord = true
        ∧ head'.text = head.text) [.keep head] := by
      refine .keep fun head' hkind htext => ⟨head', rfl, ?_, htext⟩
      rwa [Token.isWord, hkind]
    refine ⟨_, hfirst.append hcarries ?_⟩
    rintro _ row' ⟨head', rfl, hhead', htext⟩ ⟨os', hrow', hos⟩
    obtain ⟨form, hform, hkinds, hopcode⟩ := hformed
    have hformed' : ({ i with
        operands := os'
        span := os'.getLast?.elim head'.span fun o => head'.span.join o.span } : Instruction).Formed :=
      ⟨form, hform, (kindsOf_renames hos).trans hkinds, hopcode⟩
    exact ⟨_, .code hhead' (htext ▸ hname) hrow' hformed' rfl, .instruction ⟨rfl, rfl, hos⟩⟩

theorem carries_segments (hf : NewNames f names) {segments : List (List Token)}
    {ss : List Statement} (h : List.Forall₂ Statement.Spells segments ss)
    (hplace : InPlace segments.flatten) (hknown : ∀ use ∈ labelWords ss, use.1 ∈ names) :
    ∃ es, Carries f segments.flatten (labelWords ss) (fun ts' => ∃ segments' ss',
      ts' = segments'.flatten ∧ List.Forall₂ Statement.Spells segments' ss'
        ∧ List.Forall₂ (Statement.Renames {name | name ∈ names} (newName f)) ss ss') es := by
  induction h with
  | nil => exact ⟨[], .nil ⟨[], [], rfl, .nil, .nil⟩⟩
  | @cons segment s segments ss hs _ ih =>
    have hwords : labelWords (s :: ss) = s.labelWords ++ labelWords ss := List.flatMap_cons
    rw [List.flatten_cons] at hplace ⊢
    rw [hwords] at hknown ⊢
    obtain ⟨es₁, hsegment⟩ :=
      hs.carries hf hplace.left fun use huse => hknown use (List.mem_append_left _ huse)
    obtain ⟨es₂, hsegments⟩ :=
      ih hplace.right fun use huse => hknown use (List.mem_append_right _ huse)
    refine ⟨_, hsegment.append hsegments ?_⟩
    rintro segment' _ ⟨s', hs', hsame⟩ ⟨segments', ss', rfl, hss', hsames⟩
    exact ⟨segment' :: segments', s' :: ss', rfl, .cons hs' hss', .cons hsame hsames⟩

/-- The tokens behind the program are kept. -/
theorem carries_rest (f : Text → Text) (rest : List Token) : Carries f rest []
    (fun rest' => rest'.map Token.kind = rest.map Token.kind) (rest.map Edit.keep) := by
  induction rest with
  | nil => exact .nil rfl
  | cons t rest ih =>
    have hfirst : Carries f [t] [] (fun ts' => ∃ t', ts' = [t'] ∧ t'.kind = t.kind) [.keep t] :=
      .keep fun t' hkind _ => ⟨t', rfl, hkind⟩
    refine hfirst.append ih ?_
    rintro _ rest' ⟨t', rfl, hkind⟩ hrest
    rw [List.singleton_append, List.map_cons, List.map_cons, hkind, hrest]

/-- **The tokens under new names are split as the tokens were.** -/
theorem Split.carries (hf : NewNames f names) {rest : List Token} {segments : List (List Token)}
    {ss : List Statement} (h : Split ts segments rest ss) (hplace : InPlace ts)
    (hknown : ∀ use ∈ labelWords ss, use.1 ∈ names) :
    ∃ es, Carries f ts (labelWords ss) (fun ts' => ∃ segments' rest' ss',
      Split ts' segments' rest' ss'
        ∧ List.Forall₂ (Statement.Renames {name | name ∈ names} (newName f)) ss ss') es := by
  obtain ⟨rfl, hspells, hends, hclosed⟩ := h
  obtain ⟨es, hsegments⟩ := carries_segments hf hspells hplace.left hknown
  rw [← List.append_nil (labelWords ss)]
  refine ⟨_, hsegments.append (carries_rest f rest) ?_⟩
  rintro _ rest' ⟨segments', ss', rfl, hspells', hsame⟩ hkinds
  have hends' := ends_of_isEnd (map_eq_of_forall₂ hsame fun _ _ hs => hs.isEnd_eq) hends
  refine ⟨segments', rest', ss', ⟨rfl, hspells', hends', fun t ht => ?_⟩, hsame⟩
  have hkind : (rest.map Token.kind).head? = some t.kind := by
    rw [← hkinds, List.head?_map, ht]
    rfl
  obtain ⟨u, hu, hsame⟩ := Option.map_eq_some_iff.1 (List.head?_map .. ▸ hkind)
  exact hsame ▸ hclosed u hu

end Carries

/-! ## §5. Sources under new names. -/

/-- The tokens of a source are in place. -/
theorem inPlace_lex (source : Text) : InPlace (lex source).tokens where
  wide := by
    intro t ht hword
    obtain ⟨before, spelling, rest, -, -, hspan, hspelling⟩ :=
      (tiled_lexFrom 0 source).spelled ht
    rw [(hspelling.of_isWord hword).2.2, Text.width_upper, hspan]
  ordered := by
    have hordered : (lex source).spans.Pairwise fun s t => s.stop ≤ t.start :=
      (tiling_lex source).ordered
    have htokens := List.pairwise_map.1 (List.pairwise_append.1 hordered).1
    refine htokens.imp_of_mem fun {t u} ht _ hle => ?_
    obtain ⟨before, spelling, rest, -, -, hspan, -⟩ := (tiled_lexFrom 0 source).spelled ht
    rw [hspan] at hle ⊢
    exact Nat.le_trans (Nat.le_add_right _ _) hle

/-- What gets a new name is spelled by its old one. -/
theorem Carries.slice_eq {source : Text} {f : Text → Text} {uses : List (Text × Span)}
    {post : List Token → Prop} {es : List Edit} (h : Carries f (lex source).tokens uses post es) :
    ∀ use ∈ uses, (use.2.slice source).upper = use.1 := by
  intro use huse
  rw [← h.words] at huse
  obtain ⟨e, he, hsome⟩ := List.mem_filterMap.1 huse
  cases e with
  | keep t => exact absurd hsome (by simp [Edit.use?])
  | rename t =>
    obtain rfl := Option.some.inj hsome
    have ht : t ∈ (lex source).tokens := h.tokens ▸ List.mem_map_of_mem he
    exact ((tiling_lex source).spelled t ht).of_isWord (h.fits _ he).1 |>.2.2.symm

/-- **The new source is read as the old one**, with its labels called otherwise. -/
theorem parse_renameLabels {f : Text → Text} {source : Text} {ss : List Statement}
    (hparse : parse source = .ok ss) (hf : NewNames f (labelNames ss)) :
    (∀ use ∈ labelWords ss, (use.2.slice source).upper = use.1)
      ∧ ∃ ss', parse (renameLabels f source ss) = .ok ss' ∧ List.Forall₂
        (Statement.Renames {name | name ∈ labelNames ss} (newName f)) ss ss' := by
  obtain ⟨segments, rest, hsplit⟩ := split_of_statements (lexical_lex source) hparse
  obtain ⟨es, hcarries⟩ :=
    hsplit.carries hf (inPlace_lex source) fun use huse => List.mem_map_of_mem huse
  have htiled : Tiled 0 source (es.map Edit.token) (lex source).failure :=
    hcarries.tokens ▸ tiled_lexFrom 0 source
  obtain ⟨source', ts', failure', htiled', hyields, -, htext⟩ := htiled.edit hcarries.fits 0
  have hsource : renameLabels f source ss = source' := by
    have := htext [] [] rfl
    rwa [hcarries.words] at this
  have hlex : lex source' = ⟨ts', failure'⟩ := htiled'.lexFrom_eq
  obtain ⟨segments', rest', ss', hsplit', hsame⟩ := hcarries.yields ts' hyields
  have hread : Split (lex source').tokens segments' rest' ss' := by
    rw [hlex]
    exact hsplit'
  rw [hsource]
  exact ⟨hcarries.slice_eq, ss', statements_of_split _ (lexical_lex source') hread, hsame⟩

/-- **Label names are only names.**  What spells the labels of a source can be
replaced by other names, in which no two labels are called alike: the bytes and
the addresses of the labels stay the same, or the error does, and the label it
is about has its new name. -/
theorem assemble_renameLabels {f : Text → Text} {source : Text} {ss : List Statement}
    (hparse : parse source = .ok ss) (hf : NewNames f (labelNames ss)) :
    (∀ use ∈ labelWords ss, (use.2.slice source).upper = use.1)
      ∧ Parallel (fun p p' => p'.image = p.image ∧ ∀ name ∈ labelNames ss,
          p'.labels.address? (newName f name) = p.labels.address? name)
        (fun e e' => e'.cause = e.cause.rename (newName f))
        (assemble source) (assemble (renameLabels f source ss)) := by
  obtain ⟨hwords, ss', hparse', hsame⟩ := parse_renameLabels hparse hf
  have hinj : Set.InjOn (newName f) {name | name ∈ labelNames ss} :=
    fun name hname other hother => hf.injective name hname other hother
  refine ⟨hwords, ?_⟩
  unfold assemble
  rw [hparse, hparse']
  exact (assembleStatements_renames hinj hsame).mono
    (fun p p' hp => ⟨hp.image, fun name hname => hp.labels.address?_eq hinj hname⟩) fun e e' he => he

/-- A loop with a way out. -/
def wayOut : Text := "loop: dec al\njz done\njmp Loop\ndone: end".toList

/-- A run of digits for the loop, and a directive for the way out. -/
def oddNames (name : Text) : Text :=
  if name = "LOOP".toList then "face".toList else "END".toList

theorem assemble_renameLabels_wayOut : ∃ ss, parse wayOut = .ok ss
    ∧ NewNames oddNames (labelNames ss)
    ∧ renameLabels oddNames wayOut ss = "face: dec al\njz END\njmp face\nEND: end".toList
    ∧ (∀ use ∈ labelWords ss, (use.2.slice wayOut).upper = use.1)
    ∧ Parallel (fun p p' => p'.image = p.image ∧ ∀ name ∈ labelNames ss,
        p'.labels.address? (newName oddNames name) = p.labels.address? name)
      (fun e e' => e'.cause = e.cause.rename (newName oddNames))
      (assemble wayOut) (assemble (renameLabels oddNames wayOut ss)) := by
  have hread : (parse wayOut).toOption.map (fun ss => (labelNames ss, renameLabels oddNames wayOut ss))
      = some (["LOOP".toList, "DONE".toList, "LOOP".toList, "DONE".toList],
        "face: dec al\njz END\njmp face\nEND: end".toList) := by decide +kernel
  obtain ⟨ss, hparse, hss⟩ := exists_of_toOption_map hread
  obtain ⟨hnames, htext⟩ := Prod.mk.inj hss
  have hnew : NewNames oddNames (labelNames ss) := by
    have hmem : ∀ name ∈ labelNames ss, name = "LOOP".toList ∨ name = "DONE".toList := by
      rw [hnames]
      simp
    exact
      { labelName := fun name hname => by
          rw [← isLabelName_iff]
          rcases hmem name hname with rfl | rfl <;> decide
        free := fun name hname r => by
          rcases hmem name hname with rfl | rfl <;> cases r <;> decide
        injective := fun name hname other hother => by
          rcases hmem name hname with rfl | rfl <;> rcases hmem other hother with rfl | rfl <;> decide }
  obtain ⟨hwords, hparallel⟩ := assemble_renameLabels hparse hnew
  exact ⟨ss, hparse, hnew, htext, hwords, hparallel⟩

end EightBit
