/-
  EightBit.Proofs.Program.Writing
  ───────────────────────────────
  **HOW A PROGRAM IS WRITTEN DOWN.**

  The rules by which a program becomes a text: words in any case, numbers in
  hexadecimal, addresses in brackets, strings in quotes with quote, backslash
  and newline escaped, and gaps where they may or must stand.  Behind such a
  text any other may follow that does not go on with its last word; so texts
  are joined as their tokens are, and each part is looked at once.

  Main results:
    • `Escaped.unescape_eq`, `Escaped.closes` — an escaped string is one string,
                           and it is read as what was written;
    • `WritesValue.tiled`   — an operand is written as a token that stands for it;
    • `Writes.tiled`        — a statement is written as tokens that spell it;
    • `WritesAll.tiled`     — so is a list of statements.
-/
import EightBit.Proofs.Program.Reading

namespace EightBit

/-! ## §1. Words. -/

/-- The word in upper case is not that of a register, and it has characters of
words only. -/
structure FreeWord (word : Text) : Prop where
  ne_nil : word ≠ []
  chars : ∀ c ∈ word, isWordChar c = true
  free : ∀ r : Register, word ≠ r.name

/-- A text that is a word in upper case is a word. -/
theorem isWordChar_of_upper {t word : Text} (h : t.upper = word)
    (hword : ∀ c ∈ word, isWordChar c = true) : ∀ c ∈ t, isWordChar c = true := by
  intro c hc
  rw [← isWordChar_toUpper]
  apply hword
  rw [← h]
  exact List.mem_map_of_mem hc

theorem ne_nil_of_upper {t word : Text} (h : t.upper = word) (hne : word ≠ []) : t ≠ [] := by
  intro h
  subst h
  exact hne h.symm

/-- A free word is spelled as a number or an identifier. -/
theorem FreeWord.spelling {t word rest : Text} (hword : FreeWord word) (h : t.upper = word)
    (hends : EndsWord rest) :
    ∃ kind, (kind = .number ∨ kind = .ident) ∧ Spelling kind word t rest := by
  have hne := ne_nil_of_upper h hword.ne_nil
  have hchars := isWordChar_of_upper h hword.chars
  subst h
  by_cases hdigits : ∀ c ∈ t.upper, Text.Hex.isDigit c = true
  · exact ⟨.number, .inl rfl, .word hne hchars hends (.number hword.free hdigits)⟩
  · have hsome : ∃ c ∈ t.upper, Text.Hex.isDigit c = false := by simpa using hdigits
    exact ⟨.ident, .inr rfl, .word hne hchars hends (.ident hword.free hsome)⟩

theorem Mnemonic.all_isWordChar_name (m : Mnemonic) : m.name.all isWordChar = true := by
  revert m
  decide

theorem Mnemonic.register_parse?_name (m : Mnemonic) : Register.parse? m.name = none := by
  revert m
  decide

/-- No mnemonic is the name of a register. -/
theorem Mnemonic.freeWord_name (m : Mnemonic) : FreeWord m.name where
  ne_nil := by
    intro h
    have hnil : Mnemonic.parse? [] = none := by decide
    have hparse := m.parse?_name
    rw [h, hnil] at hparse
    cases hparse
  chars := List.all_eq_true.1 m.all_isWordChar_name
  free := by
    intro r
    have hfree := Register.parse?_eq_none_iff.1 m.register_parse?_name r
    rwa [m.upper_name] at hfree

theorem Register.name_ne_nil (r : Register) : r.name ≠ [] := by cases r <;> decide

theorem Register.isWordChar_name (r : Register) : ∀ c ∈ r.name, isWordChar c = true := by
  have h : r.name.all isWordChar = true := by cases r <;> decide
  exact List.all_eq_true.1 h

theorem Register.spelling_name {r : Register} {t rest : Text} (h : t.upper = r.name)
    (hends : EndsWord rest) : Spelling (.register r) r.name t rest := by
  have hne := ne_nil_of_upper h r.name_ne_nil
  have hchars := isWordChar_of_upper h r.isWordChar_name
  rw [← h]
  exact .word hne hchars hends (.register r h)

/-! ### Runs of digits. -/

theorem HexRun.upper {t : Text} {n : Nat} (h : HexRun t n) : HexRun t.upper n := by
  induction h with
  | @digit c d hd =>
    refine .digit (c := c.toUpper) ?_
    rw [Text.Hex.digitValue?_toUpper, hd]
  | @snoc t n d c _ hd ih =>
    rw [Text.upper_append]
    refine .snoc (c := c.toUpper) ih ?_
    rw [Text.Hex.digitValue?_toUpper, hd]

theorem HexRun.isWordChar {t : Text} {n : Nat} (h : HexRun t n) : ∀ c ∈ t, isWordChar c = true :=
  fun c hc => isWordChar_of_isDigit (h.isDigit c hc)

theorem HexRun.spelling {t rest : Text} {n : Nat} (h : HexRun t n) (hends : EndsWord rest) :
    Spelling .number t.upper t rest := by
  refine .word h.ne_nil h.isWordChar hends (.number ?_ h.upper.isDigit)
  have hnone := Register.parse?_eq_none_iff.1 h.upper.parse?_eq_none
  rwa [Text.upper_upper] at hnone

/-! ## §2. Strings. -/

/-- What a backslash and a character stand for. -/
inductive EscapeOf : (mark meaning : Char) → Prop where
  | newline : EscapeOf 'n' '\n'
  | carriage : EscapeOf 'r' '\r'
  | tab : EscapeOf 't' '\t'
  | null : EscapeOf '0' '\x00'
  /-- Any other character but a newline stands for itself. -/
  | other {c : Char} : c ∉ ['n', 'r', 't', '0', '\n'] → EscapeOf c c

/-- **The body of a string**: quote, backslash and newline are escaped, and any
other character may be. -/
inductive Escaped : (value body : Text) → Prop where
  | nil : Escaped [] []
  | plain {c : Char} {value body : Text} : c ∉ ['\x22', '\\', '\n'] → Escaped value body →
    Escaped (c :: value) (c :: body)
  | escape {mark meaning : Char} {value body : Text} : EscapeOf mark meaning →
    Escaped value body → Escaped (meaning :: value) ('\\' :: mark :: body)

theorem EscapeOf.escaped_eq {mark meaning : Char} (h : EscapeOf mark meaning) :
    unescape.escaped mark = meaning ∧ mark ≠ '\n' := by
  cases h with
  | other hc =>
    simp only [List.mem_cons, List.not_mem_nil, or_false, not_or] at hc
    obtain ⟨hn, hr, ht, hnull, hline⟩ := hc
    exact ⟨by simp [unescape.escaped, hn, hr, ht, hnull], hline⟩
  | _ => decide

theorem unescape_cons {c : Char} (h : c ≠ '\\') (cs : Text) :
    unescape (c :: cs) = c :: unescape cs := by
  rw [unescape]
  · intro hback
    exact absurd hback h
  · intro d ds hback
    exact absurd hback h

/-- An escaped string is read as what was written. -/
theorem Escaped.unescape_eq {value body : Text} (h : Escaped value body) :
    unescape body = value := by
  induction h with
  | nil => rfl
  | @plain c value body hc _ ih =>
    have hne : c ≠ '\\' := by
      intro h
      subst h
      exact hc (by simp)
    rw [unescape_cons hne, ih]
  | escape hmark _ ih => rw [unescape, ih, hmark.escaped_eq.1]

/-- An escaped string ends where it was ended. -/
theorem Escaped.closes {value body before : Text} (h : Escaped value body)
    (hbefore : ¬ Escapes before) :
    '\n' ∉ body ∧ QuotesEscaped before body ∧ ¬ Escapes (before ++ body) := by
  induction h generalizing before with
  | nil => exact ⟨by simp, quotesEscaped_nil before, by rwa [List.append_nil]⟩
  | @plain c value body hc _ ih =>
    simp only [List.mem_cons, List.not_mem_nil, or_false, not_or] at hc
    obtain ⟨hquote, hback, hline⟩ := hc
    obtain ⟨hnl, hquotes, hends⟩ := ih (not_escapes_append_of_ne before hback)
    refine ⟨by simp [hnl, Ne.symm hline], ?_, by simpa using hends⟩
    rw [quotesEscaped_cons]
    exact ⟨fun h => absurd h hquote, hquotes⟩
  | @escape mark meaning value body hmark _ ih =>
    -- the backslash escapes, and what it escapes does not
    obtain ⟨hnl, hquotes, hends⟩ := ih (not_escapes_append_pair hbefore mark)
    refine ⟨by simp [hnl, Ne.symm hmark.escaped_eq.2], ?_, by simpa using hends⟩
    rw [quotesEscaped_cons, quotesEscaped_cons]
    exact ⟨fun h => absurd h (by decide), fun _ => escapes_append_backslash hbefore, hquotes⟩

theorem Escaped.spelling {value body : Text} (h : Escaped value body) (rest : Text) :
    Spelling .string body ('\x22' :: body ++ ['\x22']) rest := by
  obtain ⟨hnl, hquotes, hopen⟩ := h.closes not_escapes_nil
  exact .string hnl hquotes hopen

/-! ## §3. Addresses. -/

/-- Blanks on one line. -/
def Padding (t : Text) : Prop := ∀ c ∈ t, Text.isBlank c = true ∧ c ≠ '\n'

/-- Neither a newline nor a bracket is a blank of a line. -/
theorem Padding.not_mem {t : Text} (h : Padding t) {x : Char} (hx : x = '\n' ∨ x = ']') :
    x ∉ t := by
  intro hmem
  rcases hx with rfl | rfl
  · exact (h _ hmem).2 rfl
  · exact absurd (h _ hmem).1 (by decide)

theorem trim_padded {left body right : Text} (hleft : Padding left) (hright : Padding right)
    (hne : body ≠ []) (hbody : ∀ c ∈ body, Text.isBlank c = false) :
    Text.trim (left ++ (body ++ right)) = body := by
  have hstart : ∀ c, (body ++ right).head? = some c → Text.isBlank c = false := by
    intro c hc
    rw [List.head?_append_of_ne_nil _ hne] at hc
    exact hbody c (List.mem_of_mem_head? hc)
  have hend : ∀ c, body.reverse.head? = some c → Text.isBlank c = false := by
    intro c hc
    exact hbody c (List.mem_reverse.1 (List.mem_of_mem_head? hc))
  have hblank : ∀ c ∈ right.reverse, Text.isBlank c = true :=
    fun c hc => (hright c (List.mem_reverse.1 hc)).1
  rw [Text.trim, Text.trimLeft, dropWhile_append_of_ends (fun c hc => (hleft c hc).1) hstart,
    Text.trimRight, List.reverse_append, dropWhile_append_of_ends hblank hend, List.reverse_reverse]

/-- A word in brackets, with blanks around it, is an address. -/
theorem spelling_brackets {left word right : Text} (hleft : Padding left) (hright : Padding right)
    (hne : word ≠ []) (hword : ∀ c ∈ word, isWordChar c = true) (rest : Text) :
    Spelling .address word ('[' :: (left ++ (word ++ right)) ++ [']']) rest := by
  -- neither mark is a blank of a line or a character of words
  have hmark : ∀ x, x = '\n' ∨ x = ']' → x ∉ left ++ (word ++ right) := by
    intro x hx hmem
    have hnotWord : isWordChar x = false := by rcases hx with rfl | rfl <;> decide
    rcases List.mem_append.1 hmem with hmem | hmem
    · exact hleft.not_mem hx hmem
    rcases List.mem_append.1 hmem with hmem | hmem
    · exact ne_of_isWordChar (hword x hmem) hnotWord rfl
    · exact hright.not_mem hx hmem
  have htrim := trim_padded hleft hright hne fun c hc => isBlank_of_isWordChar (hword c hc)
  have hspelling : Spelling .address _ _ rest :=
    .address (hmark '\n' (.inl rfl)) (hmark ']' (.inr rfl))
  rwa [htrim] at hspelling

/-! ## §4. Operands. -/

/-- **How an operand is written.** -/
inductive WritesValue : Operand.Value → Text → Prop where
  | number {n : Byte} {t : Text} : HexRun t n.toNat → WritesValue (.number n) t
  | register {r : Register} {t : Text} : t.upper = r.name → WritesValue (.register r) t
  | label {name t : Text} : t.upper = name → WritesValue (.label name none) t
  | address {a : Byte} {left t right : Text} : HexRun t a.toNat → Padding left → Padding right →
    WritesValue (.address a) ('[' :: (left ++ (t ++ right)) ++ [']'])
  | registerAddress {r : Register} {left t right : Text} : t.upper = r.name → Padding left →
    Padding right → WritesValue (.registerAddress r) ('[' :: (left ++ (t ++ right)) ++ [']'])
  | string {value body : Text} : Escaped value body →
    WritesValue (.string value) ('\x22' :: body ++ ['\x22'])

/-- **A word that can name a label**: upper-case letters and underscores, and no
register. -/
structure LabelWord (name : Text) : Prop where
  ne_nil : name ≠ []
  chars : ∀ c ∈ name, c.isUpper = true ∨ c = '_'
  free : ∀ r : Register, name ≠ r.name

theorem LabelWord.freeWord {name : Text} (h : LabelWord name) : FreeWord name := by
  refine ⟨h.ne_nil, fun c hc => ?_, h.free⟩
  rcases h.chars c hc with hupper | rfl
  · simp [isWordChar, Char.isAlphanum, Text.isAlpha_iff.2 (.inl hupper)]
  · decide

theorem LabelWord.labelName {name : Text} (h : LabelWord name) : LabelName name := by
  refine ⟨h.ne_nil, fun c hc => ?_⟩
  rcases h.chars c hc with hupper | rfl
  · exact .inl (Text.isAlpha_iff.2 (.inl hupper))
  · exact .inr rfl

/-- A label stands after a jump and has a name that can be read, and a number
stands elsewhere. -/
def Suits (m : Mnemonic) : Operand.Value → Prop
  | .label name _ => m.IsJump ∧ LabelWord name
  | .number _ => ¬ m.IsJump
  | _ => True

namespace Tiled

variable {start : Nat} {gap t spelling rest text : Text} {kind : Token.Kind} {ts : List Token}
  {failure : Option SourceError}

/-- A gap more in front. -/
theorem behind_gap (hgap : Gap gap) (h : Tiled (start + gap.width) t ts failure) :
    Tiled start (gap ++ t) ts failure := by
  have hwidth : ∀ gap' : Text, start + gap.width + gap'.width = start + (gap ++ gap').width := by
    intro gap'
    rw [Text.width_append, Nat.add_assoc]
  cases h with
  | tail htrail => exact .tail (htrail.prepend hgap)
  | fault hgap' hfaulty =>
    rw [← List.append_assoc, hwidth]
    exact .fault (hgap.append hgap') hfaulty
  | token hgap' hspelling hrest =>
    rw [hwidth] at hrest ⊢
    rw [← List.append_assoc]
    exact .token (hgap.append hgap') hspelling hrest

/-- A token more in front. -/
theorem behind_token (hspelling : Spelling kind text spelling rest)
    (h : Tiled (start + spelling.width) rest ts failure) :
    ∃ span, Tiled start (spelling ++ rest) (⟨kind, text, span⟩ :: ts) failure := by
  have htiled : Tiled start ([] ++ (spelling ++ rest)) _ failure := .token .nil hspelling h
  exact ⟨_, htiled⟩

end Tiled

theorem WritesValue.spelling {m : Mnemonic} {v : Operand.Value} {t rest : Text}
    (h : WritesValue v t) (hsuits : Suits m v) (hends : EndsWord rest) :
    ∃ kind text, Spelling kind text t rest ∧ ∀ span, (Token.mk kind text span).Denotes m v := by
  cases h with
  | number hrun =>
    exact ⟨_, _, hrun.spelling hends, fun span => .number hsuits rfl hrun.upper⟩
  | register hname => exact ⟨_, _, Register.spelling_name hname hends, fun span => .register rfl⟩
  | label hname =>
    obtain ⟨hjump, hword⟩ := hsuits
    obtain ⟨kind, hkind, hspelling⟩ := hword.freeWord.spelling hname hends
    refine ⟨kind, _, hspelling, fun span => .label (t := ⟨kind, _, span⟩) hjump ?_ hword.labelName⟩
    rcases hkind with rfl | rfl <;> rfl
  | address hrun hleft hright =>
    exact ⟨_, _, spelling_brackets hleft hright hrun.ne_nil hrun.isWordChar rest,
      fun span => .address rfl hrun⟩
  | @registerAddress r _ word _ hname hleft hright =>
    exact ⟨_, _, spelling_brackets hleft hright (ne_nil_of_upper hname r.name_ne_nil)
      (isWordChar_of_upper hname r.isWordChar_name) rest, fun span => .registerAddress rfl hname⟩
  | string hescaped =>
    refine ⟨_, _, hescaped.spelling rest, fun span => ?_⟩
    rw [← hescaped.unescape_eq]
    exact .string rfl

/-- An operand is written as a token that stands for it. -/
theorem WritesValue.tiled {m : Mnemonic} {v : Operand.Value} {t rest : Text} {start : Nat}
    {ts : List Token} {failure : Option SourceError} (h : WritesValue v t) (hsuits : Suits m v)
    (hends : EndsWord rest) (hrest : Tiled (start + t.width) rest ts failure) :
    ∃ tok : Token, tok.Denotes m v ∧ Tiled start (t ++ rest) (tok :: ts) failure := by
  obtain ⟨kind, text, hspelling, hdenotes⟩ := h.spelling hsuits hends
  obtain ⟨span, htiled⟩ := Tiled.behind_token hspelling hrest
  exact ⟨⟨kind, text, span⟩, hdenotes span, htiled⟩

/-! ## §5. Statements. -/

/-- Operands behind others, each behind a comma. -/
inductive WritesFollowing : List Operand.Value → Text → Prop where
  | nil : WritesFollowing [] []
  | cons {v : Operand.Value} {vs : List Operand.Value} {gap gap' t more : Text} : Gap gap →
    Gap gap' → WritesValue v t → WritesFollowing vs more →
    WritesFollowing (v :: vs) (gap ++ ([','] ++ (gap' ++ (t ++ more))))

/-- **How a statement is written.** -/
inductive Writes : Statement → Text → Prop where
  /-- A label: its name and a colon. -/
  | label {name word gap : Text} {span : Span} : word.upper = name → Gap gap →
    Writes (.label name span) (word ++ (gap ++ [':']))
  /-- A mnemonic without operands. -/
  | bare {i : Instruction} {word : Text} : word.upper = i.mnemonic.name → i.operands = [] →
    Writes (.instruction i) word
  /-- A mnemonic with operands, behind a gap. -/
  | code {i : Instruction} {word gap t more : Text} {v : Operand.Value}
    {vs : List Operand.Value} : word.upper = i.mnemonic.name → Gap gap → gap ≠ [] →
    (i.operands.map Operand.value) = v :: vs → WritesValue v t → WritesFollowing vs more →
    Writes (.instruction i) (word ++ (gap ++ (t ++ more)))

/-- **How statements are written**, one after another with gaps between them. -/
inductive WritesAll : List Statement → Text → Prop where
  | last {s : Statement} {t tail : Text} : Writes s t → Trailing tail → WritesAll [s] (t ++ tail)
  | cons {s : Statement} {ss : List Statement} {t gap more : Text} : Writes s t → Gap gap →
    gap ≠ [] → WritesAll ss more → WritesAll (s :: ss) (t ++ (gap ++ more))

/-! ### Where words end. -/

theorem endsWord_nil : EndsWord [] := by
  intro c hc
  exact absurd hc (by simp)

theorem EndsWord.cons {c : Char} (hc : isWordChar c = false) (t : Text) : EndsWord (c :: t) := by
  intro d hd
  obtain rfl := Option.some.inj hd
  exact hc

/-- A gap ends a word. -/
theorem Gap.endsWord {gap : Text} (h : Gap gap) {t : Text} (ht : gap = [] → EndsWord t) :
    EndsWord (gap ++ t) := by
  cases h with
  | nil => exact ht rfl
  | @blank c gap hc _ =>
    refine .cons ?_ _
    cases hword : isWordChar c with
    | false => rfl
    | true => exact absurd (isBlank_of_isWordChar hword) (by simp [hc])
  | comment => exact .cons (by decide) _

theorem Trailing.endsWord {t : Text} (h : Trailing t) : EndsWord t := by
  cases h with
  | gap h =>
    have := h.endsWord (t := []) fun _ => endsWord_nil
    rwa [List.append_nil] at this
  | comment h => exact h.endsWord fun _ => .cons (by decide) _

theorem WritesFollowing.endsWord {vs : List Operand.Value} {more rest : Text}
    (h : WritesFollowing vs more) (hrest : EndsWord rest) : EndsWord (more ++ rest) := by
  cases h with
  | nil => exact hrest
  | cons hgap =>
    rw [List.append_assoc]
    exact hgap.endsWord fun _ => .cons (by decide) _

/-! ### Their tokens. -/

section Tokens

variable {m : Mnemonic} {vs : List Operand.Value} {start : Nat} {more rest : Text}
  {ts : List Token} {failure : Option SourceError}

theorem WritesFollowing.tiled (h : WritesFollowing vs more) (hsuits : ∀ v ∈ vs, Suits m v)
    (hends : EndsWord rest) (hrest : Tiled (start + more.width) rest ts failure) :
    ∃ row os, Following m row os ∧ os.map Operand.value = vs
      ∧ Tiled start (more ++ rest) (row ++ ts) failure := by
  -- from the last operand on, because a tiling grows at its front
  induction h generalizing start with
  | nil => exact ⟨[], [], .nil, rfl, hrest⟩
  | @cons v vs gap gap' t more hgap hgap' hv hmore ih =>
    simp only [Text.width_append, ← Nat.add_assoc] at hrest
    obtain ⟨row, os, hrow, rfl, htail⟩ := ih (fun v hv => hsuits v (List.mem_cons_of_mem _ hv)) hrest
    obtain ⟨tok, hdenotes, htok⟩ :=
      hv.tiled (hsuits v List.mem_cons_self) (hmore.endsWord hends) htail
    obtain ⟨span, hcomma⟩ := Tiled.behind_token .comma (htok.behind_gap hgap')
    refine ⟨⟨.comma, [','], span⟩ :: tok :: row, ⟨v, tok.span⟩ :: os, .cons rfl hdenotes hrow, rfl,
      ?_⟩
    have := hcomma.behind_gap hgap
    simpa using this

theorem FreeWord.tiled {t word : Text} (hword : FreeWord word) (h : t.upper = word)
    (hends : EndsWord rest) (hrest : Tiled (start + t.width) rest ts failure) :
    ∃ tok : Token, tok.isWord = true ∧ tok.text = word
      ∧ Tiled start (t ++ rest) (tok :: ts) failure := by
  obtain ⟨kind, hkind, hspelling⟩ := hword.spelling h hends
  obtain ⟨span, htiled⟩ := Tiled.behind_token hspelling hrest
  refine ⟨⟨kind, word, span⟩, ?_, rfl, htiled⟩
  rcases hkind with rfl | rfl <;> rfl

end Tokens

/-! ## §6. Programs. -/

/-- The operand without its place in the source. -/
def Operand.unplaced (o : Operand) : Operand := { o with span := ⟨0, 0⟩ }

/-- The instruction without its places in the source. -/
def Instruction.unplaced (i : Instruction) : Instruction :=
  { i with operands := i.operands.map Operand.unplaced, span := ⟨0, 0⟩ }

/-- The statement without its places in the source. -/
def Statement.unplaced : Statement → Statement
  | .label name _ => .label name ⟨0, 0⟩
  | .instruction i => .instruction i.unplaced

/-- Label names are words that can be read, operands are those of a form, which
selects the opcode, and no distance of a label is known. -/
def Statement.Canonical : Statement → Prop
  | .label name _ => LabelWord name
  | .instruction i => i.Formed ∧ ∀ o ∈ i.operands, ∀ name distance,
    o.value = .label name distance → LabelWord name ∧ distance = none

theorem Operand.map_unplaced (os : List Operand) :
    os.map unplaced = (os.map Operand.value).map fun v => ⟨v, ⟨0, 0⟩⟩ := by
  rw [List.map_map]
  rfl

/-- Numbers do not stand after jumps. -/
theorem Mnemonic.not_isJump_of_number_mem (m : Mnemonic) :
    ∀ f ∈ m.forms, OperandKind.number ∈ f.operands → ¬ m.IsJump := by
  cases m <;> simp [forms, IsJump]

/-- The operands of a form stand where they can be read. -/
theorem Statement.Canonical.suits {i : Instruction} (h : (Statement.instruction i).Canonical) :
    ∀ v ∈ i.operands.map Operand.value, Suits i.mnemonic v := by
  obtain ⟨⟨f, hf, hkinds, -⟩, hlabels⟩ := h
  intro v hv
  obtain ⟨o, ho, rfl⟩ := List.mem_map.1 hv
  have hkind : o.value.kind ∈ f.operands := by
    rw [← hkinds]
    exact List.mem_map.2 ⟨o, ho, rfl⟩
  cases hvalue : o.value with
  | label name distance =>
    rw [hvalue] at hkind
    exact ⟨i.mnemonic.isJump_of_label_mem f hf hkind, (hlabels o ho name distance hvalue).1⟩
  | number n =>
    rw [hvalue] at hkind
    exact i.mnemonic.not_isJump_of_number_mem f hf hkind
  | _ => trivial

/-- An instruction is spelled by the tokens of its mnemonic and of its
operands, whatever their places. -/
theorem exists_spells {i : Instruction} {head : Token} {row : List Token} {os : List Operand}
    (hhead : head.isWord = true) (hname : head.text = i.mnemonic.name) (hformed : i.Formed)
    (hrow : OperandRow i.mnemonic row os)
    (hvalues : os.map Operand.value = i.operands.map Operand.value) :
    ∃ s', Statement.Spells (head :: row) s' ∧ s'.unplaced = (Statement.instruction i).unplaced := by
  obtain ⟨f, hf, hkinds, hopcode⟩ := hformed
  have hkinds' : kindsOf os = f.operands := by
    have hmap : ∀ os : List Operand, kindsOf os = (os.map Operand.value).map Operand.Value.kind := by
      intro os
      rw [List.map_map]
      rfl
    rw [hmap, hvalues, ← hmap]
    exact hkinds
  -- the tokens give their own places to the operands and to the instruction
  refine ⟨.instruction { i with
      operands := os
      span := os.getLast?.elim head.span (fun o => head.span.join o.span) },
    .code hhead ?_ hrow ⟨f, hf, hkinds', hopcode⟩ rfl, ?_⟩
  · rw [hname, Mnemonic.upper_name]
  · simp only [Statement.unplaced, Instruction.unplaced, Operand.map_unplaced, hvalues]

section Statements

variable {s : Statement} {start : Nat} {t rest : Text} {ts : List Token}
  {failure : Option SourceError}

/-- A statement is written as tokens that spell it. -/
theorem Writes.tiled (h : Writes s t) (hs : s.Canonical) (hends : EndsWord rest)
    (hrest : Tiled (start + t.width) rest ts failure) : ∃ segment s', Statement.Spells segment s'
      ∧ s'.unplaced = s.unplaced ∧ Tiled start (t ++ rest) (segment ++ ts) failure := by
  cases h with
  | @label name word gap span hname hgap =>
    simp only [Text.width_append, ← Nat.add_assoc] at hrest
    obtain ⟨colonSpan, hcolon⟩ := Tiled.behind_token .colon hrest
    have hcolonEnds : EndsWord (gap ++ ([':'] ++ rest)) :=
      hgap.endsWord fun _ => .cons (by decide) _
    obtain ⟨tok, htok, htext, htiled⟩ :=
      hs.freeWord.tiled hname hcolonEnds (hcolon.behind_gap hgap)
    refine ⟨[tok, ⟨.colon, [':'], colonSpan⟩], _, .label htok (htext ▸ hs.labelName) rfl, ?_, ?_⟩
    · rw [htext]
      rfl
    · simpa using htiled
  | @bare i word hname hnone =>
    obtain ⟨tok, htok, htext, htiled⟩ := i.mnemonic.freeWord_name.tiled hname hends hrest
    obtain ⟨s', hspells, hsame⟩ := exists_spells htok htext hs.1 .nil (by rw [hnone])
    exact ⟨[tok], s', hspells, hsame, htiled⟩
  | @code i word gap t more v vs hname hgap hne hvalues hv hmore =>
    have hsuits := hs.suits
    rw [hvalues] at hsuits
    simp only [Text.width_append, ← Nat.add_assoc] at hrest
    obtain ⟨row, os, hrow, hos, htail⟩ :=
      hmore.tiled (fun v hv => hsuits v (List.mem_cons_of_mem _ hv)) hends hrest
    obtain ⟨operand, hdenotes, hoperand⟩ :=
      hv.tiled (hsuits v List.mem_cons_self) (hmore.endsWord hends) htail
    -- without this gap the mnemonic would run into its first operand
    have hgapEnds : EndsWord (gap ++ (t ++ (more ++ rest))) :=
      hgap.endsWord fun hnil => absurd hnil hne
    obtain ⟨tok, htok, htext, htiled⟩ :=
      i.mnemonic.freeWord_name.tiled hname hgapEnds (hoperand.behind_gap hgap)
    have hall : OperandRow i.mnemonic (operand :: row) (⟨v, operand.span⟩ :: os) :=
      .cons hdenotes hrow
    obtain ⟨s', hspells, hsame⟩ :=
      exists_spells htok htext hs.1 hall (by rw [hvalues, List.map_cons, hos])
    exact ⟨tok :: operand :: row, s', hspells, hsame, by simpa using htiled⟩

/-- **Statements are written as tokens that spell them.** -/
theorem WritesAll.tiled {ss : List Statement} (h : WritesAll ss t) (hss : ∀ s ∈ ss, s.Canonical) :
    ∃ segments ss', List.Forall₂ Statement.Spells segments ss'
      ∧ ss'.map Statement.unplaced = ss.map Statement.unplaced
      ∧ Tiled start t segments.flatten none := by
  -- from the last statement on, as for operands
  induction h generalizing start with
  | @last s t tail hs htail =>
    obtain ⟨segment, s', hspells, hsame, htiled⟩ :=
      hs.tiled (hss s List.mem_cons_self) htail.endsWord (.tail htail)
    refine ⟨[segment], [s'], .cons hspells .nil, ?_, ?_⟩
    · rw [List.map_singleton, hsame, List.map_singleton]
    · simpa using htiled
  | @cons s ss t gap more hs hgap hne _ ih =>
    obtain ⟨segments, ss', hall, hsames, hmore⟩ := ih fun s hs => hss s (List.mem_cons_of_mem _ hs)
    have hends : EndsWord (gap ++ more) := hgap.endsWord fun hnil => absurd hnil hne
    obtain ⟨segment, s', hspells, hsame, htiled⟩ :=
      hs.tiled (hss s List.mem_cons_self) hends (hmore.behind_gap hgap)
    refine ⟨segment :: segments, s' :: ss', .cons hspells hall, ?_, htiled⟩
    rw [List.map_cons, List.map_cons, hsame, hsames]

end Statements

end EightBit
