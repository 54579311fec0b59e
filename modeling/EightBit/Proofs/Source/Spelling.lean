/-
  EightBit.Proofs.Source.Spelling
  ───────────────────────────────
  **HOW TOKENS ARE SPELLED.**

  The lexical rules of a source, said without its reader: what a gap is made
  of, how a token of each kind is spelled in front of the text behind it, and
  what begins no token.  What is read at the head of a text is then decided by
  these rules.

  Main results:
    • `trailing_or_item`  — a text is all gap, or has an item behind a gap;
    • `splitGap_of_gap`   — the reader of gaps stops at the item;
    • `scan_eq_token_iff` — a token is read exactly where one is spelled;
    • `scan_eq_fault_iff` — none is read exactly where none is spelled.
-/
import EightBit.Source.Lexer
import Mathlib.Data.List.Forall2

namespace EightBit

/-! ## §1. Gaps. -/

/-- Blanks and comments between two tokens.  A comment runs from a semicolon to
the end of its line. -/
inductive Gap : Text → Prop where
  | nil : Gap []
  | blank {c : Char} {gap : Text} : Text.isBlank c = true → Gap gap → Gap (c :: gap)
  | comment {body gap : Text} : '\n' ∉ body → Gap gap → Gap (';' :: (body ++ '\n' :: gap))

/-- Blanks and comments behind the last token, where a comment may run to the
end of the source. -/
inductive Trailing : Text → Prop where
  | gap {gap : Text} : Gap gap → Trailing gap
  | comment {gap body : Text} : Gap gap → '\n' ∉ body → Trailing (gap ++ ';' :: body)

/-- At the head of the text stands neither a blank nor a comment. -/
def BeginsItem (t : Text) : Prop := ∃ c cs, t = c :: cs ∧ c ≠ ';' ∧ Text.isBlank c = false

theorem isBlank_semicolon : Text.isBlank ';' = false := by decide

namespace Gap

theorem append {gap gap' : Text} (h : Gap gap) (h' : Gap gap') : Gap (gap ++ gap') := by
  induction h with
  | nil => exact h'
  | blank hc _ ih => exact .blank hc ih
  | comment hbody _ ih =>
    rw [List.cons_append, List.append_assoc, List.cons_append]
    exact .comment hbody ih

end Gap

theorem Trailing.prepend {gap t : Text} (h : Gap gap) (ht : Trailing t) : Trailing (gap ++ t) := by
  cases ht with
  | gap ht => exact .gap (h.append ht)
  | comment ht hbody =>
    rw [← List.append_assoc]
    exact .comment (h.append ht) hbody

/-- A text is all gap, or an item stands behind a gap. -/
theorem trailing_or_item (t : Text) :
    Trailing t ∨ ∃ gap item, t = gap ++ item ∧ Gap gap ∧ BeginsItem item := by
  -- on the length and not on the text, because a comment is passed as a whole
  induction hn : t.length using Nat.strongRecOn generalizing t with
  | _ n ih =>
    cases t with
    | nil => exact .inl (.gap .nil)
    | cons c cs =>
      rw [List.length_cons] at hn
      by_cases hc : c = ';'
      · subst hc
        by_cases hline : '\n' ∈ cs
        -- only a comment that ends with its line can have an item behind it
        · obtain ⟨body, rest, rfl, hbody⟩ := List.eq_append_cons_of_mem hline
          rw [List.length_append, List.length_cons] at hn
          have hgap : Gap (';' :: (body ++ ['\n'])) := .comment hbody .nil
          have heq : ';' :: (body ++ '\n' :: rest) = ';' :: (body ++ ['\n']) ++ rest := by simp
          rw [heq]
          rcases ih rest.length (by omega) rest rfl with htrail | ⟨gap, item, rfl, hgap', hitem⟩
          · exact .inl (htrail.prepend hgap)
          · exact .inr ⟨_, item, (List.append_assoc ..).symm, hgap.append hgap', hitem⟩
        · exact .inl (.comment .nil hline)
      · cases hblank : Text.isBlank c with
        | false => exact .inr ⟨[], c :: cs, rfl, .nil, c, cs, rfl, hc, hblank⟩
        | true =>
          have hgap : Gap [c] := .blank hblank .nil
          rcases ih cs.length (by omega) cs rfl with htrail | ⟨gap, item, rfl, hgap', hitem⟩
          · exact .inl (htrail.prepend hgap)
          · exact .inr ⟨c :: gap, item, rfl, hgap.append hgap', hitem⟩

/-! ### The reader of gaps. -/

theorem splitGap_comment {body : Text} (hbody : '\n' ∉ body) (t : Text) :
    splitGap true (body ++ '\n' :: t)
      = (body ++ '\n' :: (splitGap false t).1, (splitGap false t).2) := by
  induction body with
  | nil => simp [splitGap]
  | cons c body ih =>
    rw [List.mem_cons, not_or] at hbody
    have hc : ¬ c = '\n' := fun h => hbody.1 h.symm
    simp [splitGap, hc, ih hbody.2]

theorem splitGap_last_comment {body : Text} (hbody : '\n' ∉ body) :
    splitGap true body = (body, []) := by
  induction body with
  | nil => rfl
  | cons c body ih =>
    rw [List.mem_cons, not_or] at hbody
    have hc : ¬ c = '\n' := fun h => hbody.1 h.symm
    simp [splitGap, hc, ih hbody.2]

theorem splitGap_append_of_gap {gap : Text} (h : Gap gap) (t : Text) :
    splitGap false (gap ++ t) = (gap ++ (splitGap false t).1, (splitGap false t).2) := by
  induction h with
  | nil => rfl
  | @blank c gap hc _ ih =>
    have hne : ¬ c = ';' := by
      intro h
      subst h
      exact absurd hc (by simp [isBlank_semicolon])
    simp [splitGap, hne, hc, ih]
  | comment hbody _ ih => simp [splitGap, splitGap_comment hbody, ih]

/-- The reader of gaps stops at the item. -/
theorem splitGap_of_gap {gap item : Text} (h : Gap gap) (hitem : BeginsItem item) :
    splitGap false (gap ++ item) = (gap, item) := by
  obtain ⟨c, cs, rfl, hc, hblank⟩ := hitem
  rw [splitGap_append_of_gap h]
  simp [splitGap, hc, hblank]

theorem splitGap_of_trailing {t : Text} (h : Trailing t) : splitGap false t = (t, []) := by
  cases h with
  | gap h =>
    have := splitGap_append_of_gap h []
    simpa [splitGap] using this
  | comment h hbody =>
    rw [splitGap_append_of_gap h]
    simp [splitGap, splitGap_last_comment hbody]

/-! ## §2. Where a string ends. -/

/-- The number of backslashes at the end of the text. -/
def backslashes (t : Text) : Nat := (t.reverse.takeWhile (· = '\\')).length

/-- The text ends in an odd run of backslashes, so that a quote behind it does
not close a string. -/
def Escapes (t : Text) : Prop := backslashes t % 2 = 1

instance (t : Text) : Decidable (Escapes t) := inferInstanceAs (Decidable (_ = _))

/-- Every quote in the text, which stands behind `before`, is escaped. -/
def QuotesEscaped (before t : Text) : Prop :=
  ∀ front back, t = front ++ '\x22' :: back → Escapes (before ++ front)

theorem not_escapes_nil : ¬ Escapes [] := by decide

/-- One more character: only a backslash that is not escaped itself escapes
what follows. -/
theorem escapes_append_singleton (t : Text) (c : Char) :
    Escapes (t ++ [c]) ↔ c = '\\' ∧ ¬ Escapes t := by
  unfold Escapes backslashes
  rw [List.reverse_append, List.reverse_singleton, List.singleton_append, List.takeWhile_cons]
  by_cases hc : c = '\\'
  · simp only [hc, decide_true, if_true, List.length_cons, true_and]
    omega
  · simp [hc]

theorem escapes_append_backslash {before : Text} (h : ¬ Escapes before) :
    Escapes (before ++ ['\\']) :=
  (escapes_append_singleton ..).2 ⟨rfl, h⟩

theorem not_escapes_append_of_ne (before : Text) {c : Char} (hc : c ≠ '\\') :
    ¬ Escapes (before ++ [c]) :=
  fun h => hc ((escapes_append_singleton ..).1 h).1

/-- What is escaped does not escape. -/
theorem not_escapes_append_pair {before : Text} (h : ¬ Escapes before) (c : Char) :
    ¬ Escapes (before ++ ['\\'] ++ [c]) :=
  fun hpair => ((escapes_append_singleton ..).1 hpair).2 (escapes_append_backslash h)

theorem quotesEscaped_nil (before : Text) : QuotesEscaped before [] := by
  intro front back h
  exact absurd h (by simp)

theorem quotesEscaped_cons (before t : Text) (c : Char) : QuotesEscaped before (c :: t) ↔
    (c = '\x22' → Escapes before) ∧ QuotesEscaped (before ++ [c]) t := by
  constructor
  · intro h
    refine ⟨fun hc => ?_, fun front back ht => ?_⟩
    · have := h [] t (by rw [hc]; rfl)
      rwa [List.append_nil] at this
    · have := h (c :: front) back (by rw [ht]; rfl)
      rwa [List.append_assoc, List.singleton_append]
  · intro h front back heq
    obtain ⟨hhead, htail⟩ := h
    cases front with
    | nil =>
      rw [List.append_nil]
      exact hhead (List.cons.inj heq).1
    | cons d front =>
      obtain ⟨rfl, ht⟩ := List.cons.inj heq
      have := htail front back ht
      rwa [List.append_assoc, List.singleton_append] at this

theorem newline_not_mem_restOfLine (t : Text) : '\n' ∉ restOfLine t := by
  intro h
  have hall := List.all_eq_true.1 (List.all_takeWhile (p := fun c => decide (c ≠ '\n')) (l := t)) _ h
  simp at hall

/-- The state of the reader of a string behind one more character. -/
theorem decide_escapes_append_singleton (before : Text) (c : Char) :
    decide (Escapes (before ++ [c])) = (decide (c = '\\') && !decide (Escapes before)) := by
  rw [Bool.eq_iff_iff]
  simp [escapes_append_singleton]

/-- A string ends at its first quote that is not escaped, on the same line. -/
theorem stringBody?_eq_some_iff {before t body rest : Text} :
    stringBody? (decide (Escapes before)) t = some (body, rest) ↔ body ++ '\x22' :: rest = t
      ∧ '\n' ∉ body ∧ QuotesEscaped before body ∧ ¬ Escapes (before ++ body) := by
  induction t generalizing before body rest with
  | nil => simp [stringBody?]
  | cons c cs ih =>
    rw [stringBody?]
    -- the reader stops at a newline, at a closing quote, and nowhere else
    by_cases hline : c = '\n'
    · subst hline
      cases body with
      | nil => simp
      | cons d body => simp +contextual
    · by_cases hclose : c = '\x22' ∧ ¬ Escapes before
      · obtain ⟨rfl, hopen⟩ := hclose
        cases body with
        | nil => simp [hopen, quotesEscaped_nil, eq_comm]
        | cons d body => simp +contextual [hopen, quotesEscaped_cons]
      · rw [if_neg hline, if_neg (by simpa using hclose), ← decide_escapes_append_singleton]
        simp only [Option.map_eq_some_iff, Prod.exists, Prod.mk.injEq]
        cases body with
        | nil =>
          -- the string would end here, but the quote is escaped
          constructor
          · intro h
            obtain ⟨tail, _, -, heq, -⟩ := h
            exact absurd heq (by simp)
          · intro h
            obtain ⟨heq, -, -, hopen⟩ := h
            rw [List.append_nil] at hopen
            exact absurd ⟨(List.cons.inj heq).1.symm, hopen⟩ hclose
        | cons d body =>
          have happend : before ++ d :: body = before ++ [d] ++ body := by simp
          rw [happend]
          constructor
          · intro h
            obtain ⟨tail, _, htail, heq, rfl⟩ := h
            obtain ⟨rfl, rfl⟩ := List.cons.inj heq
            obtain ⟨rfl, hnl, hquotes, hopen⟩ := ih.1 htail
            refine ⟨rfl, by simp [hnl, Ne.symm hline], ?_, hopen⟩
            rw [quotesEscaped_cons]
            exact ⟨fun hd => by_contra fun hne => hclose ⟨hd, hne⟩, hquotes⟩
          · intro h
            obtain ⟨heq, hnl, hquotes, hopen⟩ := h
            obtain ⟨rfl, htail⟩ := List.cons.inj heq
            rw [List.mem_cons, not_or] at hnl
            have hinner := ih.2 ⟨htail, hnl.2, ((quotesEscaped_cons ..).1 hquotes).2, hopen⟩
            exact ⟨body, rest, hinner, rfl, rfl⟩

theorem restOfLine_cons {c : Char} (h : c ≠ '\n') (cs : Text) :
    restOfLine (c :: cs) = c :: restOfLine cs := by
  simp [restOfLine, h]

/-- A string does not end on its line when all quotes there are escaped. -/
theorem stringBody?_eq_none_iff {before t : Text} :
    stringBody? (decide (Escapes before)) t = none ↔ QuotesEscaped before (restOfLine t) := by
  induction t generalizing before with
  | nil => simp [stringBody?, restOfLine, quotesEscaped_nil]
  | cons c cs ih =>
    rw [stringBody?]
    by_cases hline : c = '\n'
    · simp [hline, restOfLine, quotesEscaped_nil]
    · rw [if_neg hline, restOfLine_cons hline, quotesEscaped_cons, ← ih,
        ← decide_escapes_append_singleton]
      by_cases hclose : c = '\x22' ∧ ¬ Escapes before
      · simp [hclose.1, hclose.2]
      -- the character may be a quote only if it is escaped
      · rw [if_neg (by simpa using hclose), Option.map_eq_none_iff]
        exact ⟨fun h => ⟨fun hc => by_contra fun hne => hclose ⟨hc, hne⟩, h⟩, And.right⟩

/-! ## §3. Where an address ends. -/

/-- An address ends at its first closing bracket, on the same line. -/
theorem addressBody?_eq_some_iff {t body rest : Text} :
    addressBody? t = some (body, rest) ↔ body ++ ']' :: rest = t ∧ '\n' ∉ body ∧ ']' ∉ body := by
  constructor
  · intro h
    refine ⟨addressBody?_append h, ?_⟩
    -- along the text: each character that is passed is neither mark
    induction t generalizing body rest with
    | nil => exact absurd h (by simp [addressBody?])
    | cons c cs ih =>
      rw [addressBody?] at h
      split at h
      · exact absurd h (by simp)
      · split at h
        · simp_all
        · obtain ⟨⟨tail, rest'⟩, htail, heq⟩ := Option.map_eq_some_iff.1 h
          obtain ⟨rfl, rfl⟩ := Prod.mk.inj heq
          obtain ⟨hnl, hbracket⟩ := ih htail
          simp_all [eq_comm]
  · intro h
    obtain ⟨rfl, hnl, hbracket⟩ := h
    induction body with
    | nil => simp [addressBody?]
    | cons c body ih =>
      rw [List.mem_cons, not_or] at hnl hbracket
      simp [addressBody?, Ne.symm hnl.1, Ne.symm hbracket.1, ih hnl.2 hbracket.2]

theorem addressBody?_eq_none_iff {t : Text} : addressBody? t = none ↔ ']' ∉ restOfLine t := by
  induction t with
  | nil => simp [addressBody?, restOfLine]
  | cons c cs ih =>
    rw [addressBody?]
    by_cases hline : c = '\n'
    · simp [hline, restOfLine]
    · rw [if_neg hline, restOfLine_cons hline, List.mem_cons]
      by_cases hclose : c = ']'
      · simp [hclose]
      · simp [hclose, ih, Ne.symm hclose]

/-! ## §4. Tokens. -/

/-- A text in upper case stays as it is. -/
theorem Text.upper_upper (t : Text) : t.upper.upper = t.upper := by
  rw [upper, upper, List.map_map]
  refine List.map_congr_left fun c _ => ?_
  show c.toUpper.toUpper = c.toUpper
  rcases toUpper_cases c.toUpper with ⟨hlo, hhi, -⟩ | ⟨-, hsame⟩
  · rcases toUpper_cases c with ⟨-, hmax, hc⟩ | ⟨hrange, hsame⟩
    · omega
    · rw [hsame] at hlo hhi
      exact absurd ⟨hlo, hhi⟩ hrange
  · exact hsame

/-- The characters of words by number: digits, upper case, underscore, lower
case. -/
theorem isWordChar_iff {c : Char} : isWordChar c = true ↔ (48 ≤ c.toNat ∧ c.toNat ≤ 57)
    ∨ (65 ≤ c.toNat ∧ c.toNat ≤ 90) ∨ c.toNat = 95 ∨ (97 ≤ c.toNat ∧ c.toNat ≤ 122) := by
  have hunderscore : c = '_' ↔ c.toNat = 95 := by
    constructor
    · intro h
      subst h
      rfl
    · intro h
      exact Char.ext (UInt32.toNat_inj.1 h)
  simp only [isWordChar, Char.isAlphanum, Char.isDigit, Bool.or_eq_true, Bool.and_eq_true,
    Text.isAlpha_iff, Text.isUpper_iff, Text.isLower_iff, decide_eq_true_eq,
    UInt32.le_iff_toNat_le, hunderscore]
  show (((65 ≤ c.toNat ∧ c.toNat ≤ 90) ∨ (97 ≤ c.toNat ∧ c.toNat ≤ 122))
    ∨ (48 ≤ c.toNat ∧ c.toNat ≤ 57)) ∨ c.toNat = 95 ↔ _
  omega

theorem isWordChar_toUpper (c : Char) : isWordChar c.toUpper = isWordChar c := by
  rcases Text.toUpper_cases c with ⟨hlo, hhi, hc⟩ | ⟨-, hsame⟩
  · rw [isWordChar_iff.2 (by omega), isWordChar_iff.2 (by omega)]
  · rw [hsame]

theorem isBlank_of_isWordChar {c : Char} (h : isWordChar c = true) : Text.isBlank c = false := by
  -- by number: blanks are below the digits or above the letters
  have hc := isWordChar_iff.1 h
  rw [Bool.eq_false_iff]
  intro hblank
  simp only [Text.isBlank, Bool.or_eq_true, Bool.and_eq_true, decide_eq_true_eq, beq_iff_eq]
    at hblank
  omega

/-- A character of a word is none of the marks. -/
theorem ne_of_isWordChar {c x : Char} (hc : isWordChar c = true) (hx : isWordChar x = false) :
    c ≠ x := by
  intro h
  subst h
  exact absurd hc (by simp [hx])

theorem beginsItem_of_isWordChar {c : Char} (h : isWordChar c = true) (cs : Text) :
    BeginsItem (c :: cs) :=
  ⟨c, cs, rfl, ne_of_isWordChar h (by decide), isBlank_of_isWordChar h⟩

theorem isWordChar_of_isDigit {c : Char} (h : Text.Hex.isDigit c = true) : isWordChar c = true := by
  rw [Text.Hex.isDigit, Text.Hex.digitValue?_eq] at h
  rw [isWordChar_iff]
  split at h
  · omega
  split at h
  · omega
  split at h
  · omega
  · exact absurd h (by simp)

/-- Of which kind a word is, given in upper case: it names a register, else it
is a number if it has hexadecimal digits only. -/
inductive WordKind (word : Text) : Token.Kind → Prop where
  | register (r : Register) : word = r.name → WordKind word (.register r)
  | number : (∀ r : Register, word ≠ r.name) → (∀ c ∈ word, Text.Hex.isDigit c = true) →
    WordKind word .number
  | ident : (∀ r : Register, word ≠ r.name) → (∃ c ∈ word, Text.Hex.isDigit c = false) →
    WordKind word .ident

/-- The text does not go on with a character of a word. -/
def EndsWord (rest : Text) : Prop := ∀ c, rest.head? = some c → isWordChar c = false

/-- The text does not go on with the line. -/
def EndsLine (rest : Text) : Prop := ∀ c, rest.head? = some c → c = '\n'

/-- **How a token is spelled**, in front of `rest`: its kind, its text and its
spelling. -/
inductive Spelling : (kind : Token.Kind) → (text spelling rest : Text) → Prop where
  | colon {rest : Text} : Spelling .colon [':'] [':'] rest
  | comma {rest : Text} : Spelling .comma [','] [','] rest
  /-- A bracket, a body, and the first closing bracket, on one line. -/
  | address {body rest : Text} : '\n' ∉ body → ']' ∉ body →
    Spelling .address (Text.trim body) ('[' :: body ++ [']']) rest
  /-- A quote, a body, and the first quote that is not escaped, on one line. -/
  | string {body rest : Text} : '\n' ∉ body → QuotesEscaped [] body → ¬ Escapes body →
    Spelling .string body ('\x22' :: body ++ ['\x22']) rest
  /-- A run of letters, digits and underscores that ends where it must. -/
  | word {kind : Token.Kind} {word rest : Text} : word ≠ [] → (∀ c ∈ word, isWordChar c = true) →
    EndsWord rest → WordKind word.upper kind → Spelling kind word.upper word rest

/-- **What begins no token**, in front of `rest`: the cause of the fault and the
part of the text that is to blame. -/
inductive Faulty : (cause : SourceError.Cause) → (blamed rest : Text) → Prop where
  /-- A bracket that is not closed on its line. -/
  | address {line rest : Text} : '\n' ∉ line → EndsLine rest → ']' ∉ line →
    Faulty .unterminatedAddress ('[' :: line) rest
  /-- A quote that is not closed on its line. -/
  | string {line rest : Text} : '\n' ∉ line → EndsLine rest → QuotesEscaped [] line →
    Faulty .unterminatedString ('\x22' :: line) rest
  /-- A character of none of the tokens, and of no gap. -/
  | character {c : Char} {rest : Text} : c ∉ [':', ',', '[', '\x22', ';'] → isWordChar c = false →
    Text.isBlank c = false → Faulty (.unexpectedCharacter c) [c] rest

/-! ### The reader of tokens. -/

theorem ofWord_eq_iff {word : Text} {kind : Token.Kind} (hupper : word.upper = word) :
    Token.Kind.ofWord word = kind ↔ WordKind word kind := by
  have hnone : Register.parse? word = none ↔ ∀ r : Register, word ≠ r.name := by
    rw [Register.parse?_eq_none_iff, hupper]
  unfold Token.Kind.ofWord
  -- registers first, then the digits decide
  cases hr : Register.parse? word with
  | some r =>
    have hname : word = r.name := by rw [← hupper, Register.parse?_eq_some_iff.1 hr]
    constructor
    · intro h
      subst h
      exact .register r hname
    · intro h
      rcases h with ⟨q, hq⟩ | ⟨hno, -⟩ | ⟨hno, -⟩
      · rw [hq, Register.parse?_name] at hr
        rw [Option.some.inj hr]
      · exact absurd hname (hno r)
      · exact absurd hname (hno r)
  | none =>
    have hno := hnone.1 hr
    by_cases hdigits : ∀ c ∈ word, Text.Hex.isDigit c = true
    · have hall : word.all Text.Hex.isDigit = true := List.all_eq_true.2 hdigits
      simp only [hall, if_true]
      constructor
      · intro h
        subst h
        exact .number hno hdigits
      · intro h
        rcases h with ⟨q, hq⟩ | _ | ⟨-, c, hc, hdigit⟩
        · exact absurd hq (hno q)
        · rfl
        · exact absurd (hdigits c hc) (by simp [hdigit])
    · have hsome : ∃ c ∈ word, Text.Hex.isDigit c = false := by simpa using hdigits
      have hall : ¬ word.all Text.Hex.isDigit = true := by rwa [List.all_eq_true]
      simp only [hall]
      constructor
      · intro h
        subst h
        exact .ident hno hsome
      · intro h
        rcases h with ⟨q, hq⟩ | ⟨-, h⟩ | _
        · exact absurd hq (hno q)
        · exact absurd h hdigits
        · rfl

theorem takeWhile_append_of_ends {p : Char → Bool} {t rest : Text} (ht : ∀ c ∈ t, p c = true)
    (hrest : ∀ c, rest.head? = some c → p c = false) : (t ++ rest).takeWhile p = t := by
  rw [List.takeWhile_append_of_pos ht]
  cases rest with
  | nil => simp
  | cons c rest => simp [hrest c rfl]

theorem dropWhile_append_of_ends {p : Char → Bool} {t rest : Text} (ht : ∀ c ∈ t, p c = true)
    (hrest : ∀ c, rest.head? = some c → p c = false) : (t ++ rest).dropWhile p = rest := by
  rw [List.dropWhile_append_of_pos ht]
  cases rest with
  | nil => simp
  | cons c rest => simp [hrest c rfl]

theorem head?_dropWhile_eq_false {p : Char → Bool} {t : Text} {c : Char}
    (h : (t.dropWhile p).head? = some c) : p c = false := by
  simpa [h] using List.head?_dropWhile_not p t

theorem scan_word {c : Char} (hc : isWordChar c = true) (cs : Text) :
    scan c cs = .token (.ofWord (Text.upper (c :: cs.takeWhile isWordChar)))
      (Text.upper (c :: cs.takeWhile isWordChar)) (c :: cs.takeWhile isWordChar)
      (cs.dropWhile isWordChar) := by
  have hcolon : c ≠ ':' := ne_of_isWordChar hc (by decide)
  have hcomma : c ≠ ',' := ne_of_isWordChar hc (by decide)
  have hbracket : c ≠ '[' := ne_of_isWordChar hc (by decide)
  have hquote : c ≠ '\x22' := ne_of_isWordChar hc (by decide)
  simp [scan, hcolon, hcomma, hbracket, hquote, hc]

/-- A token is read where one is spelled. -/
theorem scan_of_spelling {kind : Token.Kind} {text spelling rest : Text} {c : Char} {cs : Text}
    (h : Spelling kind text spelling rest) (heq : spelling ++ rest = c :: cs) :
    scan c cs = .token kind text spelling rest := by
  -- each spelling begins with its own mark, so the reader takes its branch
  cases h with
  | colon =>
    obtain ⟨rfl, rfl⟩ := List.cons.inj heq
    rfl
  | comma =>
    obtain ⟨rfl, rfl⟩ := List.cons.inj heq
    rfl
  | @address body _ hnl hbracket =>
    rw [List.cons_append, List.cons_append, List.append_assoc, List.singleton_append] at heq
    obtain ⟨rfl, hcs⟩ := List.cons.inj heq
    have hbody : addressBody? cs = some (body, rest) :=
      addressBody?_eq_some_iff.2 ⟨hcs, hnl, hbracket⟩
    simp [scan, hbody]
  | string hnl hquotes hopen =>
    rw [List.cons_append, List.cons_append, List.append_assoc, List.singleton_append] at heq
    obtain ⟨rfl, hcs⟩ := List.cons.inj heq
    have hbody : stringBody? (decide (Escapes [])) cs = some (text, rest) :=
      stringBody?_eq_some_iff.2 ⟨hcs, hnl, hquotes, hopen⟩
    rw [decide_eq_false not_escapes_nil] at hbody
    simp [scan, hbody]
  | word hne hchars hends hkind =>
    obtain ⟨d, tail, rfl⟩ := List.exists_cons_of_ne_nil hne
    rw [List.cons_append] at heq
    obtain ⟨rfl, rfl⟩ := List.cons.inj heq
    have htail : ∀ c ∈ tail, isWordChar c = true := fun c hc => hchars c (List.mem_cons_of_mem d hc)
    rw [scan_word (hchars d List.mem_cons_self), takeWhile_append_of_ends htail hends,
      dropWhile_append_of_ends htail hends, (ofWord_eq_iff (Text.upper_upper _)).2 hkind]

theorem spelling_of_scan {kind : Token.Kind} {text spelling rest : Text} {c : Char} {cs : Text}
    (h : scan c cs = .token kind text spelling rest) : Spelling kind text spelling rest := by
  by_cases hword : isWordChar c = true
  · rw [scan_word hword] at h
    injection h with hkind htext hspelling hrest
    subst htext hspelling hrest
    refine .word (by simp) (fun d hd => ?_) (fun d hd => head?_dropWhile_eq_false hd)
      ((ofWord_eq_iff (Text.upper_upper _)).1 hkind)
    rcases List.mem_cons.1 hd with rfl | hd
    · exact hword
    · exact List.all_eq_true.1 List.all_takeWhile d hd
  · unfold scan at h
    -- one branch of the reader for each spelling; its faults give no token
    split at h
    · next hc =>
      injection h with hkind htext hspelling hrest
      subst hc hkind htext hspelling hrest
      exact .colon
    split at h
    · next hc =>
      injection h with hkind htext hspelling hrest
      subst hc hkind htext hspelling hrest
      exact .comma
    split at h
    · next hc =>
      split at h
      · next body rest' hbody =>
        obtain ⟨-, hnl, hbracket⟩ := addressBody?_eq_some_iff.1 hbody
        injection h with hkind htext hspelling hrest
        subst hc hkind htext hspelling hrest
        exact .address hnl hbracket
      · exact absurd h (by simp)
    split at h
    · next hc =>
      split at h
      · next body rest' hbody =>
        rw [← decide_eq_false not_escapes_nil] at hbody
        obtain ⟨-, hnl, hquotes, hopen⟩ := stringBody?_eq_some_iff.1 hbody
        injection h with hkind htext hspelling hrest
        subst hc hkind htext hspelling hrest
        exact .string hnl hquotes hopen
      · exact absurd h (by simp)
    · exact absurd h (by simp)

/-- **A token is read exactly where one is spelled.** -/
theorem scan_eq_token_iff {kind : Token.Kind} {text spelling rest : Text} {c : Char} {cs : Text} :
    scan c cs = .token kind text spelling rest
      ↔ spelling ++ rest = c :: cs ∧ Spelling kind text spelling rest :=
  ⟨fun h => ⟨(Scan.spelling_append h).1, spelling_of_scan h⟩, fun h => scan_of_spelling h.2 h.1⟩

theorem restOfLine_append_of_endsLine {line rest : Text} (hnl : '\n' ∉ line)
    (hrest : EndsLine rest) : restOfLine (line ++ rest) = line := by
  refine takeWhile_append_of_ends (fun c hc => ?_) fun c hc => ?_
  · have hne : c ≠ '\n' := fun h => hnl (h ▸ hc)
    simp [hne]
  · simp [hrest c hc]

theorem exists_endsLine (t : Text) : ∃ rest, restOfLine t ++ rest = t ∧ EndsLine rest := by
  refine ⟨t.dropWhile (· ≠ '\n'), List.takeWhile_append_dropWhile, fun c hc => ?_⟩
  simpa using head?_dropWhile_eq_false hc

theorem scan_of_faulty {cause : SourceError.Cause} {blamed rest : Text} {c : Char} {cs : Text}
    (h : Faulty cause blamed rest) (heq : blamed ++ rest = c :: cs) :
    scan c cs = .fault cause blamed := by
  cases h with
  | @address line _ hnl hrest hbracket =>
    obtain ⟨rfl, rfl⟩ := List.cons.inj heq
    have hline := restOfLine_append_of_endsLine hnl hrest
    have hbody : addressBody? (line ++ rest) = none := by
      rw [addressBody?_eq_none_iff, hline]
      exact hbracket
    simp [scan, hbody, hline]
  | @string line _ hnl hrest hquotes =>
    obtain ⟨rfl, rfl⟩ := List.cons.inj heq
    have hline := restOfLine_append_of_endsLine hnl hrest
    have hbody : stringBody? false (line ++ rest) = none := by
      rw [← decide_eq_false not_escapes_nil, stringBody?_eq_none_iff, hline]
      exact hquotes
    simp [scan, hbody, hline]
  | @character d _ hmarks hword _ =>
    obtain ⟨rfl, rfl⟩ := List.cons.inj heq
    simp only [List.mem_cons, List.not_mem_nil, or_false, not_or] at hmarks
    obtain ⟨hcolon, hcomma, hbracket, hquote, -⟩ := hmarks
    simp [scan, hcolon, hcomma, hbracket, hquote, hword]

theorem faulty_of_scan {cause : SourceError.Cause} {blamed : Text} {c : Char} {cs : Text}
    (hitem : BeginsItem (c :: cs)) (h : scan c cs = .fault cause blamed) :
    ∃ rest, blamed ++ rest = c :: cs ∧ Faulty cause blamed rest := by
  -- what is blamed runs to the end of the line
  obtain ⟨rest, hsplit, hrest⟩ := exists_endsLine cs
  unfold scan at h
  split at h
  · exact absurd h (by simp)
  split at h
  · exact absurd h (by simp)
  split at h
  · next hc =>
    split at h
    · exact absurd h (by simp)
    · next hbody =>
      injection h with hcause hblamed
      subst hc hcause hblamed
      exact ⟨rest, by rw [List.cons_append, hsplit], .address (newline_not_mem_restOfLine cs) hrest
        (addressBody?_eq_none_iff.1 hbody)⟩
  split at h
  · next hc =>
    split at h
    · exact absurd h (by simp)
    · next hbody =>
      rw [← decide_eq_false not_escapes_nil] at hbody
      injection h with hcause hblamed
      subst hc hcause hblamed
      exact ⟨rest, by rw [List.cons_append, hsplit], .string (newline_not_mem_restOfLine cs) hrest
        (stringBody?_eq_none_iff.1 hbody)⟩
  split at h
  · exact absurd h (by simp)
  · next hcolon hcomma hbracket hquote hword =>
    injection h with hcause hblamed
    subst hcause hblamed
    obtain ⟨d, tail, heq, hsemicolon, hblank⟩ := hitem
    obtain ⟨rfl, rfl⟩ := List.cons.inj heq
    exact ⟨cs, rfl, .character (by simp [*]) (by simpa using hword) hblank⟩

/-- **No token is read exactly where none is spelled.** -/
theorem scan_eq_fault_iff {cause : SourceError.Cause} {blamed : Text} {c : Char} {cs : Text}
    (hitem : BeginsItem (c :: cs)) : scan c cs = .fault cause blamed
      ↔ ∃ rest, blamed ++ rest = c :: cs ∧ Faulty cause blamed rest :=
  ⟨faulty_of_scan hitem, fun ⟨_, heq, h⟩ => scan_of_faulty h heq⟩

end EightBit
