/-
  EightBit.Proofs.Program.StringUnits
  ───────────────────────────────────
  **ESCAPES ARE READ IN ONE WAY.**

  Two readers pass over the body of a string.  The first looks for the quote that
  closes it, and remembers whether the character before was an escaping backslash.
  The second replaces the escapes, and takes a backslash together with the character
  behind it.  They agree: the body is made of units in one way, the first reader is
  between two units exactly where the second begins one, and the second makes one
  character of each unit.

  Main results:
    • `StringUnit.spellAll_injective` — a text is made of units in one way at most;
    • `StringUnit.exists_units` — a text in which no quote closes is made of units;
    • `unescaping_iff`          — the two readers are in step;
    • `readAsString_units`      — between quotes, units are one string;
    • `strings_read_as_units`   — every string is read as units, and units are read as
                                  a string.
-/
import EightBit.Proofs.Program.Writing

namespace EightBit

/-! ## §1. Units. -/

/-- What the body of a string is made of. -/
inductive StringUnit where
  /-- A character other than backslash and quote. -/
  | plain (c : Char) (h : c ≠ '\\' ∧ c ≠ '\x22')
  /-- A backslash and the character behind it. -/
  | escape (c : Char)
  deriving DecidableEq, Repr

namespace StringUnit

def spelling : StringUnit → Text
  | .plain c _ => [c]
  | .escape c => ['\\', c]

/-- The character that the unit stands for. -/
def meaning : StringUnit → Char
  | .plain c _ => c
  | .escape c => unescape.escaped c

def spellAll (us : List StringUnit) : Text := us.flatMap spelling

theorem spellAll_cons (u : StringUnit) (us : List StringUnit) :
    spellAll (u :: us) = u.spelling ++ spellAll us := List.flatMap_cons

/-- **A text is made of units in one way** at most: its first character says which unit
comes first. -/
theorem spellAll_injective : Function.Injective spellAll := by
  intro us
  induction us with
  | nil =>
    intro vs h
    cases vs with
    | nil => rfl
    | cons v vs => cases v <;> simp [spellAll, spelling] at h
  | cons u us ih =>
    intro vs h
    cases vs with
    | nil => cases u <;> simp [spellAll, spelling] at h
    | cons v vs =>
      rw [spellAll_cons, spellAll_cons] at h
      cases u with
      | plain c hc =>
        cases v with
        | plain d hd =>
          obtain ⟨rfl, htail⟩ := List.cons.inj h
          rw [ih htail]
        | escape d => exact absurd (List.cons.inj h).1 hc.1
      | escape c =>
        cases v with
        | plain d hd => exact absurd (List.cons.inj h).1.symm hd.1
        | escape d =>
          obtain ⟨rfl, htail⟩ := List.cons.inj (List.cons.inj h).2
          rw [ih htail]

end StringUnit

/-! ## §2. Where escapes are replaced. -/

/-- Induction along a text as its escapes are replaced. -/
theorem escape_induction {motive : Text → Prop} (nil : motive []) (dangling : motive ['\\'])
    (escape : ∀ c cs, motive cs → motive ('\\' :: c :: cs))
    (plain : ∀ c cs, c ≠ '\\' → motive cs → motive (c :: cs)) (t : Text) : motive t := by
  induction t using unescape.induct with
  | case1 => exact nil
  | case2 => exact dangling
  | case3 c cs ih => exact escape c cs ih
  | case4 c cs hlone hpair ih =>
    refine plain c cs ?_ ih
    rintro rfl
    cases cs with
    | nil => exact hlone rfl rfl
    | cons d cs => exact hpair d cs rfl rfl

/-- **Replacing the escapes of `t` comes to `rest`**: the reader has replaced what
stands before it, and goes on with what is left. -/
inductive Unescaping : (t rest : Text) → Prop where
  | here {t : Text} : Unescaping t t
  | escape {c : Char} {cs rest : Text} : Unescaping cs rest → Unescaping ('\\' :: c :: cs) rest
  | plain {c : Char} {cs rest : Text} : c ≠ '\\' → Unescaping cs rest → Unescaping (c :: cs) rest

namespace Unescaping

variable {t rest cs : Text} {c : Char}

/-- What is made of the rest is the end of what is made of the text. -/
theorem unescape_suffix (h : Unescaping t rest) : unescape rest <:+ unescape t := by
  induction h with
  | here => exact List.suffix_rfl
  | @escape c cs rest _ ih =>
    rw [unescape]
    exact ih.trans (List.suffix_cons ..)
  | @plain c cs rest hc _ ih =>
    rw [unescape_cons hc]
    exact ih.trans (List.suffix_cons ..)

theorem suffix (h : Unescaping t rest) : rest <:+ t := by
  induction h with
  | here => exact List.suffix_rfl
  | escape _ ih => exact (ih.trans (List.suffix_cons ..)).trans (List.suffix_cons ..)
  | plain _ _ ih => exact ih.trans (List.suffix_cons ..)

theorem escape_iff (hle : rest.length ≤ cs.length) :
    Unescaping ('\\' :: c :: cs) rest ↔ Unescaping cs rest := by
  refine ⟨fun h => ?_, .escape⟩
  cases h with
  | here => exact absurd hle (by simp only [List.length_cons]; omega)
  | escape h => exact h
  | plain hc => exact absurd rfl hc

theorem plain_iff (hc : c ≠ '\\') (hle : rest.length ≤ cs.length) :
    Unescaping (c :: cs) rest ↔ Unescaping cs rest := by
  refine ⟨fun h => ?_, .plain hc⟩
  cases h with
  | here => exact absurd hle (by simp only [List.length_cons]; omega)
  | escape => exact absurd rfl hc
  | plain _ h => exact h

/-- A backslash is not left behind on its own. -/
theorem not_dangling : ¬ Unescaping ('\\' :: rest) rest := by
  intro h
  cases h with
  | escape h =>
    have hle := h.suffix.length_le
    simp only [List.length_cons] at hle
    omega
  | plain hc => exact hc rfl

end Unescaping

/-- **The two readers are in step**: the second comes to what follows `front` exactly
if `front` does not escape it for the first. -/
theorem unescaping_iff {before front back : Text} (hbefore : ¬ Escapes before) :
    Unescaping (front ++ back) back ↔ ¬ Escapes (before ++ front) := by
  have hle : ∀ cs : Text, back.length ≤ (cs ++ back).length := by simp
  -- along `front` as the second reader goes; `before` is what the first has passed
  induction front using escape_induction generalizing before with
  | nil => exact iff_of_true .here (by rwa [List.append_nil])
  | dangling =>
    exact iff_of_false Unescaping.not_dangling (not_not_intro (escapes_append_backslash hbefore))
  | escape c cs ih =>
    have hcs : Unescaping (cs ++ back) back ↔ ¬ Escapes (before ++ ['\\'] ++ [c] ++ cs) :=
      ih (not_escapes_append_pair hbefore c)
    rw [List.cons_append, List.cons_append, Unescaping.escape_iff (hle cs), hcs]
    simp
  | plain c cs hc ih =>
    have hcs : Unescaping (cs ++ back) back ↔ ¬ Escapes (before ++ [c] ++ cs) :=
      ih (not_escapes_append_of_ne before hc)
    rw [List.cons_append, Unescaping.plain_iff hc (hle cs), hcs]
    simp

/-! ## §3. What units make up. -/

namespace StringUnit

/-- **A text in which no quote closes** is made of units.  What stands before it does
not escape its first character, and the text does not escape what follows it. -/
theorem exists_units {before t : Text} (hbefore : ¬ Escapes before)
    (hquotes : QuotesEscaped before t) (hopen : ¬ Escapes (before ++ t)) :
    ∃ us, spellAll us = t := by
  -- a unit is taken at each step, and behind it nothing is escaped
  induction t using escape_induction generalizing before with
  | nil => exact ⟨[], rfl⟩
  | dangling => exact absurd (escapes_append_backslash hbefore) hopen
  | escape c cs ih =>
    rw [quotesEscaped_cons, quotesEscaped_cons] at hquotes
    obtain ⟨us, hus⟩ := ih (not_escapes_append_pair hbefore c) hquotes.2.2 (by simpa using hopen)
    exact ⟨.escape c :: us, by rw [spellAll_cons, hus]; rfl⟩
  | plain c cs hc ih =>
    rw [quotesEscaped_cons] at hquotes
    obtain ⟨us, hus⟩ := ih (not_escapes_append_of_ne before hc) hquotes.2 (by simpa using hopen)
    exact ⟨.plain c ⟨hc, fun h => hbefore (hquotes.1 h)⟩ :: us, by rw [spellAll_cons, hus]; rfl⟩

/-- Any character but a newline may be escaped. -/
theorem escapeOf_escaped {c : Char} (h : c ≠ '\n') : EscapeOf c (unescape.escaped c) := by
  unfold unescape.escaped
  split
  · next hc => exact hc ▸ .newline
  split
  · next hc => exact hc ▸ .carriage
  split
  · next hc => exact hc ▸ .tab
  split
  · next hc => exact hc ▸ .null
  · exact .other (by simp [*])

/-- Units on one line are an escaped string, which stands for their meanings. -/
theorem escaped_spellAll {us : List StringUnit} (h : '\n' ∉ spellAll us) :
    Escaped (us.map meaning) (spellAll us) := by
  induction us with
  | nil => exact .nil
  | cons u us ih =>
    rw [spellAll_cons, List.mem_append, not_or] at h
    obtain ⟨hline, hrest⟩ := h
    cases u with
    | plain c hc =>
      have hne : c ≠ '\n' := by
        rintro rfl
        exact hline (List.mem_singleton_self _)
      have hmarks : c ∉ ['\x22', '\\', '\n'] := by simp [hc, hne]
      exact .plain hmarks (ih hrest)
    | escape c =>
      have hne : c ≠ '\n' := by
        rintro rfl
        exact hline (by simp [spelling])
      exact .escape (escapeOf_escaped hne) (ih hrest)

end StringUnit

/-! ## §4. How strings are read. -/

open StringUnit

/-- The body between two quotes. -/
def inQuotes (body : Text) : Text := '\x22' :: body ++ ['\x22']

/-- **How units are read between quotes.** -/
structure ReadAsString (body : Text) : Prop where
  alone : lex (inQuotes body) = ⟨[⟨.string, body, ⟨0, (inQuotes body).width⟩⟩], none⟩
  /-- Wherever a token may begin in a source, and whatever follows. -/
  anywhere : ∀ start gap rest here next, Gap gap → here = start + gap.width →
    next = here + (inQuotes body).width → lexFrom start (gap ++ (inQuotes body ++ rest))
      = ⟨⟨.string, body, ⟨here, next⟩⟩ :: (lexFrom next rest).tokens, (lexFrom next rest).failure⟩

/-- **Units on one line are read as a string.** -/
theorem readAsString_units {us : List StringUnit} (hline : '\n' ∉ spellAll us) :
    ReadAsString (spellAll us) := by
  have hanywhere : ∀ start gap rest here next, Gap gap → here = start + gap.width →
      next = here + (inQuotes (spellAll us)).width →
      lexFrom start (gap ++ (inQuotes (spellAll us) ++ rest))
        = ⟨⟨.string, spellAll us, ⟨here, next⟩⟩ :: (lexFrom next rest).tokens,
            (lexFrom next rest).failure⟩ := by
    rintro start gap rest _ _ hgap rfl rfl
    have hspelling := (escaped_spellAll hline).spelling rest
    exact (Tiled.token hgap hspelling (tiled_lexFrom _ rest)).lexFrom_eq
  refine ⟨?_, hanywhere⟩
  have halone := hanywhere 0 [] [] 0 _ .nil rfl (Nat.zero_add _).symm
  rw [List.nil_append, List.append_nil, lexFrom_of_trailing _ (.gap .nil)] at halone
  exact halone

/-- **How the body of a string is read.** -/
structure ReadAsUnits (body : Text) (us : List StringUnit) : Prop where
  one_line : '\n' ∉ body
  /-- The body is made of these units, and of no others. -/
  spelled : spellAll us = body
  unique : ∀ vs, spellAll vs = body → vs = us
  /-- One character is made of each unit. -/
  unescape_eq : unescape body = us.map meaning
  /-- Replacing the escapes comes to what follows a part of the body exactly if this part
  does not escape what follows it. -/
  in_step : ∀ front back, front ++ back = body → (Unescaping body back ↔ ¬ Escapes front)
  /-- What is made of that is then the end of what is made of the body. -/
  goes_on : ∀ back, Unescaping body back → unescape back <:+ unescape body
  /-- It never comes to a backslash with nothing behind it. -/
  never_dangling : ¬ Unescaping body ['\\']

/-- **The body of a string is read as units.** -/
theorem Spelling.readAsUnits {body spelling rest : Text} (h : Spelling .string body spelling rest) :
    ∃ us, ReadAsUnits body us := by
  obtain ⟨hline, hquotes, hopen⟩ : '\n' ∉ body ∧ QuotesEscaped [] body ∧ ¬ Escapes body := by
    cases h with
    | string hline hquotes hopen => exact ⟨hline, hquotes, hopen⟩
    | word _ _ _ hkind => nomatch hkind
  obtain ⟨us, hus⟩ := exists_units not_escapes_nil hquotes hopen
  have hstep : ∀ front back, front ++ back = body → (Unescaping body back ↔ ¬ Escapes front) := by
    rintro front back rfl
    exact unescaping_iff not_escapes_nil
  refine ⟨us,
    { one_line := hline
      spelled := hus
      unique := fun vs hvs => spellAll_injective (hvs.trans hus.symm)
      unescape_eq := ?_
      in_step := hstep
      goes_on := fun back hback => hback.unescape_suffix
      never_dangling := fun hlone => ?_ }⟩
  · rw [← hus] at hline ⊢
    exact (escaped_spellAll hline).unescape_eq
  -- a backslash that is left over would escape the quote that closes the string
  · obtain ⟨front, rfl⟩ := hlone.suffix
    exact hopen (escapes_append_backslash ((hstep front _ rfl).1 hlone))

/-- **Escapes are read in one way.**  The body of every string in a source is read as units,
and units on one line are read as a string wherever they stand between quotes. -/
theorem strings_read_as_units :
    (∀ source, ∀ t ∈ (lex source).tokens, t.kind = .string → ∃ us, ReadAsUnits t.text us)
    ∧ ∀ us, '\n' ∉ spellAll us → ReadAsString (spellAll us) := by
  refine ⟨fun source t ht hkind => ?_, fun us hline => readAsString_units hline⟩
  obtain ⟨_, spelling, rest, -, -, -, hspelling⟩ := (tiled_lexFrom 0 source).spelled ht
  rw [hkind] at hspelling
  exact hspelling.readAsUnits

/-- A string with runs of backslashes in front of quotes: two pairs of backslashes, with an
escaped quote between them. -/
def backslashRuns : Text := "db \"\\\\\\\"\\\\\" ; \"\nend".toList

theorem strings_read_as_units_backslashRuns :
    ∃ body, ⟨.string, body, ⟨3, 11⟩⟩ ∈ (lex backslashRuns).tokens
    ∧ ReadAsUnits body [.escape '\\', .escape '\x22', .escape '\\']
    ∧ unescape body = ['\\', '\x22', '\\'] ∧ '\n' ∉ body ∧ ReadAsString body := by
  let us : List StringUnit := [.escape '\\', .escape '\x22', .escape '\\']
  have htoken : ⟨.string, spellAll us, ⟨3, 11⟩⟩ ∈ (lex backslashRuns).tokens := by decide +kernel
  have hline : '\n' ∉ spellAll us := by decide
  obtain ⟨vs, hvs⟩ := strings_read_as_units.1 backslashRuns _ htoken rfl
  obtain rfl : us = vs := hvs.unique us rfl
  exact ⟨spellAll us, htoken, hvs, hvs.unescape_eq, hline, strings_read_as_units.2 us hline⟩

end EightBit
