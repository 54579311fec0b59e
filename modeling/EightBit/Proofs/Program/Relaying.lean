/-
  EightBit.Proofs.Program.Relaying
  ────────────────────────────────
  **THE SAME TOKENS IN ANOTHER LAYOUT.**

  A source is laid out again by other gaps between its tokens, by other case in
  its words and addresses, and by other blanks inside the brackets of its
  addresses.  This is said of the two texts, from left to right, and not of what
  is read of them.  But it comes to the same: two texts are layouts of one
  another exactly when all of both is read, and the tokens are alike.

  Main results:
    • `Respelled.spelling` — a token in another spelling is like the token;
    • `Relaid.tiled`       — another layout has tokens that are alike;
    • `relaid_iff`         — and tokens that are alike have another layout.
-/
import EightBit.Proofs.Program.Writing
import Mathlib.Data.List.TakeWhile

namespace EightBit

/-! ## §1. Case and blanks. -/

namespace Text

theorem isBlank_toUpper (c : Char) : isBlank c.toUpper = isBlank c := by
  rcases toUpper_cases c with ⟨hlo, hhi, hc⟩ | ⟨-, hsame⟩
  -- a letter is no blank in either case
  · rw [isBlank_of_isWordChar (isWordChar_iff.2 (by omega)),
      isBlank_of_isWordChar (isWordChar_iff.2 (by omega))]
  · rw [hsame]

theorem upper_reverse (t : Text) : upper t.reverse = (upper t).reverse := List.map_reverse

theorem upper_trim (t : Text) : upper (trim t) = trim (upper t) := by
  have hdrop : ∀ t : Text, upper (t.dropWhile isBlank) = (upper t).dropWhile isBlank := by
    intro t
    rw [upper, upper, List.dropWhile_map]
    congr 2
    funext c
    exact (isBlank_toUpper c).symm
  rw [trim, trim, trimRight, trimRight, trimLeft, trimLeft, upper_reverse, hdrop, upper_reverse,
    hdrop]

/-- Blanks around a text are trimmed with its own. -/
theorem trim_padding {left t right : Text} (hleft : Padding left) (hright : Padding right) :
    trim (left ++ (t ++ right)) = trim t := by
  have hblank : right.dropWhile isBlank = [] :=
    List.dropWhile_eq_nil_iff.2 fun c hc => (hright c hc).1
  have hreverse : ∀ s : Text, trimRight (s ++ right) = trimRight s := by
    intro s
    rw [trimRight, trimRight, List.reverse_append, List.dropWhile_append_of_pos]
    exact fun c hc => (hright c (List.mem_reverse.1 hc)).1
  rw [trim, trim, trimLeft, trimLeft, List.dropWhile_append_of_pos fun c hc => (hleft c hc).1,
    List.dropWhile_append, hblank]
  -- when the text is all blank, nothing is left on either side
  split
  · next hnil => rw [List.isEmpty_iff.1 hnil]
  · exact hreverse _

/-- What is trimmed from a text of one line are blanks of a line. -/
theorem exists_padding {t : Text} (h : '\n' ∉ t) :
    ∃ left right, Padding left ∧ Padding right ∧ t = left ++ (trim t ++ right) := by
  have hpadding : ∀ s : Text, (∀ c ∈ s, c ∈ t) → Padding (s.takeWhile isBlank) := by
    intro s hs c hc
    refine ⟨List.all_eq_true.1 List.all_takeWhile c hc, fun hline => h ?_⟩
    rw [← hline]
    exact hs c ((List.takeWhile_prefix _).subset hc)
  have hleft := hpadding t fun c hc => hc
  have hright := hpadding (trimLeft t).reverse fun c hc =>
    (List.dropWhile_suffix _).subset (List.mem_reverse.1 hc)
  refine ⟨_, _, hleft, fun c hc => hright c (List.mem_reverse.1 hc), ?_⟩
  rw [trim, trimRight, ← List.reverse_append, List.takeWhile_append_dropWhile, List.reverse_reverse,
    trimLeft, List.takeWhile_append_dropWhile]

/-- Another character than a letter is the only one of its upper case. -/
theorem not_mem_of_upper {x : Char} {t t' : Text} (hx : x.isAlpha = false)
    (h : upper t' = upper t) (ht : x ∉ t) : x ∉ t' := by
  intro hx'
  have hmem : x.toUpper ∈ upper t := h ▸ List.mem_map_of_mem hx'
  obtain ⟨c, hc, hcase⟩ := List.mem_map.1 hmem
  have hno : ¬ (x.isUpper = true ∨ x.isLower = true) := by
    rw [← isAlpha_iff, hx]
    exact Bool.false_ne_true
  rw [isUpper_iff, isLower_iff] at hno
  rcases toUpper_cases x with ⟨hlo, hhi, -⟩ | ⟨-, hsame⟩
  · omega
  rw [hsame] at hcase
  rcases toUpper_cases c with ⟨hlo, hhi, hmove⟩ | ⟨-, hsame'⟩
  · rw [hcase] at hmove
    omega
  · exact ht (by rwa [← hcase, hsame'])

end Text

/-! ## §2. Another layout. -/

/-- **The same token in another spelling.** -/
inductive Respelled : (spelling spelling' : Text) → Prop where
  | colon : Respelled [':'] [':']
  | comma : Respelled [','] [',']
  /-- A word in other case. -/
  | word {word word' : Text} : word ≠ [] → (∀ c ∈ word, isWordChar c = true) →
    word'.upper = word.upper → Respelled word word'
  /-- An address in other case, with other blanks inside its brackets. -/
  | address {left body right left' body' right' : Text} : Padding left → Padding right →
    Padding left' → Padding right' → '\n' ∉ body → ']' ∉ body → body'.upper = body.upper →
    Respelled ('[' :: (left ++ (body ++ right)) ++ [']']) ('[' :: (left' ++ (body' ++ right')) ++ [']'])
  /-- A string stays as it is. -/
  | string {body : Text} : '\n' ∉ body → QuotesEscaped [] body → ¬ Escapes body →
    Respelled ('\x22' :: body ++ ['\x22']) ('\x22' :: body ++ ['\x22'])

/-- **The same tokens in another layout**: behind other gaps and in other
spellings, from which no word goes on into the text behind it. -/
inductive Relaid : (source source' : Text) → Prop where
  | tail {t t' : Text} : Trailing t → Trailing t' → Relaid t t'
  | token {gap gap' spelling spelling' rest rest' : Text} : Gap gap → Gap gap' →
    Respelled spelling spelling' → Apart spelling rest → Apart spelling' rest' →
    Relaid rest rest' → Relaid (gap ++ (spelling ++ rest)) (gap' ++ (spelling' ++ rest'))

/-- The same token, wherever it stands; an address may be in other case. -/
structure Token.Alike (t t' : Token) : Prop where
  kind : t'.kind = t.kind
  upper : t'.text.upper = t.text.upper
  text : t.kind ≠ .address → t'.text = t.text

instance (t t' : Token) : Decidable (t.Alike t') :=
  decidable_of_iff (t'.kind = t.kind ∧ t'.text.upper = t.text.upper
    ∧ (t.kind ≠ .address → t'.text = t.text))
    ⟨fun h => ⟨h.1, h.2.1, h.2.2⟩, fun h => ⟨h.kind, h.upper, h.text⟩⟩

theorem Apart.endsWord {word rest : Text} (h : Apart word rest) (hne : word ≠ [])
    (hchars : ∀ c ∈ word, isWordChar c = true) : EndsWord rest := by
  intro d hd
  have hlast := List.getLast?_eq_some_getLast hne
  rcases h _ d hlast hd with hc | hd
  · exact absurd (hchars _ (List.getLast_mem hne)) (by simp [hc])
  · exact hd

/-- A token in another spelling is like the token. -/
theorem Respelled.spelling {spelling spelling' rest rest' : Text} (h : Respelled spelling spelling')
    (hrest : Apart spelling rest) (hrest' : Apart spelling' rest') : ∃ kind text text',
      Spelling kind text spelling rest ∧ Spelling kind text' spelling' rest'
        ∧ ∀ span span', (Token.mk kind text span).Alike ⟨kind, text', span'⟩ := by
  cases h with
  | colon => exact ⟨_, _, _, .colon, .colon, fun _ _ => ⟨rfl, rfl, fun _ => rfl⟩⟩
  | comma => exact ⟨_, _, _, .comma, .comma, fun _ _ => ⟨rfl, rfl, fun _ => rfl⟩⟩
  | word hne hchars hcase =>
    have hne' : spelling' ≠ [] := ne_nil_of_upper hcase (by simpa [Text.upper] using hne)
    have hchars' : ∀ c ∈ spelling', isWordChar c = true := by
      refine isWordChar_of_upper hcase fun c hc => ?_
      obtain ⟨d, hd, rfl⟩ := List.mem_map.1 hc
      rw [isWordChar_toUpper]
      exact hchars d hd
    have hkind := (ofWord_eq_iff (Text.upper_upper spelling)).1 rfl
    refine ⟨_, _, _, .word hne hchars (hrest.endsWord hne hchars) hkind,
      .word hne' hchars' (hrest'.endsWord hne' hchars') (hcase ▸ hkind), fun _ _ => ?_⟩
    exact ⟨rfl, by rw [hcase], fun _ => hcase⟩
  | @address left body right left' body' right' hleft hright hleft' hright' hnl hbracket hcase =>
    -- the marks are in none of the three parts
    have hfree : ∀ x, x = '\n' ∨ x = ']' → ∀ left body right : Text, Padding left → Padding right →
        x ∉ body → x ∉ left ++ (body ++ right) := by
      intro x hx left body right hleft hright hbody
      simp only [List.mem_append, not_or]
      exact ⟨hleft.not_mem hx, hbody, hright.not_mem hx⟩
    have hnl' : '\n' ∉ body' := Text.not_mem_of_upper (by decide) hcase hnl
    have hbracket' : ']' ∉ body' := Text.not_mem_of_upper (by decide) hcase hbracket
    refine ⟨_, _, _,
      .address (hfree _ (.inl rfl) left body right hleft hright hnl)
        (hfree _ (.inr rfl) left body right hleft hright hbracket),
      .address (hfree _ (.inl rfl) left' body' right' hleft' hright' hnl')
        (hfree _ (.inr rfl) left' body' right' hleft' hright' hbracket'),
      fun _ _ => ⟨rfl, ?_, fun h => absurd rfl h⟩⟩
    show Text.upper (Text.trim _) = Text.upper (Text.trim _)
    rw [Text.trim_padding hleft hright, Text.trim_padding hleft' hright', Text.upper_trim, hcase,
      ← Text.upper_trim]
  | string hnl hquotes hopen =>
    exact ⟨_, _, _, .string hnl hquotes hopen, .string hnl hquotes hopen,
      fun _ _ => ⟨rfl, rfl, fun _ => rfl⟩⟩

/-- **Another layout has tokens that are alike**, and all of both texts is read. -/
theorem Relaid.tiled {source source' : Text} (h : Relaid source source') (start start' : Nat) :
    ∃ ts ts', Tiled start source ts none ∧ Tiled start' source' ts' none
      ∧ List.Forall₂ Token.Alike ts ts' := by
  induction h generalizing start start' with
  | tail h h' => exact ⟨[], [], .tail h, .tail h', .nil⟩
  | token hgap hgap' hspelled hrest hrest' _ ih =>
    obtain ⟨kind, text, text', hspelling, hspelling', halike⟩ := hspelled.spelling hrest hrest'
    obtain ⟨ts, ts', htiled, htiled', hall⟩ := ih _ _
    exact ⟨_, _, .token hgap hspelling htiled, .token hgap' hspelling' htiled',
      .cons (halike _ _) hall⟩

/-! ## §3. Layouts of tokens that are alike. -/

/-- Only words are of the kind of a word. -/
theorem WordKind.not_mem {word : Text} {kind : Token.Kind} (h : WordKind word kind) :
    kind ∉ [.colon, .comma, .address, .string] := by
  cases h <;> simp

/-- Tokens that are alike are spelled so. -/
theorem respelled_of_alike {kind : Token.Kind} {text text' spelling spelling' rest rest' : Text}
    (h : Spelling kind text spelling rest) (h' : Spelling kind text' spelling' rest')
    (hcase : text'.upper = text.upper) (htext : kind ≠ .address → text' = text) :
    Respelled spelling spelling' := by
  -- the kind says how both are spelled
  cases h with
  | colon =>
    cases h' with
    | colon => exact .colon
    | word _ _ _ hkind => exact absurd hkind.not_mem (by simp)
  | comma =>
    cases h' with
    | comma => exact .comma
    | word _ _ _ hkind => exact absurd hkind.not_mem (by simp)
  | @address body _ hnl hbracket =>
    cases h' with
    | @address body' _ hnl' hbracket' =>
      obtain ⟨left, right, hleft, hright, hbody⟩ := Text.exists_padding hnl
      obtain ⟨left', right', hleft', hright', hbody'⟩ := Text.exists_padding hnl'
      have hmem : ∀ c ∈ Text.trim body, c ∈ body := by
        intro c hc
        rw [hbody]
        simp [hc]
      rw [hbody, hbody']
      exact .address hleft hright hleft' hright' (fun hc => hnl (hmem _ hc))
        (fun hc => hbracket (hmem _ hc)) hcase
    | word _ _ _ hkind => exact absurd hkind.not_mem (by simp)
  | string hnl hquotes hopen =>
    cases h' with
    | string =>
      rw [htext (by simp)]
      exact .string hnl hquotes hopen
    | word _ _ _ hkind => exact absurd hkind.not_mem (by simp)
  | word hne hchars _ hkind =>
    cases h' with
    | word => exact .word hne hchars (by simpa [Text.upper_upper] using hcase)
    | _ => exact absurd hkind.not_mem (by simp)

/-- **Tokens that are alike have another layout.** -/
theorem relaid_of_tiled {source source' : Text} {start start' : Nat} {ts ts' : List Token}
    (h : Tiled start source ts none) (h' : Tiled start' source' ts' none)
    (hall : List.Forall₂ Token.Alike ts ts') : Relaid source source' := by
  induction hall generalizing start start' source source' with
  | nil => exact .tail h.trailing h'.trailing
  | cons halike _ ih =>
    cases h with
    | token hgap hspelling hrest =>
      cases h' with
      | token hgap' hspelling' hrest' =>
        obtain ⟨hkind, hcase, htext⟩ := halike
        obtain rfl := hkind
        exact .token hgap hgap' (respelled_of_alike hspelling hspelling' hcase htext)
          hspelling.apart hspelling'.apart (ih hrest hrest')

/-- **Two texts are layouts of one another** exactly when all of both is read, and
the tokens are alike. -/
theorem relaid_iff {source source' : Text} : Relaid source source' ↔
    (lex source).failure = none ∧ (lex source').failure = none
      ∧ List.Forall₂ Token.Alike (lex source).tokens (lex source').tokens := by
  constructor
  · intro h
    obtain ⟨ts, ts', htiled, htiled', hall⟩ := h.tiled 0 0
    have hlex : lex source = ⟨ts, none⟩ := htiled.lexFrom_eq
    have hlex' : lex source' = ⟨ts', none⟩ := htiled'.lexFrom_eq
    rw [hlex, hlex']
    exact ⟨rfl, rfl, hall⟩
  · intro h
    obtain ⟨hnone, hnone', hall⟩ := h
    have htiled : Tiled 0 source (lex source).tokens (lex source).failure := tiled_lexFrom 0 source
    have htiled' : Tiled 0 source' (lex source').tokens (lex source').failure :=
      tiled_lexFrom 0 source'
    rw [hnone] at htiled
    rw [hnone'] at htiled'
    exact relaid_of_tiled htiled htiled' hall

end EightBit
