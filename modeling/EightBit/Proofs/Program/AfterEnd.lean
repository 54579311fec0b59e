/-
  EightBit.Proofs.Program.AfterEnd
  ────────────────────────────────
  **WHAT STANDS BEHIND END DOES NOT MATTER.**

  The reader of a program stops at END, but the reader of tokens does not, and a
  colon behind END makes a label of it.  So the text behind the program is looked
  at, and a text on a new line is, whatever the program ends in.  A fault stays the
  same fault; a comment ends with its line; and behind the last token, where there
  is no fault, come the tokens of the new text.  The split of the tokens stays, and
  what was behind it only grows.

  Main results:
    • `Tiled.append_line`      — the tokens of a text with a line more;
    • `Split.append`           — tokens behind a program;
    • `assemble_append_line`   — a program with a line more.
-/
import EightBit.Proofs.Program.Assembly
import EightBit.Proofs.Program.LabelNames

namespace EightBit

/-! ## §1. A line more. -/

theorem EndsWord.append_line {rest : Text} (h : EndsWord rest) (t : Text) :
    EndsWord (rest ++ '\n' :: t) := by
  cases rest with
  | nil => exact .cons (by decide) t
  | cons c rest => exact .cons (h c rfl) _

theorem EndsLine.append_line {rest : Text} (h : EndsLine rest) (t : Text) :
    EndsLine (rest ++ '\n' :: t) := by
  intro c hc
  cases rest with
  | nil => exact (Option.some.inj hc).symm
  | cons d rest => exact h c hc

/-- Where no token is spelled, none is with a line more. -/
theorem Faulty.append_line {cause : SourceError.Cause} {blamed rest : Text}
    (h : Faulty cause blamed rest) (t : Text) : Faulty cause blamed (rest ++ '\n' :: t) := by
  cases h with
  | address hline hends hopen => exact .address hline (hends.append_line t) hopen
  | string hline hends hquotes => exact .string hline (hends.append_line t) hquotes
  | character hmarks hword hblank => exact .character hmarks hword hblank

/-- Behind the last token the line ends, and a comment with it. -/
theorem Trailing.append_newline {t : Text} (h : Trailing t) : Gap (t ++ ['\n']) := by
  cases h with
  | gap h => exact h.append (.blank (by decide) .nil)
  | comment h hbody =>
    rw [List.append_assoc]
    exact h.append (.comment hbody .nil)

/-- **The tokens of a text with a line more.**  Where a fault stops them they stay the
same, and so does the fault; else those of the new line come behind them. -/
theorem Tiled.append_line {start : Nat} {s : Text} {ts : List Token} {failure : Option SourceError}
    (h : Tiled start s ts failure) (t : Text) : Tiled start (s ++ '\n' :: t) ts failure
      ∨ ∃ more failure', Tiled (start + s.width + 1) t more failure'
        ∧ Tiled start (s ++ '\n' :: t) (ts ++ more) failure' := by
  induction h with
  | @tail start s htrail =>
    have hwidth : start + (s ++ ['\n']).width = start + s.width + 1 := by
      rw [Text.width_append]
      rfl
    have hmore := tiled_lexFrom (start + s.width + 1) t
    refine .inr ⟨_, _, hmore, ?_⟩
    rw [← hwidth] at hmore
    have hline := hmore.behind_gap htrail.append_newline
    rw [hwidth, List.append_assoc] at hline
    exact hline
  | fault hgap hfaulty =>
    left
    rw [List.append_assoc, List.append_assoc]
    exact .fault hgap (hfaulty.append_line t)
  | @token start gap spelling rest text kind ts failure hgap hspelling _ ih =>
    have hspelling' : Spelling kind text spelling (rest ++ '\n' :: t) :=
      hspelling.of_rest fun hends => hends.append_line t
    have hwidth : start + (gap ++ (spelling ++ rest)).width + 1
        = start + gap.width + spelling.width + rest.width + 1 := by
      simp only [Text.width_append]
      omega
    rw [List.append_assoc, List.append_assoc, hwidth]
    rcases ih with hsame | ⟨more, failure', hmore, hline⟩
    · exact .inl (.token hgap hspelling' hsame)
    · exact .inr ⟨more, failure', hmore, .token hgap hspelling' hline⟩

/-! ## §2. Programs. -/

/-- The first character that belongs neither to a blank nor to a comment is a
colon. -/
def BeginsWithColon (t : Text) : Prop := ∃ gap rest, Gap gap ∧ t = gap ++ ':' :: rest

theorem beginsWithColon_iff {t : Text} :
    BeginsWithColon t ↔ (splitGap false t).2.head? = some ':' := by
  constructor
  · rintro ⟨gap, rest, hgap, rfl⟩
    rw [splitGap_of_gap hgap ⟨':', rest, rfl, by decide, by decide⟩]
    rfl
  · intro h
    rcases trailing_or_item t with htrail | ⟨gap, item, rfl, hgap, hitem⟩
    · rw [splitGap_of_trailing htrail] at h
      exact absurd h (by simp)
    · rw [splitGap_of_gap hgap hitem] at h
      obtain ⟨rest, rfl⟩ := List.head?_eq_some_iff.1 h
      exact ⟨gap, rest, hgap, rfl⟩

instance (t : Text) : Decidable (BeginsWithColon t) := decidable_of_iff _ beginsWithColon_iff.symm

theorem Tiled.beginsWithColon {start : Nat} {t : Text} {tok : Token} {ts : List Token}
    {failure : Option SourceError} (h : Tiled start t (tok :: ts) failure)
    (hcolon : tok.kind = .colon) : BeginsWithColon t := by
  cases h with
  | @token _ gap spelling rest text kind _ _ hgap hspelling =>
    obtain rfl : kind = .colon := hcolon
    cases hspelling with
    | colon => exact ⟨gap, rest, hgap, rfl⟩
    | word _ _ _ hkind => cases hkind

/-- Tokens behind a program, of which the first is no colon, do not belong to it. -/
theorem Split.append {ts rest more : List Token} {segments : List (List Token)}
    {ss : List Statement} (h : Split ts segments rest ss)
    (hmore : ∀ t, more.head? = some t → t.kind ≠ .colon) :
    Split (ts ++ more) segments (rest ++ more) ss where
  tokens := by rw [h.tokens, List.append_assoc]
  spells := h.spells
  ends := h.ends
  closed := by
    intro t ht
    cases rest with
    | nil => exact hmore t ht
    | cons head rest => exact h.closed t ht

/-- The statements of a program with a line more are the same. -/
theorem parse_append_line {s t : Text} {ss : List Statement} (h : parse s = .ok ss)
    (ht : ¬ BeginsWithColon t) : parse (s ++ '\n' :: t) = .ok ss := by
  obtain ⟨segments, rest, hsplit⟩ := split_of_statements (lexical_lex s) h
  have hlexical := lexical_lex (s ++ '\n' :: t)
  have htiled : Tiled 0 s (lex s).tokens (lex s).failure := tiled_lexFrom 0 s
  unfold parse
  rcases htiled.append_line t with hline | ⟨more, failure', hmore, hline⟩
  · have hlex : lex (s ++ '\n' :: t) = lex s := hline.lexFrom_eq
    rw [hlex] at hlexical ⊢
    exact statements_of_split _ hlexical hsplit
  · have hlex : lex (s ++ '\n' :: t) = ⟨(lex s).tokens ++ more, failure'⟩ := hline.lexFrom_eq
    rw [hlex] at hlexical ⊢
    refine statements_of_split _ hlexical (hsplit.append ?_)
    intro tok hhead hcolon
    obtain ⟨tail, rfl⟩ := List.head?_eq_some_iff.1 hhead
    exact ht (hmore.beginsWithColon hcolon)

/-- **Text behind END has no effect.**  A source that is assembled is assembled to
the same program, and read as the same statements, with any text on a new line behind
it that does not begin with a colon. -/
theorem assemble_append_line {s t : Text} {p : Assembled} (h : assemble s = .ok p)
    (ht : ¬ BeginsWithColon t) :
    parse (s ++ '\n' :: t) = parse s ∧ assemble (s ++ '\n' :: t) = .ok p := by
  obtain ⟨ss, hparse, hassemble⟩ := assemble_eq_ok_iff.1 h
  have hline := parse_append_line hparse ht
  exact ⟨hline.trans hparse.symm, assemble_eq_ok_iff.2 ⟨ss, hline, hassemble⟩⟩

/-- A program that ends in a comment. -/
def commentedEnd : Text := "LOOP: INC AL\nJMP LOOP END ; the end: ".toList

/-- A label that is declared already, one that is nowhere, a string that is not
closed, and a character that begins no token. -/
def wrongLine : Text := " ; no\n LOOP: JMP AWAY \x22\n%".toList

theorem assemble_append_line_commentedEnd : ∃ p, assemble commentedEnd = .ok p
    ∧ ¬ BeginsWithColon wrongLine ∧ assemble (commentedEnd ++ '\n' :: wrongLine) = .ok p
    ∧ p.image.entries = [(0, 0xA4), (1, 0x00), (2, 0xC0), (3, 0xFE), (4, 0x00)] := by
  have himage : (assemble commentedEnd).toOption.map (fun p => p.image.entries)
      = some [(0, 0xA4), (1, 0x00), (2, 0xC0), (3, 0xFE), (4, 0x00)] := by decide +kernel
  obtain ⟨p, hp, hentries⟩ := exists_of_toOption_map himage
  have hcolon : ¬ BeginsWithColon wrongLine := by decide +kernel
  exact ⟨p, hp, hcolon, (assemble_append_line hp hcolon).2, hentries⟩

/-- A colon makes a label of the only END. -/
example : (assemble "END".toList).isOk = true
    ∧ (assemble ("END".toList ++ '\n' :: "; here\n:".toList)).isOk = false := by decide +kernel

end EightBit
