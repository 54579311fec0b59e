/-
  EightBit.Proofs.Program.Printing
  ────────────────────────────────
  **PRINTING A PROGRAM AND READING IT AGAIN.**

  What is read of a source is canonical: it ends with its only END, its labels
  are words, its operands are those of forms.  And a canonical program can be
  written down and is read again as what it was, up to places in the source.
  So writing and reading undo each other, for labels that look like numbers or
  mnemonics and for strings of any characters too.

  Main results:
    • `parse_of_prints`    — what is written of a canonical program is read again;
    • `canonical_of_parse` — what is read is canonical;
    • `prints_print`       — a canonical program can be written;
    • `parse_prints`       — the three together.
-/
import EightBit.Proofs.Program.Writing

namespace EightBit

/-! ## §1. What is written is read again. -/

/-- **A canonical program** ends with its only END, and its statements are
canonical. -/
structure Canonical (ss : List Statement) : Prop where
  ends : ∃ before last, ss = before ++ [last] ∧ last.isEnd = true ∧ ∀ s ∈ before, s.isEnd = false
  statements : ∀ s ∈ ss, s.Canonical

/-- **How a program is written**: its statements, behind a gap. -/
def Prints (ss : List Statement) (text : Text) : Prop :=
  ∃ gap body, text = gap ++ body ∧ Gap gap ∧ WritesAll ss body

theorem Statement.isEnd_unplaced (s : Statement) : s.unplaced.isEnd = s.isEnd := by
  cases s <;> rfl

/-- ENDs are at the same places wherever the statements stand. -/
theorem map_isEnd_of_unplaced {ss ss' : List Statement}
    (h : ss'.map Statement.unplaced = ss.map Statement.unplaced) :
    ss'.map Statement.isEnd = ss.map Statement.isEnd := by
  have hcomp : Statement.isEnd ∘ Statement.unplaced = Statement.isEnd :=
    funext Statement.isEnd_unplaced
  have hmap := congrArg (List.map Statement.isEnd) h
  rwa [List.map_map, List.map_map, hcomp] at hmap

/-- What is written of a canonical program is read again. -/
theorem parse_of_prints {ss : List Statement} {text : Text} (hss : Canonical ss)
    (h : Prints ss text) :
    ∃ ss', parse text = .ok ss' ∧ ss'.map Statement.unplaced = ss.map Statement.unplaced := by
  obtain ⟨gap, body, rfl, hgap, hbody⟩ := h
  -- the text is tiled by tokens that spell the program, so these are read
  obtain ⟨segments, ss', hspells, hsame, htiled⟩ := hbody.tiled hss.statements
  have hlex : lex (gap ++ body) = ⟨segments.flatten, none⟩ :=
    lexFrom_eq_iff.2 (htiled.behind_gap hgap)
  have hsplit : Split (lex (gap ++ body)).tokens segments [] ss' := by
    rw [hlex]
    exact ⟨(List.append_nil _).symm, hspells, ends_of_isEnd (map_isEnd_of_unplaced hsame) hss.ends,
      fun t ht => absurd ht (by simp)⟩
  exact ⟨ss', statements_of_split _ (lexical_lex _) hsplit, hsame⟩

/-! ## §2. What is read is canonical. -/

/-- A word of a source is in upper case and names no register. -/
theorem word_of_lex {source : Text} {t : Token} (ht : t ∈ (lex source).tokens)
    (hword : t.isWord = true) : t.text.upper = t.text ∧ ∀ r : Register, t.text ≠ r.name := by
  obtain ⟨before, spelling, rest, -, -, -, hspelling⟩ := (tiled_lexFrom 0 source).spelled ht
  obtain ⟨kind, text, span⟩ := t
  cases hspelling with
  | word _ _ _ hkind =>
    refine ⟨Text.upper_upper _, ?_⟩
    cases hkind with
    | register r => exact absurd hword (by simp [Token.isWord])
    | number hfree => exact hfree
    | ident hfree => exact hfree
  | _ => exact absurd hword (by simp [Token.isWord])

theorem labelWord_of_lex {source : Text} {t : Token} (ht : t ∈ (lex source).tokens)
    (hword : t.isWord = true) (hname : LabelName t.text) : LabelWord t.text := by
  obtain ⟨hupper, hfree⟩ := word_of_lex ht hword
  -- the text is its own upper case, so each of its letters is
  have hstays : ∀ c ∈ t.text, c.toUpper = id c :=
    List.map_inj_left.1 (hupper.trans (List.map_id _).symm)
  refine ⟨hname.1, fun c hc => ?_, hfree⟩
  rcases hname.2 c hc with halpha | hunderscore
  · have hcase := Text.isUpper_toUpper halpha
    rw [hstays c hc] at hcase
    exact .inl hcase
  · exact .inr hunderscore

theorem Following.exists_denotes {m : Mnemonic} {row : List Token} {os : List Operand}
    (h : Following m row os) : ∀ o ∈ os, ∃ t ∈ row, t.Denotes m o.value := by
  induction h with
  | nil =>
    intro o ho
    exact absurd ho (by simp)
  | @cons comma t v ts os _ hdenotes _ ih =>
    intro o ho
    rcases List.mem_cons.1 ho with rfl | ho
    · exact ⟨t, by simp, hdenotes⟩
    · obtain ⟨t', ht', hdenotes'⟩ := ih o ho
      exact ⟨t', by simp [ht'], hdenotes'⟩

/-- Every operand is what a token stands for. -/
theorem OperandRow.exists_denotes {m : Mnemonic} {row : List Token} {os : List Operand}
    (h : OperandRow m row os) : ∀ o ∈ os, ∃ t ∈ row, t.Denotes m o.value := by
  cases h with
  | nil =>
    intro o ho
    exact absurd ho (by simp)
  | @cons t v ts os hdenotes hrow =>
    intro o ho
    rcases List.mem_cons.1 ho with rfl | ho
    · exact ⟨t, by simp, hdenotes⟩
    · obtain ⟨t', ht', hdenotes'⟩ := hrow.exists_denotes o ho
      exact ⟨t', by simp [ht'], hdenotes'⟩

/-- A statement that tokens of a source spell is canonical. -/
theorem canonical_of_spells {source : Text} {segment : List Token} {s : Statement}
    (htokens : ∀ t ∈ segment, t ∈ (lex source).tokens) (h : Statement.Spells segment s) :
    s.Canonical := by
  cases h with
  | label hhead hname => exact labelWord_of_lex (htokens _ List.mem_cons_self) hhead hname
  | @code head row i _ _ hrow hformed =>
    refine ⟨hformed, fun o ho name distance hvalue => ?_⟩
    obtain ⟨t, ht, hdenotes⟩ := hrow.exists_denotes o ho
    rw [hvalue] at hdenotes
    cases hdenotes with
    | label _ hword hname =>
      exact ⟨labelWord_of_lex (htokens t (List.mem_cons_of_mem _ ht)) hword hname, rfl⟩

/-- What is read is canonical. -/
theorem canonical_of_parse {source : Text} {ss : List Statement} (h : parse source = .ok ss) :
    Canonical ss := by
  obtain ⟨segments, rest, hsplit⟩ := split_of_statements (lexical_lex source) h
  refine ⟨hsplit.ends, fun s hs => ?_⟩
  obtain ⟨segment, hsegment, hspells⟩ := exists_mem_of_forall₂ hsplit.spells hs
  have htokens : ∀ t ∈ segment, t ∈ (lex source).tokens := by
    intro t ht
    rw [hsplit.tokens]
    exact List.mem_append_left _ (List.mem_flatten.2 ⟨segment, hsegment, ht⟩)
  exact canonical_of_spells htokens hspells

/-! ## §3. A printer. -/

/-- The character as it stands in a string. -/
def printChar (c : Char) : Text :=
  if c = '\n' then ['\\', 'n'] else if c = '\x22' ∨ c = '\\' then ['\\', c] else [c]

def Operand.Value.print : Operand.Value → Text
  | .number n => Text.Hex.ofByte n
  | .address a => '[' :: Text.Hex.ofByte a ++ [']']
  | .register r => r.name
  | .registerAddress r => '[' :: r.name ++ [']']
  | .label name _ => name
  | .string t => '\x22' :: t.flatMap printChar ++ ['\x22']

def printOperands : List Operand.Value → Text
  | [] => []
  | v :: vs => ' ' :: v.print ++ vs.flatMap fun v => ", ".toList ++ v.print

def Statement.print : Statement → Text
  | .label name _ => name ++ [':']
  | .instruction i => i.mnemonic.name ++ printOperands (i.operands.map Operand.value)

/-- The program with a statement on each line. -/
def print (ss : List Statement) : Text := ss.flatMap fun s => s.print ++ ['\n']

theorem hexRun_ofByte (b : Byte) : HexRun (Text.Hex.ofByte b) b.toNat := by
  have hlt := b.toNat_lt
  have hhigh : Text.Hex.digitValue? (Text.Hex.digit (b.toNat / 16)) = some (b.toNat / 16) :=
    Text.Hex.digitValue?_digit _ (by omega)
  have hlow : Text.Hex.digitValue? (Text.Hex.digit (b.toNat % 16)) = some (b.toNat % 16) :=
    Text.Hex.digitValue?_digit _ (by omega)
  have hrun := HexRun.snoc (.digit hhigh) hlow
  rwa [Nat.div_add_mod'] at hrun

theorem escaped_flatMap (t : Text) : Escaped t (t.flatMap printChar) := by
  induction t with
  | nil => exact .nil
  | cons c t ih =>
    rw [List.flatMap_cons]
    unfold printChar
    split
    · next hc =>
      subst hc
      exact .escape .newline ih
    split
    · next hc =>
      refine .escape (.other ?_) ih
      rcases hc with rfl | rfl <;> decide
    · next hline hmark => exact .plain (by simpa [not_or, hline] using hmark) ih

theorem padding_nil : Padding [] := by
  intro c hc
  exact absurd hc (by simp)

theorem LabelWord.upper_eq {name : Text} (h : LabelWord name) : name.upper = name := by
  have hstays : ∀ c ∈ name, c.toUpper = id c := by
    intro c hc
    rcases Text.toUpper_cases c with ⟨hlo, -, -⟩ | ⟨-, hsame⟩
    · rcases h.chars c hc with hupper | rfl
      · have hhi := (Text.isUpper_iff.1 hupper).2
        omega
      · rfl
    · exact hsame
  exact (List.map_inj_left.2 hstays).trans (List.map_id _)

theorem writesValue_print {m : Mnemonic} {v : Operand.Value} (hsuits : Suits m v)
    (hnone : ∀ name distance, v = .label name distance → distance = none) :
    WritesValue v v.print := by
  cases v with
  | number n => exact .number (hexRun_ofByte n)
  | address a =>
    have := WritesValue.address (hexRun_ofByte a) padding_nil padding_nil
    simpa [Operand.Value.print] using this
  | register r => exact .register r.upper_name
  | registerAddress r =>
    have := WritesValue.registerAddress r.upper_name padding_nil padding_nil
    simpa [Operand.Value.print] using this
  | label name distance =>
    obtain rfl := hnone name distance rfl
    exact .label hsuits.2.upper_eq
  | string t => exact .string (escaped_flatMap t)

theorem writesFollowing_print {vs : List Operand.Value} (h : ∀ v ∈ vs, WritesValue v v.print) :
    WritesFollowing vs (vs.flatMap fun v => ", ".toList ++ v.print) := by
  induction vs with
  | nil => exact .nil
  | cons v vs ih =>
    have hblank : Gap [' '] := .blank (by decide) .nil
    have hv := WritesFollowing.cons .nil hblank (h v List.mem_cons_self)
      (ih fun v hv => h v (List.mem_cons_of_mem _ hv))
    simpa using hv

theorem writes_print {s : Statement} (h : s.Canonical) : Writes s s.print := by
  cases s with
  | label name span => exact .label h.upper_eq .nil
  | instruction i =>
    have hvalues : ∀ v ∈ i.operands.map Operand.value, WritesValue v v.print := by
      intro v hv
      refine writesValue_print (h.suits v hv) fun name distance hlabel => ?_
      obtain ⟨o, ho, rfl⟩ := List.mem_map.1 hv
      exact (h.2 o ho name distance hlabel).2
    have hname := i.mnemonic.upper_name
    cases hoperands : i.operands.map Operand.value with
    | nil =>
      -- no blank is printed behind a mnemonic that stands alone
      have hnone : i.operands = [] := List.map_eq_nil_iff.1 hoperands
      rw [Statement.print, hoperands, printOperands, List.append_nil]
      exact .bare hname hnone
    | cons v vs =>
      rw [hoperands] at hvalues
      have hgap : Gap [' '] := .blank (by decide) .nil
      rw [Statement.print, hoperands, printOperands]
      have hwrites := Writes.code hname hgap (by simp) hoperands (hvalues v List.mem_cons_self)
        (writesFollowing_print fun v hv => hvalues v (List.mem_cons_of_mem _ hv))
      simpa using hwrites

theorem writesAll_print {ss : List Statement} (hss : ∀ s ∈ ss, s.Canonical) (hne : ss ≠ []) :
    WritesAll ss (print ss) := by
  have hline : Gap ['\n'] := .blank (by decide) .nil
  induction ss with
  | nil => exact absurd rfl hne
  | cons s ss ih =>
    have hs := writes_print (hss s List.mem_cons_self)
    rw [print, List.flatMap_cons, List.append_assoc]
    cases ss with
    | nil => exact .last hs (.gap hline)
    | cons s' ss =>
      exact .cons hs hline (by simp) (ih (fun s hs => hss s (List.mem_cons_of_mem _ hs)) (by simp))

/-- A canonical program can be written. -/
theorem prints_print {ss : List Statement} (h : Canonical ss) : Prints ss (print ss) := by
  have hne : ss ≠ [] := by
    obtain ⟨before, last, rfl, -⟩ := h.ends
    simp
  exact ⟨[], print ss, rfl, .nil, writesAll_print h.statements hne⟩

/-! ## §4. Both ways. -/

/-- **Writing and reading undo each other.**  A canonical program can be written
down, and however it is written it is read again as what it was, up to places;
and what is read of any source is canonical, so that it can be written and is
read again. -/
theorem parse_prints :
    (∀ ss, Canonical ss → Prints ss (print ss) ∧ ∀ text, Prints ss text →
      ∃ ss', parse text = .ok ss' ∧ ss'.map Statement.unplaced = ss.map Statement.unplaced)
    ∧ ∀ source ss, parse source = .ok ss → Canonical ss ∧ Prints ss (print ss)
      ∧ ∀ text, Prints ss text →
        ∃ ss', parse text = .ok ss' ∧ ss'.map Statement.unplaced = ss.map Statement.unplaced := by
  have hwritten : ∀ ss, Canonical ss → Prints ss (print ss) ∧ ∀ text, Prints ss text →
      ∃ ss', parse text = .ok ss' ∧ ss'.map Statement.unplaced = ss.map Statement.unplaced :=
    fun ss hss => ⟨prints_print hss, fun text => parse_of_prints hss⟩
  refine ⟨hwritten, fun source ss h => ?_⟩
  have hss := canonical_of_parse h
  exact ⟨hss, hwritten ss hss⟩

/-- Labels that look like a number and like a directive, and a string with a
quote, a backslash, a semicolon and a newline. -/
def awkward : Text :=
  "face: End: jmp fAce mov AL,[ 0f ] DB \"a\\\"b\\\\;\\n\" end".toList

theorem parse_prints_awkward : ∃ ss ss', parse awkward = .ok ss ∧ ss.length = 6 ∧ Canonical ss
    ∧ parse (print ss) = .ok ss' ∧ ss'.map Statement.unplaced = ss.map Statement.unplaced := by
  have hread : (parse awkward).toOption.map List.length = some 6 := by decide +kernel
  obtain ⟨ss, hss, hlen⟩ := exists_of_toOption_map hread
  obtain ⟨hcanonical, hprints, hback⟩ := parse_prints.2 awkward ss hss
  obtain ⟨ss', hss', hsame⟩ := hback (print ss) hprints
  exact ⟨ss, ss', hss, hlen, hcanonical, hss', hsame⟩

example : (parse "add: jz add db \"\\\";\" end".toList).toOption.map print
    = some "ADD:\nJZ ADD\nDB \"\\\";\"\nEND\n".toList := by decide +kernel

end EightBit
