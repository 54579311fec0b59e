/-
  EightBit.Proofs.Program.Reading
  ───────────────────────────────
  **WHAT THE READER OF A SOURCE ACCEPTS.**

  The grammar of programs, said without the reader: which tokens spell a label,
  which an instruction, and how the tokens of a program are split among its
  statements.  A program is read exactly where its tokens are split so, and a
  list of tokens has one such split at most.

  Main results:
    • `read_eq_ok_iff`       — one statement is read where one is spelled;
    • `statements_of_split`, `split_of_statements` — a program is read where its
                               tokens are split;
    • `split_unique`         — a split is determined by the tokens;
    • `statements_iff_split` — the two together.
-/
import EightBit.Proofs.Program.Operands
import EightBit.Proofs.Source.Tiling

namespace EightBit

/-! ## §1. Statements. -/

/-- **Which tokens spell the statement.** -/
inductive Statement.Spells : List Token → Statement → Prop where
  /-- A word that can name a label, and a colon. -/
  | label {head colon : Token} : head.isWord = true → LabelName head.text → colon.kind = .colon →
    Spells [head, colon] (.label head.text (head.span.join colon.span))
  /-- The name of a mnemonic, and operands of kinds that one of its forms has.
  The instruction stands from its mnemonic to its last operand. -/
  | code {head : Token} {row : List Token} {i : Instruction} : head.isWord = true →
    head.text.upper = i.mnemonic.name → OperandRow i.mnemonic row i.operands → i.Formed →
    i.span = i.operands.getLast?.elim head.span (fun o => head.span.join o.span) →
    Spells (head :: row) (.instruction i)

/-- Behind a single token stands no colon, which would make it a label. -/
def NoLabel (segment rest : List Token) : Prop :=
  segment.length = 1 → ∀ t, rest.head? = some t → t.kind ≠ .colon

namespace Instruction

/-- The kinds of a form select the form's opcode. -/
theorem eq_ofOperands {i : Instruction} {head : Span} (h : i.Formed)
    (hspan : i.span = i.operands.getLast?.elim head (fun o => head.join o.span)) :
    i = ofOperands i.mnemonic head i.operands := by
  obtain ⟨f, hf, hkinds, hopcode⟩ := h
  obtain ⟨m, opcode, operands, span⟩ := i
  have hselect : m.select (operands.map fun o => o.value.kind) = some f := by
    rw [← Mnemonic.select_operands hf]
    exact congrArg m.select hkinds
  simp only [ofOperands, hselect, Option.bind_some, Instruction.mk.injEq, true_and]
  refine ⟨hopcode, hspan.trans ?_⟩
  cases operands.getLast? <;> rfl

theorem span_ofOperands (m : Mnemonic) (head : Span) (operands : List Operand) :
    (ofOperands m head operands).span
      = operands.getLast?.elim head (fun o => head.join o.span) := by
  unfold ofOperands
  cases operands.getLast? <;> rfl

end Instruction

namespace Statement

variable {ending : SourceError} {ts rest : List Token} {s : Statement}

/-- A word and a colon are read as a label. -/
theorem read_label {head colon : Token} (hhead : head.isWord = true) (hcolon : colon.kind = .colon) :
    read ending (head :: colon :: ts) = (labelName head).map fun name =>
      (.label name (head.span.join colon.span), ts) := by
  obtain ⟨kind, text, span⟩ := colon
  subst hcolon
  rw [read, if_pos hhead]

/-- A word without a colon is read as the name of a mnemonic. -/
theorem read_code {head : Token} (hhead : head.isWord = true)
    (hts : ∀ t, ts.head? = some t → t.kind ≠ .colon) : read ending (head :: ts) =
      match Mnemonic.parse? head.text with
      | none => .error ⟨.statement head.describe, head.span⟩
      | some m =>
        (Instruction.readOperands m ending m.arity [] ts).map fun (operands, rest) =>
          (.instruction (.ofOperands m head.span operands), rest) := by
  unfold read
  simp only [hhead, if_true]
  split
  · exact absurd rfl (hts _ rfl)
  · rfl

theorem read_of_not_isWord {head : Token} (hhead : ¬ head.isWord = true) :
    read ending (head :: ts) = .error ⟨.statement head.describe, head.span⟩ := by
  unfold read
  simp only [hhead]
  rfl

/-- The tokens of an instruction are read where no colon makes a label of its
mnemonic. -/
theorem read_code_eq_ok_iff {head : Token} (hhead : head.isWord = true)
    (hts : ∀ t, ts.head? = some t → t.kind ≠ .colon) (hlex : ∀ t ∈ ts, t.Lexical) :
    read ending (head :: ts) = .ok (s, rest) ↔ ∃ row i, ts = row ++ rest ∧ s = .instruction i
      ∧ Spells (head :: row) (.instruction i) := by
  rw [read_code hhead hts]
  constructor
  · intro h
    split at h
    · exact absurd h (by simp)
    · next m hm =>
      obtain ⟨⟨operands, rest'⟩, hread, heq⟩ := map_eq_ok_iff.1 h
      obtain ⟨rfl, rfl⟩ := Prod.mk.inj heq
      have hformed : (Instruction.ofOperands m head.span operands).Formed :=
        Instruction.formed_ofOperands hread
      obtain ⟨row, rfl, hrow, -⟩ := (Instruction.readOperands_eq_ok_iff hlex).1 hread
      exact ⟨row, _, rfl, rfl, .code hhead (Mnemonic.parse?_eq_some_iff.1 hm) hrow hformed
        (Instruction.span_ofOperands m head.span operands)⟩
  · intro h
    obtain ⟨row, i, rfl, rfl, hspells⟩ := h
    cases hspells with
    | code _ hname hrow hformed hspan =>
      have hkinds : ∃ f ∈ i.mnemonic.forms, kindsOf i.operands = f.operands := by
        obtain ⟨f, hf, hkinds, -⟩ := hformed
        exact ⟨f, hf, hkinds⟩
      have hread : Instruction.readOperands i.mnemonic ending i.mnemonic.arity [] (row ++ rest)
          = .ok (i.operands, rest) :=
        (Instruction.readOperands_eq_ok_iff hlex).2 ⟨row, rfl, hrow, hkinds⟩
      rw [Mnemonic.parse?_eq_some_iff.2 hname]
      refine map_eq_ok_iff.2 ⟨_, hread, ?_⟩
      show (Statement.instruction (.ofOperands i.mnemonic head.span i.operands), rest) = _
      rw [← Instruction.eq_ofOperands hformed hspan]

/-- A segment begins with a word. -/
theorem Spells.isWord_head {segment : List Token} (h : Spells segment s) :
    ∃ head tail, segment = head :: tail ∧ head.isWord = true := by
  cases h with
  | label hhead => exact ⟨_, _, rfl, hhead⟩
  | code hhead => exact ⟨_, _, rfl, hhead⟩

/-- Behind a mnemonic stands no colon, in its own tokens or behind them. -/
theorem head?_ne_colon {m : Mnemonic} {head : Token} {row : List Token} {os : List Operand}
    (hrow : OperandRow m row os) (hrest : NoLabel (head :: row) rest) :
    ∀ t, (row ++ rest).head? = some t → t.kind ≠ .colon := by
  intro t ht
  cases hrow with
  | nil => exact hrest rfl t ht
  | cons hdenotes =>
    obtain rfl := Option.some.inj ht
    exact hdenotes.kind_ne_colon

/-- **One statement is read where one is spelled**, and no label is. -/
theorem read_eq_ok_iff (hts : ∀ t ∈ ts, t.Lexical) : read ending ts = .ok (s, rest)
    ↔ ∃ segment, ts = segment ++ rest ∧ Spells segment s ∧ NoLabel segment rest := by
  constructor
  · intro h
    cases ts with
    | nil => exact absurd h (by simp [read])
    | cons head ts =>
      -- one token of lookahead: a colon behind a word makes it a label
      by_cases hhead : head.isWord = true
      · by_cases hlabel : ∃ colon ts', ts = colon :: ts' ∧ colon.kind = .colon
        · obtain ⟨colon, ts', rfl, hcolon⟩ := hlabel
          rw [read_label hhead hcolon] at h
          obtain ⟨name, hread, heq⟩ := map_eq_ok_iff.1 h
          obtain ⟨hname, rfl⟩ := labelName_eq_ok_iff.1 hread
          obtain ⟨rfl, rfl⟩ := Prod.mk.inj heq
          exact ⟨[head, colon], rfl, .label hhead hname hcolon, fun hone => absurd hone (by simp)⟩
        · have hnext : ∀ t, ts.head? = some t → t.kind ≠ .colon := by
            intro t ht hcolon
            cases ts with
            | nil => exact absurd ht (by simp)
            | cons t' ts' =>
              obtain rfl := Option.some.inj ht
              exact hlabel ⟨_, ts', rfl, hcolon⟩
          have hlex : ∀ t ∈ ts, t.Lexical := fun t ht => hts t (List.mem_cons_of_mem _ ht)
          obtain ⟨row, i, rfl, rfl, hspells⟩ := (read_code_eq_ok_iff hhead hnext hlex).1 h
          refine ⟨head :: row, rfl, hspells, fun hone t ht => hnext t ?_⟩
          obtain rfl : row = [] := by simpa using hone
          exact ht
      · rw [read_of_not_isWord hhead] at h
        exact absurd h (by simp)
  · intro h
    obtain ⟨segment, rfl, hspells, hrest⟩ := h
    cases hspells with
    | label hhead hname hcolon =>
      show read ending (_ :: _ :: rest) = _
      rw [read_label hhead hcolon, map_eq_ok_iff]
      exact ⟨_, labelName_eq_ok_iff.2 ⟨hname, rfl⟩, rfl⟩
    | @code head row i hhead hname hrow hformed hspan =>
      have hlex : ∀ t ∈ row ++ rest, t.Lexical := fun t ht => hts t (List.mem_cons_of_mem _ ht)
      exact (read_code_eq_ok_iff hhead (head?_ne_colon hrow hrest) hlex).2
        ⟨row, i, rfl, rfl, .code hhead hname hrow hformed hspan⟩

end Statement

/-! ## §2. Programs. -/

/-- **A split of the tokens** into segments that spell the statements, and the
tokens behind them. -/
structure Split (ts : List Token) (segments : List (List Token)) (rest : List Token)
    (ss : List Statement) : Prop where
  tokens : ts = segments.flatten ++ rest
  spells : List.Forall₂ Statement.Spells segments ss
  /-- The last statement is END, and none before it is. -/
  ends : ∃ before last, ss = before ++ [last] ∧ last.isEnd = true ∧ ∀ s ∈ before, s.isEnd = false
  /-- No colon makes a label of the last END. -/
  closed : ∀ t, rest.head? = some t → t.kind ≠ .colon

/-- The last statement is the only END in every list with ENDs at the same places. -/
theorem ends_of_isEnd {ss ss' : List Statement}
    (h : ss'.map Statement.isEnd = ss.map Statement.isEnd)
    (hends : ∃ before last, ss = before ++ [last] ∧ last.isEnd = true
      ∧ ∀ s ∈ before, s.isEnd = false) :
    ∃ before last, ss' = before ++ [last] ∧ last.isEnd = true ∧ ∀ s ∈ before, s.isEnd = false := by
  obtain ⟨before, last, rfl, hlast, hbefore⟩ := hends
  rw [List.map_append, List.map_singleton] at h
  obtain ⟨before', tail, rfl, hmap, htail⟩ := List.map_eq_append_iff.1 h
  obtain ⟨last', rfl, hsame⟩ := List.map_eq_singleton_iff.1 htail
  refine ⟨before', last', rfl, hsame.trans hlast, fun s' hs' => ?_⟩
  -- a statement before the last has its counterpart there
  have hmem : s'.isEnd ∈ before.map Statement.isEnd := hmap ▸ List.mem_map_of_mem hs'
  obtain ⟨s, hs, hsame'⟩ := List.mem_map.1 hmem
  rw [← hsame', hbefore s hs]

namespace Split

variable {ts rest : List Token} {segment : List Token} {segments : List (List Token)}
  {s : Statement} {ss : List Statement}

/-- END is one token. -/
theorem length_of_isEnd (h : Statement.Spells segment s) (hend : s.isEnd = true) :
    segment.length = 1 := by
  cases h with
  | label => exact absurd hend (by simp [Statement.isEnd])
  | @code head row i _ _ hrow hformed =>
    have hm : i.mnemonic = .finish := by simpa [Statement.isEnd] using hend
    obtain ⟨f, hf, hkinds, -⟩ := hformed
    rw [hm] at hf
    obtain rfl : f = ⟨[], some .halt⟩ := by simpa [Mnemonic.forms] using hf
    have hnone : i.operands = [] := by simpa [Instruction.kinds] using hkinds
    rw [hnone] at hrow
    cases hrow
    rfl

theorem single (h : Statement.Spells segment s) (hend : s.isEnd = true)
    (hclosed : ∀ t, rest.head? = some t → t.kind ≠ .colon) :
    Split (segment ++ rest) [segment] rest [s] where
  tokens := by simp
  spells := .cons h .nil
  ends := ⟨[], s, rfl, hend, by simp⟩
  closed := hclosed

theorem cons (h : Statement.Spells segment s) (hend : s.isEnd = false)
    (hsplit : Split ts segments rest ss) :
    Split (segment ++ ts) (segment :: segments) rest (s :: ss) := by
  obtain ⟨rfl, hspells, ⟨before, last, rfl, hlast, hbefore⟩, hclosed⟩ := hsplit
  refine ⟨by simp, .cons h hspells, ⟨s :: before, last, rfl, hlast, ?_⟩, hclosed⟩
  intro s' hs'
  rcases List.mem_cons.1 hs' with rfl | hs'
  · exact hend
  · exact hbefore s' hs'

/-- A split has one segment, which is END, or one in front of a split. -/
theorem cases (h : Split ts segments rest ss) : ∃ segment s, Statement.Spells segment s
    ∧ ((s.isEnd = true ∧ segments = [segment] ∧ ss = [s] ∧ ts = segment ++ rest)
      ∨ (s.isEnd = false ∧ ∃ ts' segments' ss', segments = segment :: segments' ∧ ss = s :: ss'
        ∧ ts = segment ++ ts' ∧ Split ts' segments' rest ss')) := by
  obtain ⟨rfl, hspells, ⟨before, last, hss, hlast, hbefore⟩, hclosed⟩ := h
  cases hspells with
  | nil => exact absurd hss (by simp)
  | @cons segment s segments ss hs hspells =>
    refine ⟨segment, s, hs, ?_⟩
    cases before with
    | nil =>
      left
      obtain ⟨rfl, rfl⟩ := List.cons.inj hss
      cases hspells
      exact ⟨hlast, rfl, rfl, by simp⟩
    | cons b before =>
      right
      obtain ⟨rfl, rfl⟩ := List.cons.inj hss
      exact ⟨hbefore s List.mem_cons_self, segments.flatten ++ rest, segments, _, rfl, rfl, by simp,
        rfl, hspells, ⟨before, last, rfl, hlast, fun s' hs' => hbefore s' (List.mem_cons_of_mem _ hs')⟩,
        hclosed⟩

/-- The tokens of a split begin with a word. -/
theorem head_ne_colon (h : Split ts segments rest ss) :
    ∀ t, ts.head? = some t → t.kind ≠ .colon := by
  obtain ⟨segment, s, hs, hcases⟩ := h.cases
  obtain ⟨head, tail, rfl, hhead⟩ := hs.isWord_head
  have hts : ts.head? = some head := by
    rcases hcases with ⟨-, -, -, rfl⟩ | ⟨-, ts', -, -, -, -, rfl, -⟩ <;> rfl
  intro t ht hcolon
  rw [hts] at ht
  obtain rfl := Option.some.inj ht
  exact absurd hhead (by simp [Token.isWord, hcolon])

end Split

theorem statements_of_read {ending : SourceError} {ts rest : List Token} {s : Statement}
    (h : Statement.read ending ts = .ok (s, rest)) : statements ending ts
      = if s.isEnd then .ok [s] else (statements ending rest).map (s :: ·) := by
  rw [statements]
  split
  · next e he => exact absurd (he.symm.trans h) (by simp)
  · next s' rest' hread =>
    obtain ⟨rfl, rfl⟩ := Prod.mk.inj (Except.ok.inj (hread.symm.trans h))
    rfl

/-- A program is split where it is read. -/
theorem split_of_statements {ending : SourceError} {ts : List Token} {ss : List Statement}
    (hts : ∀ t ∈ ts, t.Lexical) (h : statements ending ts = .ok ss) :
    ∃ segments rest, Split ts segments rest ss := by
  -- along the reader: a fault, the last statement, or one more before the rest
  fun_induction statements ending ts generalizing ss with
  | case1 => exact absurd h (by simp)
  | case2 ts s rest hread hend =>
    injection h with h
    subst h
    obtain ⟨segment, rfl, hs, hrest⟩ := (Statement.read_eq_ok_iff hts).1 hread
    exact ⟨[segment], rest, .single hs hend (hrest (Split.length_of_isEnd hs hend))⟩
  | case3 ts s rest hread hend ih =>
    obtain ⟨tail, htail, rfl⟩ := map_eq_ok_iff.1 h
    obtain ⟨segment, rfl, hs, -⟩ := (Statement.read_eq_ok_iff hts).1 hread
    obtain ⟨segments, rest', hsplit⟩ := ih (fun t ht => hts t (List.mem_append_right _ ht)) htail
    exact ⟨segment :: segments, rest', hsplit.cons hs (by simpa using hend)⟩

/-- A program is read where it is split. -/
theorem statements_of_split (ending : SourceError) {ts rest : List Token}
    {segments : List (List Token)} {ss : List Statement} (hts : ∀ t ∈ ts, t.Lexical)
    (h : Split ts segments rest ss) : statements ending ts = .ok ss := by
  -- along the statements: each is read from its segment, and what is left is split
  induction ss generalizing ts segments with
  | nil =>
    obtain ⟨before, last, hss, -⟩ := h.ends
    exact absurd hss (by simp)
  | cons s ss ih =>
    obtain ⟨segment, s', hs, hcases⟩ := h.cases
    rcases hcases with ⟨hend, -, hss, hcut⟩ | ⟨hend, ts', segments', ss', -, hss, hcut, hsplit⟩
    · obtain ⟨rfl, rfl⟩ := List.cons.inj hss
      rw [statements_of_read ((Statement.read_eq_ok_iff hts).2
        ⟨segment, hcut, hs, fun _ => h.closed⟩), if_pos hend]
    · obtain ⟨rfl, rfl⟩ := List.cons.inj hss
      have hts' : ∀ t ∈ ts', t.Lexical := fun t ht => hts t (hcut ▸ List.mem_append_right _ ht)
      rw [statements_of_read ((Statement.read_eq_ok_iff hts).2
        ⟨segment, hcut, hs, fun _ => hsplit.head_ne_colon⟩), if_neg (by simp [hend]), ih hts' hsplit]
      rfl

/-! ### One split at most. -/

/-- The number of tokens that spell the statement. -/
def Statement.tokenCount : Statement → Nat
  | .label .. => 2
  | .instruction i => 1 + (2 * i.operands.length - 1)

theorem Following.length_eq {m : Mnemonic} {row : List Token} {os : List Operand}
    (h : Following m row os) : row.length = 2 * os.length := by
  induction h with
  | nil => rfl
  | cons _ _ _ ih =>
    simp only [List.length_cons, ih]
    omega

theorem Statement.Spells.length_eq {segment : List Token} {s : Statement}
    (h : Spells segment s) : segment.length = s.tokenCount := by
  cases h with
  | label => rfl
  | @code head row i _ _ hrow =>
    rw [tokenCount, List.length_cons, Nat.add_comm]
    generalize i.operands = os at hrow
    cases hrow with
    | nil => rfl
    | cons _ hrow =>
      rw [List.length_cons, List.length_cons, hrow.length_eq]
      omega

/-- Segments that spell the same statements split the same tokens alike. -/
theorem segments_unique {segments segments' : List (List Token)} {rest rest' : List Token}
    {ss : List Statement} (h : List.Forall₂ Statement.Spells segments ss)
    (h' : List.Forall₂ Statement.Spells segments' ss)
    (heq : segments.flatten ++ rest = segments'.flatten ++ rest') :
    segments = segments' ∧ rest = rest' := by
  -- the statement says how many tokens its segment has
  induction h generalizing segments' with
  | nil =>
    cases h'
    exact ⟨rfl, heq⟩
  | @cons segment s segments ss hs _ ih =>
    cases h' with
    | @cons segment' _ segments' _ hs' hss' =>
      have hlen : segment.length = segment'.length := by rw [hs.length_eq, hs'.length_eq]
      simp only [List.flatten_cons, List.append_assoc] at heq
      obtain ⟨rfl, htail⟩ := List.append_inj heq hlen
      obtain ⟨rfl, rfl⟩ := ih hss' htail
      exact ⟨rfl, rfl⟩

/-- A list of tokens has one split at most, and it spells one list of
statements. -/
theorem split_unique {ts rest rest' : List Token} {segments segments' : List (List Token)}
    {ss ss' : List Statement} (hts : ∀ t ∈ ts, t.Lexical) (h : Split ts segments rest ss)
    (h' : Split ts segments' rest' ss') : segments = segments' ∧ rest = rest' ∧ ss = ss' := by
  -- both splits are read, and reading has one result
  have hread := statements_of_split (missingEnd 0) hts h
  rw [statements_of_split (missingEnd 0) hts h'] at hread
  injection hread with hss
  subst hss
  obtain ⟨hsegments, hrest⟩ := segments_unique h.spells h'.spells (h.tokens.symm.trans h'.tokens)
  exact ⟨hsegments, hrest, rfl⟩

/-- Tokens that are spelled have digits in their numbers. -/
theorem lexical_lex (source : Text) : ∀ t ∈ (lex source).tokens, t.Lexical := by
  intro t ht hnumber
  obtain ⟨before, spelling, rest, -, -, -, hspelling⟩ := (tiled_lexFrom 0 source).spelled ht
  rw [hnumber] at hspelling
  generalize t.text = text at hspelling
  cases hspelling with
  | word _ _ _ hkind =>
    cases hkind with
    | number _ hdigits => exact hdigits

/-- **The reader accepts its grammar, and nothing else.**  Tokens are read as
statements exactly where they are split into segments that spell the
statements, whatever is wrong behind the last token; and there is one split at
most. -/
theorem statements_iff_split (ending : SourceError) {ts : List Token} (hts : ∀ t ∈ ts, t.Lexical) :
    (∀ ss, statements ending ts = .ok ss ↔ ∃ segments rest, Split ts segments rest ss)
    ∧ ∀ segments segments' rest rest' ss ss', Split ts segments rest ss →
      Split ts segments' rest' ss' → segments = segments' ∧ rest = rest' ∧ ss = ss' := by
  refine ⟨fun ss => ⟨split_of_statements hts, ?_⟩, fun _ _ _ _ _ _ => split_unique hts⟩
  intro h
  obtain ⟨segments, rest, hsplit⟩ := h
  exact statements_of_split ending hts hsplit

/-- A source whose labels are a number and a directive, and which goes on behind
its END. -/
def wordsByContext : Text := "face: end: jmp END\nadd al, 0fF mov [Bl], dl END 12,".toList

theorem statements_iff_split_wordsByContext : (∀ t ∈ (lex wordsByContext).tokens, t.Lexical)
    ∧ ∃ ss segments rest, Split (lex wordsByContext).tokens segments rest ss
      ∧ ss.length = 6 := by
  have hlex := lexical_lex wordsByContext
  have hread : ((statements (missingEnd 0) (lex wordsByContext).tokens).toOption.map
      List.length) = some 6 := by decide +kernel
  obtain ⟨ss, hss, hcount⟩ := exists_of_toOption_map hread
  obtain ⟨segments, rest, hsplit⟩ := ((statements_iff_split (missingEnd 0) hlex).1 ss).1 hss
  exact ⟨hlex, ss, segments, rest, hsplit, hcount⟩

end EightBit
