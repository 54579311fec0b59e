/-
  EightBit.Proofs.Program.SameTokens
  ──────────────────────────────────
  **ASSEMBLY DEPENDS ON THE TOKENS.**

  Two sources are read and assembled side by side.  Words are the same when
  they come out of the reader of tokens, and the bodies of addresses are read
  in either case; places go into what is built, and nothing is decided by them.
  So from tokens that are alike come statements, layouts and bytes that are
  the same, or errors that are.

  Main results:
    • `Token.Alike.readValue` — an operand has the same value;
    • `parallel_statements`   — a program has the same statements;
    • `assemble_relaid`       — a source in another layout has the same program.
-/
import EightBit.Proofs.Program.Relaying
import EightBit.Proofs.Program.Renaming

namespace EightBit

/-! ## §1. Errors that are alike. -/

/-- The cause with its texts in upper case. -/
def SourceError.Cause.upper : SourceError.Cause → SourceError.Cause
  | .statement found => .statement found.upper
  | .invalidLabel name => .invalidLabel name.upper
  | .invalidNumber text => .invalidNumber text.upper
  | .invalidAddress body => .invalidAddress body.upper
  | .operandType expected found => .operandType expected found.upper
  | cause => cause

/-- The same error up to case, wherever it is. -/
def SourceError.Alike (e e' : SourceError) : Prop := e'.cause.upper = e.cause.upper

/-! ## §2. Numbers in either case. -/

namespace Text.Hex

theorem isDigit_toUpper (c : Char) : isDigit c.toUpper = isDigit c := by
  rw [isDigit, isDigit, digitValue?_toUpper]

theorem value?_upper (t : Text) : value? (upper t) = value? t := by
  simp only [value?, upper, List.foldlM_map, digitValue?_toUpper]

theorem byte?_cons {c : Char} (hc : c ≠ '+') (cs : Text) :
    byte? (c :: cs) = (value? (c :: cs)).bind Byte.ofNat? := by
  unfold byte?
  split
  · next heq => exact absurd (List.cons.inj heq).1 hc
  · next heq => exact absurd heq (by simp)
  · next heq => exact absurd (List.cons.inj heq).1 hc
  · rfl

/-- A number is read in either case. -/
theorem byte?_upper (t : Text) : byte? (upper t) = byte? t := by
  cases t with
  | nil => rfl
  | cons c cs =>
    have hvalue := value?_upper (c :: cs)
    by_cases hplus : c = '+'
    · subst hplus
      cases cs with
      | nil => rfl
      | cons d ds =>
        show (value? (upper (d :: ds))).bind Byte.ofNat? = (value? (d :: ds)).bind Byte.ofNat?
        rw [value?_upper]
    -- another character is no sign in upper case
    · have hplus' : c.toUpper ≠ '+' := by
        intro h
        rcases toUpper_cases c with ⟨hlo, -, hmove⟩ | ⟨-, hsame⟩
        · rw [h] at hmove
          have hsign : '+'.toNat = 43 := rfl
          omega
        · exact hplus (hsame ▸ h)
      rw [byte?_cons hplus, ← hvalue]
      exact byte?_cons hplus' _

end Text.Hex

/-! ## §3. Tokens that are alike. -/

namespace Token.Alike

variable {t t' : Token}

theorem isWord_eq (h : t.Alike t') : t'.isWord = t.isWord := by
  rw [isWord, isWord, h.kind]

theorem ne_address_of_isWord (h : t.isWord = true) : t.kind ≠ .address := by
  intro hkind
  exact absurd h (by simp [isWord, hkind])

theorem describe_upper (h : t.Alike t') : t'.describe.upper = t.describe.upper := by
  unfold describe
  rw [h.kind]
  cases t.kind <;> simp only [Text.upper_append, h.upper]

theorem labelName (h : t.Alike t') (hword : t.isWord = true) :
    Parallel Eq SourceError.Alike (labelName t) (labelName t') := by
  have htext := h.text (ne_address_of_isWord hword)
  unfold EightBit.labelName
  rw [htext]
  split <;> rfl

theorem numberByte (h : t.Alike t') :
    Parallel Eq SourceError.Alike (numberByte t) (numberByte t') := by
  have hbyte : Text.Hex.byte? t'.text = Text.Hex.byte? t.text := by
    rw [← Text.Hex.byte?_upper, h.upper, Text.Hex.byte?_upper]
  unfold EightBit.numberByte
  rw [hbyte]
  cases Text.Hex.byte? t.text with
  | none => exact congrArg SourceError.Cause.invalidNumber h.upper
  | some n => rfl

theorem addressValue (h : t.Alike t') :
    Parallel Eq SourceError.Alike (Operand.addressValue t) (Operand.addressValue t') := by
  have hregister : Register.parse? t'.text = Register.parse? t.text := by
    rw [Register.parse?, Register.parse?, h.upper]
  have hdigits : (!t'.text.isEmpty && t'.text.all Text.Hex.isDigit)
      = (!t.text.isEmpty && t.text.all Text.Hex.isDigit) := by
    have hcase : ∀ s : Text, (!s.upper.isEmpty && s.upper.all Text.Hex.isDigit)
        = (!s.isEmpty && s.all Text.Hex.isDigit) := by
      intro s
      simp only [Text.upper, List.isEmpty_map, List.all_map, Function.comp_def,
        Text.Hex.isDigit_toUpper]
    rw [← hcase, h.upper, hcase]
  unfold Operand.addressValue
  rw [hregister, hdigits]
  cases Register.parse? t.text with
  | some r => rfl
  | none =>
    simp only
    split
    · exact h.numberByte.map fun n n' hn => congrArg Operand.Value.address hn
    · exact congrArg SourceError.Cause.invalidAddress h.upper

/-- An operand has the same value. -/
theorem readValue (h : t.Alike t') (admitted : List OperandKind) :
    Parallel Eq SourceError.Alike (Operand.readValue admitted t)
      (Operand.readValue admitted t') := by
  have herror : SourceError.Alike ⟨.operandType admitted t.describe, t.span⟩
      ⟨.operandType admitted t'.describe, t'.span⟩ :=
    congrArg (SourceError.Cause.operandType admitted) h.describe_upper
  unfold Operand.readValue
  rw [h.kind]
  -- of a label only words are asked, which are the same in both
  cases hkind : t.kind with
  | number =>
    simp only
    split
    · exact (h.labelName (by simp [isWord, hkind])).map fun n n' hn => by rw [hn]
    · exact h.numberByte.map fun n n' hn => congrArg Operand.Value.number hn
  | ident =>
    simp only
    split
    · exact (h.labelName (by simp [isWord, hkind])).map fun n n' hn => by rw [hn]
    · exact herror
  | register r => rfl
  | address => exact h.addressValue
  | string =>
    have htext := h.text (by simp [hkind])
    simp only [htext]
    rfl
  | colon => exact herror
  | comma => exact herror

end Token.Alike

/-! ## §4. Statements. -/

section Statements

variable {ts ts' : List Token} {os os' : List Operand} {ending ending' : SourceError}

theorem Operand.Value.Renames.refl (v : Operand.Value) : Renames Set.univ id v v := by
  cases v with
  | label => exact .label trivial
  | _ => exact .other (by simp [kind])

theorem Token.Alike.read {t t' : Token} (h : t.Alike t') (admitted : List OperandKind) :
    Parallel (Operand.Renames Set.univ id) SourceError.Alike (Operand.read admitted t)
      (Operand.read admitted t') := by
  unfold Operand.read
  rcases (h.readValue admitted).cases with ⟨e, e', he, he', herror⟩ | ⟨v, _, hv, hv', rfl⟩
  · rw [he, he']
    exact herror
  · rw [hv, hv']
    simp only
    split
    · exact Operand.Value.Renames.refl v
    · rfl

theorem kindsOf_renames {N : Set Text} {f : Text → Text}
    (h : List.Forall₂ (Operand.Renames N f) os os') : kindsOf os' = kindsOf os :=
  map_eq_of_forall₂ h fun _ _ ho => Operand.Value.Renames.kind_eq ho

theorem parallel_skipComma (hts : List.Forall₂ Token.Alike ts ts') (hending : ending.Alike ending') :
    Parallel (List.Forall₂ Token.Alike) SourceError.Alike (skipComma ending ts)
      (skipComma ending' ts') := by
  cases hts with
  | nil => exact hending
  | cons ht hts =>
    simp only [skipComma, ht.kind]
    split
    · exact hts
    · rfl

/-- Operands are read side by side, behind those that are read already. -/
theorem parallel_readOperands (m : Mnemonic) (hending : ending.Alike ending') (count : Nat)
    (hos : List.Forall₂ (Operand.Renames Set.univ id) os os')
    (hts : List.Forall₂ Token.Alike ts ts') :
    Parallel (fun r r' => List.Forall₂ (Operand.Renames Set.univ id) r.1 r'.1
        ∧ List.Forall₂ Token.Alike r.2 r'.2) SourceError.Alike
      (Instruction.readOperands m ending count os ts)
      (Instruction.readOperands m ending' count os' ts') := by
  induction count generalizing os os' ts ts' with
  | zero => exact ⟨hos, hts⟩
  | succ count ih =>
    have hfirst : os'.isEmpty = os.isEmpty := by cases hos <;> rfl
    have hskip : Parallel (List.Forall₂ Token.Alike) SourceError.Alike
        (if os.isEmpty then .ok ts else skipComma ending ts)
        (if os'.isEmpty then .ok ts' else skipComma ending' ts') := by
      rw [hfirst]
      split
      · exact hts
      · exact parallel_skipComma hts hending
    have hkinds := kindsOf_renames hos
    unfold kindsOf at hkinds
    simp only [Instruction.readOperands, hkinds, hos.length_eq]
    rcases hskip.cases with ⟨e, e', he, he', herror⟩ | ⟨us, us', hus, hus', halike⟩
    · simp only [he, he']
      exact herror
    · simp only [hus, hus']
      cases halike with
      | nil => exact hending
      | cons ht hrest =>
        simp only
        rcases (ht.read (m.admitted os'.length (os.map fun o => o.value.kind))).cases with
          ⟨e, e', he, he', herror⟩ | ⟨o, o', ho, ho', hsame⟩
        · simp only [he, he']
          exact herror
        · simp only [ho, ho']
          exact ih (List.rel_append hos (.cons hsame .nil)) hrest

theorem Instruction.renames_ofOperands (m : Mnemonic) (head head' : Span)
    (hos : List.Forall₂ (Operand.Renames Set.univ id) os os') :
    (ofOperands m head os).Renames Set.univ id (ofOperands m head' os') where
  mnemonic := rfl
  opcode := by
    have hkinds := kindsOf_renames hos
    unfold kindsOf at hkinds
    simp only [ofOperands, hkinds]
  operands := hos

/-- A statement is read side by side, and the tokens behind it are alike. -/
theorem parallel_read (hending : ending.Alike ending') (hts : List.Forall₂ Token.Alike ts ts') :
    Parallel (fun r r' => r.1.Renames Set.univ id r'.1 ∧ List.Forall₂ Token.Alike r.2 r'.2)
      SourceError.Alike (Statement.read ending ts) (Statement.read ending' ts') := by
  cases hts with
  | nil => exact hending
  | @cons head head' rest rest' hhead hrest =>
    have herror : SourceError.Alike ⟨.statement head.describe, head.span⟩
        ⟨.statement head'.describe, head'.span⟩ :=
      congrArg SourceError.Cause.statement hhead.describe_upper
    by_cases hword : head.isWord = true
    · have hword' : head'.isWord = true := by rw [hhead.isWord_eq, hword]
      by_cases hcolon : ∃ colon rest₂, rest = colon :: rest₂ ∧ colon.kind = .colon
      · obtain ⟨colon, rest₂, rfl, hcolon⟩ := hcolon
        cases hrest with
        | cons halike hrest =>
          rw [Statement.read_label hword hcolon,
            Statement.read_label hword' (halike.kind.trans hcolon)]
          refine (hhead.labelName hword).map fun name name' hname => ⟨?_, hrest⟩
          subst hname
          exact .label trivial
      · have hnext : ∀ t, rest.head? = some t → t.kind ≠ .colon := by
          intro t ht hkind
          obtain ⟨rest₂, rfl⟩ := List.head?_eq_some_iff.1 ht
          exact hcolon ⟨t, rest₂, rfl, hkind⟩
        have hnext' : ∀ t, rest'.head? = some t → t.kind ≠ .colon := by
          intro t ht
          cases hrest with
          | nil => exact absurd ht (by simp)
          | cons halike _ =>
            obtain rfl := Option.some.inj ht
            rw [halike.kind]
            exact hnext _ rfl
        have htext := hhead.text (Token.Alike.ne_address_of_isWord hword)
        rw [Statement.read_code hword hnext, Statement.read_code hword' hnext', htext]
        cases Mnemonic.parse? head.text with
        | none => exact herror
        | some m =>
          refine (parallel_readOperands m hending m.arity .nil hrest).map fun r r' hr => ?_
          exact ⟨.instruction (Instruction.renames_ofOperands m _ _ hr.1), hr.2⟩
    · have hword' : ¬ head'.isWord = true := by rwa [hhead.isWord_eq]
      rw [Statement.read_of_not_isWord hword, Statement.read_of_not_isWord hword']
      exact herror

theorem statements_of_read_error {e : SourceError} (h : Statement.read ending ts = .error e) :
    statements ending ts = .error e := by
  rw [statements]
  split
  · next he => exact congrArg Except.error (Except.error.inj (he.symm.trans h))
  · next hread => exact absurd (hread.symm.trans h) (by simp)

/-- **A program has the same statements.** -/
theorem parallel_statements (hending : ending.Alike ending')
    (hts : List.Forall₂ Token.Alike ts ts') :
    Parallel (List.Forall₂ (Statement.Renames Set.univ id)) SourceError.Alike
      (statements ending ts) (statements ending' ts') := by
  -- on the number of tokens: each statement leaves fewer
  induction hn : ts.length using Nat.strongRecOn generalizing ts ts' with
  | _ n ih =>
    subst hn
    rcases (parallel_read hending hts).cases with ⟨e, e', he, he', herror⟩
      | ⟨⟨s, rest⟩, ⟨s', rest'⟩, hread, hread', hs, hrest⟩
    · rw [statements_of_read_error he, statements_of_read_error he']
      exact herror
    · rw [statements_of_read hread, statements_of_read hread', hs.isEnd_eq]
      split
      · exact .cons hs .nil
      · have hlt := Statement.length_read_lt hread
        exact (ih rest.length hlt hrest rfl).map fun ss ss' hss => .cons hs hss

end Statements

/-! ## §5. Programs. -/

/-- **The same program**, wherever its parts stand in the source. -/
structure Assembled.Agrees (p p' : Assembled) : Prop where
  image : p'.image = p.image
  /-- The same labels, in the same order, have the same addresses. -/
  labels : p'.labels.entries.map (fun e => (e.1, e.2.address?))
    = p.labels.entries.map (fun e => (e.1, e.2.address?))
  /-- The same instructions, in the same order, start at the same addresses. -/
  instructions : p'.instructions.entries.map (fun e => (e.1, e.2.unplaced))
    = p.instructions.entries.map (fun e => (e.1, e.2.unplaced))

section Programs

variable {N : Set Text}

theorem Operand.Value.Renames.eq {v v' : Operand.Value} (h : Renames N id v v') : v' = v := by
  cases h <;> rfl

theorem Operand.Renames.unplaced_eq {o o' : Operand} (h : o.Renames N id o') :
    o'.unplaced = o.unplaced := by
  rw [unplaced, unplaced, Operand.Value.Renames.eq h]

theorem Instruction.Renames.unplaced_eq {i i' : Instruction} (h : i.Renames N id i') :
    i'.unplaced = i.unplaced := by
  have hoperands := map_eq_of_forall₂ h.operands fun _ _ ho => ho.unplaced_eq
  rw [unplaced, unplaced, h.mnemonic, h.opcode, hoperands]

/-- Labels that keep their names have the same program. -/
theorem Assembled.Renames.agrees {p p' : Assembled} (h : p.Renames N id p') : p.Agrees p' where
  image := h.image
  labels := map_eq_of_forall₂ h.labels.entries fun e e' he => by rw [he.1, he.2.address?_eq]; rfl
  instructions := map_eq_of_forall₂ h.instructions fun e e' he => by
    rw [he.1, he.2.unplaced_eq]
    rfl

theorem SourceError.Renames.alike {e e' : SourceError} (h : e.Renames id e') : e.Alike e' := by
  have hcause : e'.cause = e.cause := by
    rw [h]
    cases e.cause <;> rfl
  exact congrArg Cause.upper hcause

end Programs

/-- **Assembly depends on the tokens.**  A source in another layout has the same
program, or an error of the same cause. -/
theorem assemble_relaid {source source' : Text} (h : Relaid source source') :
    Parallel Assembled.Agrees SourceError.Alike (assemble source) (assemble source') := by
  obtain ⟨hnone, hnone', htokens⟩ := relaid_iff.1 h
  have hending : SourceError.Alike (missingEnd source.width) (missingEnd source'.width) := rfl
  have hparse : parse source = statements (missingEnd source.width) (lex source).tokens := by
    rw [parse, hnone]
    rfl
  have hparse' : parse source' = statements (missingEnd source'.width) (lex source').tokens := by
    rw [parse, hnone']
    rfl
  unfold assemble
  rw [hparse, hparse']
  rcases (parallel_statements hending htokens).cases with ⟨e, e', he, he', herror⟩
    | ⟨ss, ss', hss, hss', hsame⟩
  · rw [he, he']
    exact herror
  · rw [hss, hss']
    -- every label keeps its name, so no two get one
    exact (assembleStatements_renames Function.injective_id.injOn hsame).mono
      (fun p p' hp => hp.agrees) fun e e' he => he.alike

/-- A loop, and the same loop in another layout. -/
def tidyLoop : Text := "start:\n  mov al, [0a] ; the input\n  jmp start\nend\n".toList

def untidyLoop : Text := ";;\nSTART :Mov\tAL,[ 0A ]JMP;back\nStart END;".toList

theorem assemble_relaid_untidyLoop : Relaid tidyLoop untidyLoop
    ∧ Parallel Assembled.Agrees SourceError.Alike (assemble tidyLoop) (assemble untidyLoop) := by
  have hrelaid : Relaid tidyLoop untidyLoop := by
    refine relaid_iff.2 ⟨by decide +kernel, by decide +kernel, ?_⟩
    decide +kernel
  exact ⟨hrelaid, assemble_relaid hrelaid⟩

end EightBit
