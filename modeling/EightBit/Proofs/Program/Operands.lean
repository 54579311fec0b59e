/-
  EightBit.Proofs.Program.Operands
  ────────────────────────────────
  **HOW OPERANDS ARE WRITTEN.**

  What a token stands for as an operand follows from the mnemonic alone: a
  word is a label after a jump and nowhere else.  So the operands of an
  instruction have a grammar of their own, tokens with one comma between two,
  which knows nothing of the kinds that were admitted on the way.

  Main results:
    • `byte?_eq_some_iff`    — a number is a run of digits of its value;
    • `mem_admitted_iff`     — a kind is admitted when it goes on along a form;
    • `read_eq_ok_iff`       — a token is read as what it stands for;
    • `readOperands_eq_ok_iff` — operands are read exactly where they stand.
-/
import EightBit.Proofs.Program.Grammar
import Mathlib.Data.List.Induction
import Mathlib.Data.List.Nodup
import Mathlib.Tactic.MkIffOfInductiveProp

namespace EightBit

/-! ## §1. Runs of digits. -/

/-- **A run of hexadecimal digits**, at least one, and its value. -/
inductive HexRun : Text → Nat → Prop where
  | digit {c : Char} {d : Nat} : Text.Hex.digitValue? c = some d → HexRun [c] d
  | snoc {t : Text} {n d : Nat} {c : Char} : HexRun t n → Text.Hex.digitValue? c = some d →
    HexRun (t ++ [c]) (n * 16 + d)

namespace HexRun

theorem value?_append_singleton (t : Text) (c : Char) : Text.Hex.value? (t ++ [c])
    = (Text.Hex.value? t).bind fun n => (Text.Hex.digitValue? c).map (n * 16 + ·) := by
  unfold Text.Hex.value?
  rw [List.foldlM_append]
  cases t.foldlM (fun acc c => (Text.Hex.digitValue? c).map (acc * 16 + ·)) 0 <;> simp

theorem ne_nil {t : Text} {n : Nat} (h : HexRun t n) : t ≠ [] := by
  cases h <;> simp

theorem isDigit {t : Text} {n : Nat} (h : HexRun t n) : ∀ c ∈ t, Text.Hex.isDigit c = true := by
  induction h with
  | digit hd =>
    intro c hc
    obtain rfl := List.mem_singleton.1 hc
    rw [Text.Hex.isDigit, hd]
    rfl
  | snoc _ hd ih =>
    intro c hc
    rcases List.mem_append.1 hc with hc | hc
    · exact ih c hc
    · obtain rfl := List.mem_singleton.1 hc
      rw [Text.Hex.isDigit, hd]
      rfl

theorem value?_eq {t : Text} {n : Nat} (h : HexRun t n) : Text.Hex.value? t = some n := by
  induction h with
  | digit hd => simp [Text.Hex.value?, hd]
  | snoc _ hd ih => rw [value?_append_singleton, ih, Option.bind_some, hd, Option.map_some]

theorem of_value? {t : Text} {n : Nat} (hne : t ≠ []) (h : Text.Hex.value? t = some n) :
    HexRun t n := by
  -- the value is taken from the left, so the run is built at its end
  induction t using List.reverseRecOn generalizing n with
  | nil => exact absurd rfl hne
  | append_singleton t c ih =>
    rw [value?_append_singleton] at h
    obtain ⟨m, hm, hc⟩ := Option.bind_eq_some_iff.1 h
    obtain ⟨d, hd, rfl⟩ := Option.map_eq_some_iff.1 hc
    cases t with
    | nil =>
      obtain rfl : 0 = m := by simpa [Text.Hex.value?] using hm
      rw [Nat.zero_mul, Nat.zero_add]
      exact .digit hd
    | cons b t => exact .snoc (ih (by simp) hm) hd

end HexRun

/-- A number is a run of digits of its value. -/
theorem byte?_eq_some_iff {t : Text} (ht : ∀ c ∈ t, Text.Hex.isDigit c = true) {b : Byte} :
    Text.Hex.byte? t = some b ↔ HexRun t b.toNat := by
  have hvalue : t ≠ [] → ((Text.Hex.value? t).bind Byte.ofNat? = some b ↔ HexRun t b.toNat) := by
    intro hne
    simp only [Option.bind_eq_some_iff, Byte.ofNat?_eq_some_iff]
    constructor
    · intro h
      obtain ⟨n, hn, hb⟩ := h
      rw [hb]
      exact .of_value? hne hn
    · exact fun h => ⟨_, h.value?_eq, rfl⟩
  unfold Text.Hex.byte?
  -- a sign in front would be passed, but digits are no sign
  split
  · exact absurd (ht '+' (by simp)) (by decide)
  · exact ⟨fun h => absurd h (by simp), fun h => absurd rfl h.ne_nil⟩
  · exact absurd (ht '+' (by simp)) (by decide)
  · next hplus hne _ => exact hvalue hne

/-! ## §2. What a token stands for. -/

/-- The mnemonic is one of the jumps, which lead to labels. -/
def Mnemonic.IsJump (m : Mnemonic) : Prop := ∃ c, m = .jump c

/-- The text can name a label. -/
def LabelName (t : Text) : Prop := t ≠ [] ∧ ∀ c ∈ t, c.isAlpha = true ∨ c = '_'

theorem isLabelName_iff {t : Text} : isLabelName t = true ↔ LabelName t := by
  simp [isLabelName, LabelName]

/-- **What a token stands for** as an operand of the mnemonic. -/
@[mk_iff]
inductive Token.Denotes (m : Mnemonic) (t : Token) : Operand.Value → Prop where
  /-- A word is a label after a jump. -/
  | label : m.IsJump → t.isWord = true → LabelName t.text → t.Denotes m (.label t.text none)
  /-- Elsewhere a word of digits is a number, and any other word nothing. -/
  | number {n : Byte} : ¬ m.IsJump → t.kind = .number → HexRun t.text n.toNat →
    t.Denotes m (.number n)
  | register {r : Register} : t.kind = .register r → t.Denotes m (.register r)
  /-- The name of a register in brackets, in any case. -/
  | registerAddress {r : Register} : t.kind = .address → t.text.upper = r.name →
    t.Denotes m (.registerAddress r)
  | address {a : Byte} : t.kind = .address → HexRun t.text a.toNat → t.Denotes m (.address a)
  | string : t.kind = .string → t.Denotes m (.string (unescape t.text))

theorem Token.Denotes.kind_ne_colon {m : Mnemonic} {t : Token} {v : Operand.Value}
    (h : t.Denotes m v) : t.kind ≠ .colon := by
  intro hcolon
  rw [Token.denotes_iff] at h
  simp [hcolon, Token.isWord] at h

/-- A number has digits only, as the reader of tokens makes it. -/
def Token.Lexical (t : Token) : Prop :=
  t.kind = .number → ∀ c ∈ t.text, Text.Hex.isDigit c = true

/-- No run of digits names a register. -/
theorem HexRun.parse?_eq_none {t : Text} {n : Nat} (h : HexRun t n) :
    Register.parse? t = none := by
  rw [Register.parse?_eq_none_iff]
  intro r hr
  -- every name ends in L, which is no digit in either case
  have hmem : 'L' ∈ t.upper := by
    rw [hr]
    cases r <;> decide
  obtain ⟨c, hc, hupper⟩ := List.mem_map.1 hmem
  have hdigit := h.isDigit c hc
  have hcases : c = 'L' ∨ c = 'l' := by
    rcases Text.toUpper_cases c with ⟨-, -, hmove⟩ | ⟨-, hsame⟩
    · right
      rw [hupper] at hmove
      exact Char.ext (UInt32.toNat_inj.1 hmove.symm)
    · left
      rw [← hupper, hsame]
  rcases hcases with rfl | rfl <;> exact absurd hdigit (by decide)

theorem labelName_eq_ok_iff {t : Token} {name : Text} :
    labelName t = .ok name ↔ LabelName t.text ∧ t.text = name := by
  unfold labelName
  rw [← isLabelName_iff]
  split <;> simp_all

theorem numberByte_eq_ok_iff {t : Token} (ht : ∀ c ∈ t.text, Text.Hex.isDigit c = true)
    {n : Byte} : numberByte t = .ok n ↔ HexRun t.text n.toNat := by
  rw [← byte?_eq_some_iff ht]
  unfold numberByte
  cases Text.Hex.byte? t.text <;> simp

/-- A body in brackets is read as what it stands for. -/
theorem addressValue_eq_ok_iff {m : Mnemonic} {t : Token} (ht : t.kind = .address)
    {v : Operand.Value} : Operand.addressValue t = .ok v ↔ t.Denotes m v := by
  have hdenotes : t.Denotes m v ↔ (∃ r, t.text.upper = r.name ∧ v = .registerAddress r)
      ∨ ∃ a : Byte, HexRun t.text a.toNat ∧ v = .address a := by
    rw [Token.denotes_iff]
    simp [ht, Token.isWord]
  rw [hdenotes]
  unfold Operand.addressValue
  -- the names of registers come first; no run of digits is one
  cases hr : Register.parse? t.text with
  | some r =>
    constructor
    · intro h
      injection h with h
      exact .inl ⟨r, Register.parse?_eq_some_iff.1 hr, h.symm⟩
    · intro h
      rcases h with ⟨q, hq, rfl⟩ | ⟨a, hrun, -⟩
      · rw [Register.parse?_eq_some_iff.2 hq] at hr
        rw [Option.some.inj hr]
      · exact absurd hr (by simp [hrun.parse?_eq_none])
  | none =>
    constructor
    · intro h
      by_cases hdigits : (!t.text.isEmpty && t.text.all Text.Hex.isDigit) = true
      · simp only [hdigits, if_true] at h
        obtain ⟨a, ha, rfl⟩ := map_eq_ok_iff.1 h
        simp only [Bool.and_eq_true, List.all_eq_true] at hdigits
        exact .inr ⟨a, (numberByte_eq_ok_iff hdigits.2).1 ha, rfl⟩
      · simp only [hdigits] at h
        exact absurd h (by simp)
    · intro h
      rcases h with ⟨q, hq, rfl⟩ | ⟨a, hrun, rfl⟩
      · exact absurd hr (by simp [Register.parse?_eq_some_iff.2 hq])
      · have hdigits : (!t.text.isEmpty && t.text.all Text.Hex.isDigit) = true := by
          simpa using ⟨hrun.ne_nil, hrun.isDigit⟩
        simp only [hdigits, if_true]
        exact map_eq_ok_iff.2 ⟨a, (numberByte_eq_ok_iff hrun.isDigit).2 hrun, rfl⟩

/-- A token is read as what it stands for, where a label is admitted after
jumps only. -/
theorem readValue_eq_ok_iff {m : Mnemonic} {admitted : List OperandKind} {t : Token}
    {v : Operand.Value} (hjump : (admitted.contains .label && !admitted.contains .number) = true
      ↔ m.IsJump) (ht : t.Lexical) : Operand.readValue admitted t = .ok v ↔ t.Denotes m v := by
  unfold Operand.readValue
  -- of what is admitted the reader asks only whether a word is a label
  generalize (admitted.contains .label && !admitted.contains .number) = asLabel at hjump
  cases hkind : t.kind with
  | address => exact addressValue_eq_ok_iff hkind
  | number =>
    rw [Token.denotes_iff]
    cases asLabel <;> simp [← hjump, hkind, Token.isWord, map_eq_ok_iff, labelName_eq_ok_iff,
      numberByte_eq_ok_iff (ht hkind), @eq_comm _ v]
  | _ =>
    rw [Token.denotes_iff]
    cases asLabel <;> simp [← hjump, hkind, Token.isWord, map_eq_ok_iff, labelName_eq_ok_iff,
      @eq_comm _ v]

/-! ## §3. Kinds that go on along a form. -/

namespace Mnemonic

variable {m : Mnemonic} {kinds : List OperandKind} {kind : OperandKind}

/-- A kind is admitted when it goes on along a form. -/
theorem mem_admitted_iff : kind ∈ m.admitted kinds.length kinds ↔ m.Begins (kinds ++ [kind]) := by
  refine ⟨begins_of_mem_admitted, ?_⟩
  intro h
  obtain ⟨f, hf, htake⟩ := h
  rw [List.length_append, List.length_singleton] at htake
  have hkinds : f.operands.take kinds.length = kinds := by
    have := congrArg (List.take kinds.length) htake
    rwa [List.take_take, Nat.min_eq_left (Nat.le_succ _), List.take_left] at this
  have hnext : f.operands[kinds.length]? = some kind := by
    rw [← List.getElem?_take_of_lt (Nat.lt_succ_self _), htake]
    simp
  rw [admitted, List.mem_eraseDups, List.mem_filterMap]
  exact ⟨f, hf, by rw [if_pos hkinds, hnext]⟩

theorem Begins.of_append {more : List OperandKind} (h : m.Begins (kinds ++ more)) :
    m.Begins kinds := by
  obtain ⟨f, hf, htake⟩ := h
  refine ⟨f, hf, ?_⟩
  have := congrArg (List.take kinds.length) htake
  rwa [List.take_take, List.length_append, Nat.min_eq_left (Nat.le_add_right _ _),
    List.take_left] at this

/-- The kinds of a form begin it. -/
theorem begins_operands {f : Form} (hf : f ∈ m.forms) : m.Begins f.operands :=
  ⟨f, hf, List.take_length⟩

/-- Only jumps take labels. -/
theorem isJump_of_label_mem (m : Mnemonic) : ∀ f ∈ m.forms, .label ∈ f.operands → m.IsJump := by
  cases m <;> simp [forms, IsJump]

/-- Where an operand is to come, a label and no number is admitted after jumps
only. -/
theorem admits_label_iff (hlen : kinds.length < m.arity) :
    ((m.admitted kinds.length kinds).contains .label
      && !(m.admitted kinds.length kinds).contains .number) = true ↔ m.IsJump := by
  constructor
  · intro h
    simp only [Bool.and_eq_true, List.contains_iff_mem] at h
    obtain ⟨f, hf, htake⟩ := mem_admitted_iff.1 h.1
    apply isJump_of_label_mem m f hf
    apply List.mem_of_mem_take
    rw [htake]
    exact List.mem_append_right _ List.mem_cons_self
  · intro h
    obtain ⟨c, rfl⟩ := h
    obtain rfl : kinds = [] := by simpa [arity, forms] using hlen
    cases c <;> decide

/-- Operand kinds select one form at most. -/
theorem form_ext {f g : Form} (hf : f ∈ m.forms) (hg : g ∈ m.forms)
    (h : f.operands = g.operands) : f = g := by
  have hnodup : (m.forms.map Form.operands).Nodup := by cases m <;> simp [forms]
  exact List.inj_on_of_nodup_map hnodup hf hg h

theorem select_operands {f : Form} (hf : f ∈ m.forms) : m.select f.operands = some f := by
  cases hselect : m.select f.operands with
  | none => exact absurd (List.find?_eq_none.1 hselect f hf) (by simp)
  | some g =>
    have hg : g.operands = f.operands := by simpa using List.find?_some hselect
    rw [form_ext (List.mem_of_find?_eq_some hselect) hf hg]

end Mnemonic

/-! ## §4. Operands in a row. -/

/-- Operands that follow others, each behind a comma. -/
inductive Following (m : Mnemonic) : List Token → List Operand → Prop where
  | nil : Following m [] []
  | cons {comma t : Token} {v : Operand.Value} {ts : List Token} {os : List Operand} :
    comma.kind = .comma → t.Denotes m v → Following m ts os →
    Following m (comma :: t :: ts) (⟨v, t.span⟩ :: os)

/-- **Operands of the mnemonic**, with one comma between two. -/
inductive OperandRow (m : Mnemonic) : List Token → List Operand → Prop where
  | nil : OperandRow m [] []
  | cons {t : Token} {v : Operand.Value} {ts : List Token} {os : List Operand} :
    t.Denotes m v → Following m ts os → OperandRow m (t :: ts) (⟨v, t.span⟩ :: os)

/-- The kinds of the operands, in order. -/
def kindsOf (os : List Operand) : List OperandKind := os.map fun o => o.value.kind

@[simp] theorem kindsOf_append (os os' : List Operand) :
    kindsOf (os ++ os') = kindsOf os ++ kindsOf os' := List.map_append

@[simp] theorem length_kindsOf (os : List Operand) : (kindsOf os).length = os.length :=
  List.length_map ..

theorem Operand.read_eq_ok_iff {m : Mnemonic} {kinds : List OperandKind} {t : Token} {o : Operand}
    (hlen : kinds.length < m.arity) (ht : t.Lexical) :
    read (m.admitted kinds.length kinds) t = .ok o
      ↔ t.Denotes m o.value ∧ o.span = t.span ∧ m.Begins (kinds ++ [o.value.kind]) := by
  have hvalue : ∀ v, readValue (m.admitted kinds.length kinds) t = .ok v ↔ t.Denotes m v :=
    fun v => readValue_eq_ok_iff (Mnemonic.admits_label_iff hlen) ht
  rw [← Mnemonic.mem_admitted_iff, read]
  constructor
  · intro h
    split at h
    · exact absurd h (by simp)
    · next v hv =>
      split at h
      · next hmem =>
        injection h with h
        subst h
        exact ⟨(hvalue v).1 hv, rfl, by simpa using hmem⟩
      · exact absurd h (by simp)
  · intro h
    obtain ⟨hdenotes, hspan, hmem⟩ := h
    rw [(hvalue o.value).2 hdenotes]
    simp [hmem, ← hspan]

namespace Instruction

variable {m : Mnemonic} {ending : SourceError} {count : Nat} {before operands : List Operand}
  {ts rest : List Token}

theorem skipComma_eq_ok_iff : skipComma ending ts = .ok rest
    ↔ ∃ comma, comma.kind = .comma ∧ ts = comma :: rest := by
  cases ts with
  | nil => simp [skipComma]
  | cons t ts => by_cases hcomma : t.kind = .comma <;> simp [skipComma, hcomma]

/-- One operand is read, behind a comma unless it is the first. -/
theorem readOperands_succ_eq_ok_iff :
    readOperands m ending (count + 1) before ts = .ok (operands, rest)
      ↔ ∃ t ts' o, (if before.isEmpty then .ok ts else skipComma ending ts) = .ok (t :: ts')
        ∧ Operand.read (m.admitted (kindsOf before).length (kindsOf before)) t = .ok o
        ∧ readOperands m ending count (before ++ [o]) ts' = .ok (operands, rest) := by
  rw [length_kindsOf, kindsOf, readOperands]
  constructor
  · intro h
    split at h
    · exact absurd h (by simp)
    · exact absurd h (by simp)
    · next t ts' hts =>
      split at h
      · exact absurd h (by simp)
      · next o ho => exact ⟨t, ts', o, hts, ho, h⟩
  · intro h
    obtain ⟨t, ts', o, hts, ho, h⟩ := h
    simp only [hts, ho, h]

/-- Behind others, operands are read with the commas before them. -/
theorem readOperands_following_iff (hts : ∀ t ∈ ts, t.Lexical) (hbefore : before ≠ [])
    (hlen : before.length + count = m.arity) (hbegins : m.Begins (kindsOf before)) :
    readOperands m ending count before ts = .ok (operands, rest)
      ↔ ∃ row os, ts = row ++ rest ∧ operands = before ++ os ∧ os.length = count
        ∧ Following m row os ∧ m.Begins (kindsOf operands) := by
  -- on the number of operands to come; those before go on along a form
  induction count generalizing before ts with
  | zero =>
    simp only [readOperands, Except.ok.injEq, Prod.mk.injEq, List.length_eq_zero_iff]
    constructor
    · intro h
      obtain ⟨rfl, rfl⟩ := h
      exact ⟨[], [], rfl, by simp, rfl, .nil, hbegins⟩
    · intro h
      obtain ⟨row, os, rfl, rfl, rfl, hrow, -⟩ := h
      cases hrow
      simp
  | succ count ih =>
    rw [readOperands_succ_eq_ok_iff, if_neg (by simpa using hbefore)]
    simp only [skipComma_eq_ok_iff]
    have hlt : (kindsOf before).length < m.arity := by
      rw [length_kindsOf]
      omega
    have hsnoc : ∀ o : Operand, (before ++ [o]).length + count = m.arity := by
      intro o
      rw [List.length_append, List.length_singleton]
      omega
    constructor
    · intro h
      obtain ⟨t, ts', o, ⟨comma, hcomma, rfl⟩, ho, hread⟩ := h
      obtain ⟨hdenotes, hspan, hnext⟩ := (Operand.read_eq_ok_iff hlt (hts t (by simp))).1 ho
      have hts' : ∀ t ∈ ts', t.Lexical := fun t ht => hts t (by simp [ht])
      have hbegins' : m.Begins (kindsOf (before ++ [o])) := by
        rw [kindsOf_append]
        exact hnext
      obtain ⟨row, os, rfl, rfl, rfl, hrow, hall⟩ :=
        (ih hts' (by simp) (hsnoc o) hbegins').1 hread
      obtain ⟨v, span⟩ := o
      subst hspan
      exact ⟨comma :: t :: row, ⟨v, t.span⟩ :: os, rfl, by simp, rfl,
        .cons hcomma hdenotes hrow, hall⟩
    · intro h
      obtain ⟨row, os, rfl, rfl, hcount, hrow, hall⟩ := h
      cases hrow with
      | nil => exact absurd hcount (by simp)
      | @cons comma t v row os hcomma hdenotes hrow =>
        have happend : before ++ ⟨v, t.span⟩ :: os = before ++ [⟨v, t.span⟩] ++ os := by simp
        have hbegins' : m.Begins (kindsOf (before ++ [⟨v, t.span⟩])) := by
          rw [happend, kindsOf_append] at hall
          exact hall.of_append
        refine ⟨t, row ++ rest, ⟨v, t.span⟩, ⟨comma, hcomma, rfl⟩,
          (Operand.read_eq_ok_iff hlt (hts t (by simp))).2 ⟨hdenotes, rfl, ?_⟩, ?_⟩
        · rw [kindsOf_append] at hbegins'
          exact hbegins'
        · have hts' : ∀ t ∈ row ++ rest, t.Lexical :=
            fun t ht => hts t (List.mem_cons_of_mem _ (List.mem_cons_of_mem _ ht))
          exact (ih hts' (by simp) (hsnoc _) hbegins').2
            ⟨row, os, rfl, happend, Nat.succ.inj hcount, hrow, hall⟩

/-- **Operands are read exactly where they stand**, if their kinds are those of
a form. -/
theorem readOperands_eq_ok_iff (hts : ∀ t ∈ ts, t.Lexical) :
    readOperands m ending m.arity [] ts = .ok (operands, rest)
      ↔ ∃ row, ts = row ++ rest ∧ OperandRow m row operands
        ∧ ∃ f ∈ m.forms, kindsOf operands = f.operands := by
  have hform : (∃ f ∈ m.forms, kindsOf operands = f.operands)
      ↔ operands.length = m.arity ∧ m.Begins (kindsOf operands) := by
    constructor
    · intro h
      obtain ⟨f, hf, hkinds⟩ := h
      refine ⟨?_, hkinds ▸ m.begins_operands hf⟩
      rw [← length_kindsOf, hkinds, m.length_operands f hf]
    · intro h
      obtain ⟨hlen, hbegins⟩ := h
      exact hbegins.eq_operands (by rw [length_kindsOf, hlen])
  rw [hform]
  -- the first operand has no comma before it, and the others follow it
  cases harity : m.arity with
  | zero =>
    simp only [readOperands, Except.ok.injEq, Prod.mk.injEq, List.length_eq_zero_iff]
    constructor
    · intro h
      obtain ⟨rfl, rfl⟩ := h
      exact ⟨[], rfl, .nil, rfl, m.begins_nil⟩
    · intro h
      obtain ⟨row, rfl, hrow, rfl, -⟩ := h
      cases hrow
      simp
  | succ count =>
    have hlt : (kindsOf []).length < m.arity := by
      rw [harity]
      exact Nat.succ_pos count
    have hlen : ∀ o : Operand, ([o] : List Operand).length + count = m.arity := by
      intro o
      rw [harity, List.length_singleton, Nat.add_comm]
    rw [readOperands_succ_eq_ok_iff]
    constructor
    · intro h
      obtain ⟨t, ts', o, hhead, ho, hread⟩ := h
      obtain rfl : ts = t :: ts' := by simpa using hhead
      obtain ⟨hdenotes, hspan, hbegins⟩ := (Operand.read_eq_ok_iff hlt (hts t (by simp))).1 ho
      have hts' : ∀ t ∈ ts', t.Lexical := fun t ht => hts t (List.mem_cons_of_mem _ ht)
      obtain ⟨row, os, rfl, rfl, rfl, hrow, hall⟩ :=
        (readOperands_following_iff hts' (by simp) (hlen o) hbegins).1 hread
      obtain ⟨v, span⟩ := o
      subst hspan
      exact ⟨t :: row, rfl, .cons hdenotes hrow, rfl, hall⟩
    · intro h
      obtain ⟨row, rfl, hrow, hcount, hall⟩ := h
      cases hrow with
      | nil => exact absurd hcount (by simp)
      | @cons t v row os hdenotes hrow =>
        have hbegins : m.Begins (kindsOf [] ++ [v.kind]) := Mnemonic.Begins.of_append hall
        have hts' : ∀ t ∈ row ++ rest, t.Lexical := fun t ht => hts t (List.mem_cons_of_mem _ ht)
        exact ⟨t, row ++ rest, ⟨v, t.span⟩, rfl,
          (Operand.read_eq_ok_iff hlt (hts t (by simp))).2 ⟨hdenotes, rfl, hbegins⟩,
          (readOperands_following_iff hts' (by simp) (hlen ⟨v, t.span⟩) hbegins).2
            ⟨row, os, rfl, rfl, Nat.succ.inj hcount, hrow, hall⟩⟩

end Instruction

end EightBit
