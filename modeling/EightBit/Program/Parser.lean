/-
  EightBit.Program.Parser
  ───────────────────────
  **FROM TOKENS TO STATEMENTS.**

  A statement is a label, which is a word and a colon, or a mnemonic with its
  operands, separated by commas.  Which kinds an operand may have follows
  from the forms of the mnemonic and the operands before it.  A program ends
  at its first END; the tokens after it are not read, so what is wrong there
  does not matter.

  Main results:
    • `Instruction.length_readOperands_le` — operands leave no more tokens
      than there were;
    • `Statement.length_read_lt`           — a statement leaves fewer.
-/
import EightBit.Program.Statement
import EightBit.Source.Lexer

namespace EightBit

/-! ## §1. Words and numbers. -/

/-- Whether the text can name a label: ASCII letters and underscores, at least
one. -/
def isLabelName (t : Text) : Bool := !t.isEmpty && t.all fun c => c.isAlpha || c = '_'

/-- The text as a label name. -/
def labelName (t : Token) : Except SourceError Text :=
  if isLabelName t.text then .ok t.text else .error ⟨.invalidLabel t.text, t.span⟩

/-- The text as a byte in hexadecimal. -/
def numberByte (t : Token) : Except SourceError Byte :=
  match Text.Hex.byte? t.text with
  | some n => .ok n
  | none => .error ⟨.invalidNumber t.text, t.span⟩

/-- The body of a string with its escapes replaced: a backslash and a letter
`n`, `r`, `t` or `0` stand for a control character, and before any other
character the backslash is dropped. -/
def unescape : Text → Text
  | [] => []
  | ['\\'] => ['\\']
  | '\\' :: c :: cs => escaped c :: unescape cs
  | c :: cs => c :: unescape cs
where
  escaped (c : Char) : Char :=
    if c = 'n' then '\n' else if c = 'r' then '\r' else if c = 't' then '\t'
    else if c = '0' then '\x00' else c

/-! ## §2. Operands. -/

namespace Operand

/-- The value of a body in brackets: a register's address if it names one,
else an address in hexadecimal. -/
def addressValue (t : Token) : Except SourceError Value :=
  match Register.parse? t.text with
  | some r => .ok (.registerAddress r)
  | none =>
    if !t.text.isEmpty && t.text.all Text.Hex.isDigit then (numberByte t).map .address
    else .error ⟨.invalidAddress t.text, t.span⟩

/-- The value a token stands for where operands of the kinds `admitted` may
stand.  A word is a label where a label may stand and a number may not. -/
def readValue (admitted : List OperandKind) (t : Token) : Except SourceError Value :=
  let asLabel := admitted.contains .label && !admitted.contains .number
  match t.kind with
  | .number =>
    if asLabel then (labelName t).map (.label · none) else (numberByte t).map .number
  | .ident =>
    if asLabel then (labelName t).map (.label · none)
    else .error ⟨.operandType admitted t.describe, t.span⟩
  | .register r => .ok (.register r)
  | .address => addressValue t
  | .string => .ok (.string (unescape t.text))
  | .colon | .comma => .error ⟨.operandType admitted t.describe, t.span⟩

/-- The operand a token stands for, which must be of one of the kinds
`admitted`. -/
def read (admitted : List OperandKind) (t : Token) : Except SourceError Operand :=
  match readValue admitted t with
  | .error e => .error e
  | .ok value =>
    if admitted.contains value.kind then .ok ⟨value, t.span⟩
    else .error ⟨.operandType admitted value.kind.name, t.span⟩

end Operand

/-! ## §3. Instructions. -/

/-- The tokens after a comma; `ending` is what is wrong if there are none. -/
def skipComma (ending : SourceError) : List Token → Except SourceError (List Token)
  | [] => .error ending
  | t :: rest => if t.kind = .comma then .ok rest else .error ⟨.missingComma, t.span⟩

namespace Instruction

/-- The operands of the mnemonic after those already `read`, of which `count`
are to come, and the tokens after them. -/
def readOperands (m : Mnemonic) (ending : SourceError) :
    (count : Nat) → (read : List Operand) → List Token →
      Except SourceError (List Operand × List Token)
  | 0, read, ts => .ok (read, ts)
  | count + 1, read, ts =>
    match if read.isEmpty then .ok ts else skipComma ending ts with
    | .error e => .error e
    | .ok [] => .error ending
    | .ok (t :: rest) =>
      match Operand.read (m.admitted read.length (read.map fun o => o.value.kind)) t with
      | .error e => .error e
      | .ok operand => readOperands m ending count (read ++ [operand]) rest

/-- The instruction with this mnemonic, which stands at `head`, and these
operands. -/
def ofOperands (m : Mnemonic) (head : Span) (operands : List Operand) : Instruction where
  mnemonic := m
  opcode := (m.select (operands.map fun o => o.value.kind)).bind Form.opcode
  operands := operands
  span := match operands.getLast? with
    | none => head
    | some o => head.join o.span

end Instruction

/-! ## §4. Statements. -/

namespace Statement

/-- The statement at the head of the tokens, and the tokens after it. -/
def read (ending : SourceError) : List Token → Except SourceError (Statement × List Token)
  | [] => .error ending
  | head :: rest =>
    if head.isWord then
      match rest with
      | ⟨.colon, _, span⟩ :: rest =>
        (labelName head).map fun name => (.label name (head.span.join span), rest)
      | _ =>
        match Mnemonic.parse? head.text with
        | none => .error ⟨.statement head.describe, head.span⟩
        | some m =>
          (Instruction.readOperands m ending m.arity [] rest).map fun (operands, rest) =>
            (.instruction (.ofOperands m head.span operands), rest)
    else .error ⟨.statement head.describe, head.span⟩

end Statement

/-! ## §5. Progress. -/

/-- Operands leave no more tokens than there were. -/
theorem Instruction.length_readOperands_le {m : Mnemonic} {ending : SourceError} {count : Nat}
    {read operands : List Operand} {ts rest : List Token}
    (h : readOperands m ending count read ts = .ok (operands, rest)) :
    rest.length ≤ ts.length := by
  induction count generalizing read ts with
  | zero => simp_all [readOperands]
  | succ count ih =>
    simp only [readOperands] at h
    split at h
    · exact absurd h (by simp)
    · exact absurd h (by simp)
    · next t rest' hts =>
      split at h
      · exact absurd h (by simp)
      · have hlt : rest'.length < ts.length := by
          split at hts
          · injection hts with hts
            simp [hts]
          · unfold skipComma at hts
            split at hts
            · exact absurd hts (by simp)
            · split at hts
              · injection hts with hts
                simp only [hts, List.length_cons]
                omega
              · exact absurd hts (by simp)
        have := ih h
        omega

/-- A statement leaves fewer tokens than there were. -/
theorem Statement.length_read_lt {ending : SourceError} {ts rest : List Token} {s : Statement}
    (h : read ending ts = .ok (s, rest)) : rest.length < ts.length := by
  unfold read at h
  split at h
  · exact absurd h (by simp)
  · next head tail =>
    split at h
    · split at h
      · cases hname : labelName head with
        | error e => simp [hname, Except.map] at h
        | ok name =>
          simp only [hname, Except.map, Except.ok.injEq, Prod.mk.injEq] at h
          obtain ⟨_, rfl⟩ := h
          simp only [List.length_cons]
          omega
      · split at h
        · exact absurd h (by simp)
        · next m _ =>
          cases hops : Instruction.readOperands m ending m.arity [] tail with
          | error e => simp [hops, Except.map] at h
          | ok p =>
            obtain ⟨operands, after⟩ := p
            simp only [hops, Except.map, Except.ok.injEq, Prod.mk.injEq] at h
            obtain ⟨_, rfl⟩ := h
            have := Instruction.length_readOperands_le hops
            simp only [List.length_cons]
            omega
    · exact absurd h (by simp)

/-! ## §6. Programs. -/

/-- The statements up to the first END; `ending` is what is wrong when the
tokens run out before it. -/
def statements (ending : SourceError) (ts : List Token) : Except SourceError (List Statement) :=
  match _ : Statement.read ending ts with
  | .error e => .error e
  | .ok (s, rest) =>
    if s.isEnd then .ok [s]
    else (statements ending rest).map (s :: ·)
termination_by ts.length
decreasing_by exact Statement.length_read_lt ‹Statement.read ending ts = _›

/-- What is wrong with a source of `width` bytes that has no END. -/
def missingEnd (width : Nat) : SourceError := ⟨.missingEnd, ⟨width, width⟩⟩

/-- The statements of the source. -/
def parse (source : Text) : Except SourceError (List Statement) :=
  let lexed := lex source
  statements (lexed.failure.getD (missingEnd source.width)) lexed.tokens

end EightBit
