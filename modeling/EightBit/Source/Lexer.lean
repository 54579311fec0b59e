/-
  EightBit.Source.Lexer
  ─────────────────────
  **FROM TEXT TO TOKENS.**

  Between tokens stand blanks and comments, which run from a semicolon to
  the end of the line.  A token is read from what stands at the head of the
  text: its spelling is cut off and the rest is read on.  Reading stops at
  the first character or bracket or quote that makes no token.

  Main results:
    • `splitGap_append`      — a gap and what follows it make up the text;
    • `Scan.spelling_append` — a token's spelling and the rest make up the text.
-/
import EightBit.Isa.Register
import EightBit.Source.Error
import EightBit.Source.Token
import EightBit.Text.Blank
import EightBit.Text.Hex

namespace EightBit

/-! ## §1. Gaps between tokens. -/

/-- The blanks and comments at the head of the text, and what follows them;
`inComment` says that the text starts inside a comment. -/
def splitGap (inComment : Bool) : Text → Text × Text
  | [] => ([], [])
  | c :: cs =>
    if inComment then
      let (gap, rest) := splitGap (c ≠ '\n') cs
      (c :: gap, rest)
    else if c = ';' then
      let (gap, rest) := splitGap true cs
      (c :: gap, rest)
    else if Text.isBlank c then
      let (gap, rest) := splitGap false cs
      (c :: gap, rest)
    else ([], c :: cs)

/-- A gap and what follows it make up the text. -/
theorem splitGap_append (inComment : Bool) (t : Text) :
    (splitGap inComment t).1 ++ (splitGap inComment t).2 = t := by
  fun_induction splitGap inComment t <;> simp_all

/-! ## §2. The token at the head of a text. -/

/-- Whether the character belongs to words: an ASCII letter or digit, or an
underscore. -/
def isWordChar (c : Char) : Bool := c.isAlphanum || c = '_'

/-- The kind of a word, given in upper case. -/
def Token.Kind.ofWord (word : Text) : Token.Kind :=
  match Register.parse? word with
  | some r => .register r
  | none => if word.all Text.Hex.isDigit then .number else .ident

/-- The body of an address, after its bracket, and what follows the closing
bracket; none when the line ends first. -/
def addressBody? : Text → Option (Text × Text)
  | [] => none
  | c :: cs =>
    if c = '\n' then none
    else if c = ']' then some ([], cs)
    else (addressBody? cs).map fun (body, rest) => (c :: body, rest)

/-- The body of a string, after its quote, and what follows the closing quote;
none when the line ends first.  A quote after a backslash does not close, nor
does a backslash after a backslash escape; `escaped` says that the character
before was an escaping backslash. -/
def stringBody? (escaped : Bool) : Text → Option (Text × Text)
  | [] => none
  | c :: cs =>
    if c = '\n' then none
    else if c = '\x22' ∧ escaped = false then some ([], cs)
    else
      (stringBody? (c = '\\' && !escaped) cs).map fun (body, rest) => (c :: body, rest)

/-- The text up to its first newline. -/
def restOfLine (t : Text) : Text := t.takeWhile (· ≠ '\n')

/-- What stands at the head of a text. -/
inductive Scan where
  /-- A token, how it is spelled, and what follows it. -/
  | token (kind : Token.Kind) (text spelling rest : Text)
  /-- No token, for a cause, and the part of the text that is to blame. -/
  | fault (cause : SourceError.Cause) (spelling : Text)
  deriving DecidableEq, Repr

/-- What stands at the head of the text `c :: cs`, which does not begin with a
gap. -/
def scan (c : Char) (cs : Text) : Scan :=
  if c = ':' then .token .colon [c] [c] cs
  else if c = ',' then .token .comma [c] [c] cs
  else if c = '[' then
    match addressBody? cs with
    | some (body, rest) => .token .address (Text.trim body) (c :: body ++ [']']) rest
    | none => .fault .unterminatedAddress (c :: restOfLine cs)
  else if c = '\x22' then
    match stringBody? false cs with
    | some (body, rest) => .token .string body (c :: body ++ ['\x22']) rest
    | none => .fault .unterminatedString (c :: restOfLine cs)
  else if isWordChar c then
    let word : Text := c :: cs.takeWhile isWordChar
    .token (.ofWord word.upper) word.upper word (cs.dropWhile isWordChar)
  else .fault (.unexpectedCharacter c) [c]

/-! ## §3. Nothing is lost. -/

theorem addressBody?_append {t body rest : Text} (h : addressBody? t = some (body, rest)) :
    body ++ ']' :: rest = t := by
  induction t generalizing body rest with
  | nil => simp [addressBody?] at h
  | cons c cs ih =>
    simp only [addressBody?] at h
    split at h
    · exact absurd h (by simp)
    · split at h
      · next hc => simp_all
      · obtain ⟨⟨b, r⟩, hbr, heq⟩ := Option.map_eq_some_iff.1 h
        obtain ⟨rfl, rfl⟩ := Prod.mk.inj heq
        simp [ih hbr]

theorem stringBody?_append {escaped : Bool} {t body rest : Text}
    (h : stringBody? escaped t = some (body, rest)) : body ++ '\x22' :: rest = t := by
  induction t generalizing escaped body rest with
  | nil => simp [stringBody?] at h
  | cons c cs ih =>
    simp only [stringBody?] at h
    split at h
    · exact absurd h (by simp)
    · split at h
      · next hc => simp_all
      · obtain ⟨⟨b, r⟩, hbr, heq⟩ := Option.map_eq_some_iff.1 h
        obtain ⟨rfl, rfl⟩ := Prod.mk.inj heq
        simp [ih hbr]

/-- A token's spelling and the rest make up the text, and the spelling is not
empty. -/
theorem Scan.spelling_append {c : Char} {cs : Text} {kind : Token.Kind}
    {text spelling rest : Text} (h : scan c cs = .token kind text spelling rest) :
    spelling ++ rest = c :: cs ∧ spelling ≠ [] := by
  unfold scan at h
  split at h
  · injection h with _ _ h₃ h₄
    subst h₃ h₄
    simp
  split at h
  · injection h with _ _ h₃ h₄
    subst h₃ h₄
    simp
  split at h
  · split at h
    · next hb =>
      injection h with _ _ h₃ h₄
      subst h₃ h₄
      simp [addressBody?_append hb]
    · exact absurd h (by simp)
  split at h
  · split at h
    · next hb =>
      injection h with _ _ h₃ h₄
      subst h₃ h₄
      simp [stringBody?_append hb]
    · exact absurd h (by simp)
  split at h
  · injection h with _ _ h₃ h₄
    subst h₃ h₄
    simp
  · exact absurd h (by simp)

/-- After a gap and a token less is left to read. -/
theorem Scan.length_rest_lt {inComment : Bool} {t gap : Text} {c : Char} {cs : Text}
    {kind : Token.Kind} {text spelling rest : Text}
    (hgap : splitGap inComment t = (gap, c :: cs))
    (h : scan c cs = .token kind text spelling rest) : rest.length < t.length := by
  obtain ⟨happ, hne⟩ := spelling_append h
  have hlen := congrArg List.length happ
  have htot := congrArg List.length (splitGap_append inComment t)
  have hpos : 0 < spelling.length := List.length_pos_iff.2 hne
  rw [hgap] at htot
  simp only [List.length_append] at hlen htot
  omega

/-! ## §4. The tokens of a source. -/

/-- The tokens up to the first fault, and the fault if there is one. -/
structure Lexed where
  tokens : List Token
  failure : Option SourceError
  deriving DecidableEq, Repr

/-- The tokens of the text, which stands at the byte offset `start`. -/
def lexFrom (start : Nat) (t : Text) : Lexed :=
  match _ : splitGap false t with
  | (_, []) => ⟨[], none⟩
  | (gap, c :: cs) =>
    let here := start + gap.width
    match _ : scan c cs with
    | .fault cause spelling => ⟨[], some ⟨cause, ⟨here, here + spelling.width⟩⟩⟩
    | .token kind text spelling rest =>
      let next := here + spelling.width
      let later := lexFrom next rest
      ⟨⟨kind, text, ⟨here, next⟩⟩ :: later.tokens, later.failure⟩
termination_by t.length
decreasing_by exact Scan.length_rest_lt ‹splitGap false t = _› ‹scan c cs = _›

def lex (source : Text) : Lexed := lexFrom 0 source

end EightBit
