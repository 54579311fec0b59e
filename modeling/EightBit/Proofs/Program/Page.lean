/-
  EightBit.Proofs.Program.Page
  ────────────────────────────
  **WHAT STANDS ON THE PAGE OF A LISTING.**

  Without its colours a row is a text in columns: the address in brackets, the
  bytes with two digits each, two points if there are more, the number of the line
  and its text.  All of this can be read off again, so no two rows are printed
  alike; and so can the name and the address in the row of a label.

  Main results:
    • `plain_styled`      — what is printed of a row, column by column;
    • `read?_printed`     — a row is read off the page;
    • `readLabel?_printed` — and so is a label.
-/
import EightBit.Program.Listing
import EightBit.Proofs.Text.Fields
import EightBit.Text.Decimal

namespace EightBit.Listing

/-! ## §1. Columns. -/

/-- The rule above and below the rows. -/
def rule : Text := List.replicate 17 '-' ++ '+' :: List.replicate 45 '-'

/-- The columns of an instruction; they are one wider than those of a row
without one. -/
def Shown.printed (s : Shown) : Text :=
  '[' :: Text.Hex.ofByte s.address ++ "] ".toList
    ++ Text.padRight 11 (Text.joinWith [' '] (s.bytes.map Text.Hex.ofByte))
    ++ (if s.more then "..".toList else "  ".toList)

/-- The columns of the line. -/
def linePrinted (number : Nat) (text : Text) : Text :=
  "| ".toList ++ Text.padLeft ' ' 4 (Text.decimal number) ++ ": ".toList ++ text

def Row.printed (r : Row) : Text :=
  match r.shown with
  | none => List.replicate 17 ' ' ++ linePrinted r.number r.text
  | some s => s.printed ++ linePrinted r.number r.text

def labelPrinted (name : Text) (address : Byte) : Text :=
  name ++ ": ".toList ++ Text.Hex.ofByte address

theorem plain_ruler : ruler.plain = rule := Styled.plain_ofText _

/-- **What is printed of a row**, column by column. -/
theorem plain_styled (r : Row) : r.styled.plain = r.printed := by
  unfold Row.styled Row.printed
  cases r.shown with
  | none => exact Styled.plain_ofText _
  | some s =>
    simp only [Styled.plain_append, Styled.plain_paint, Styled.plain_ofText, Row.line,
      Shown.printed, linePrinted, List.append_assoc, List.cons_append]
    cases s.more <;> rfl

theorem plain_labelRow (name : Text) (entry : LabelEntry) :
    (labelRow name entry).plain = labelPrinted name entry.address := by
  simp [labelRow, Styled.plain_append, Styled.plain_paint, Styled.plain_ofText, labelPrinted]

/-! ## §2. Reading. -/

/-- The number and the text in the columns of a line. -/
def readLine? (t : Text) : Option (Nat × Text) := do
  guard (t.take 2 = "| ".toList)
  let line := t.drop 2
  let number ← Text.Decimal.value? ((line.takeWhile (· ≠ ':')).dropWhile (· = ' '))
  guard ((line.dropWhile (· ≠ ':')).take 2 = ": ".toList)
  pure (number, (line.dropWhile (· ≠ ':')).drop 2)

/-- Whether there are more bytes than are shown. -/
def readMore? (t : Text) : Option Bool :=
  if t = "..".toList then some true else if t = "  ".toList then some false else none

/-- The row that is printed so. -/
def Row.read? : Text → Option Row
  | '[' :: high :: low :: ']' :: ' ' :: rest => do
    let address ← Text.Hex.byte? [high, low]
    let bytes ← (Text.words (rest.take 11)).mapM Text.Hex.byte?
    let more ← readMore? ((rest.drop 11).take 2)
    let (number, text) ← readLine? (rest.drop 13)
    pure ⟨some ⟨address, bytes, more⟩, number, text⟩
  | t => do
    guard (t.take 17 = List.replicate 17 ' ')
    let (number, text) ← readLine? (t.drop 17)
    pure ⟨none, number, text⟩

/-- The name and the address of the label that is printed so. -/
def readLabel? (t : Text) : Option (Text × Byte) := do
  let name := t.take (t.length - 4)
  guard ((t.drop name.length).take 2 = ": ".toList)
  let address ← Text.Hex.byte? (t.drop (name.length + 2))
  pure (name, address)

/-! ## §3. What is printed is read back. -/

theorem length_joinWith_ofByte (bytes : List Byte) :
    (Text.joinWith [' '] (bytes.map Text.Hex.ofByte)).length = 3 * bytes.length - 1 := by
  induction bytes with
  | nil => rfl
  | cons b bytes ih =>
    cases bytes with
    | nil => rfl
    | cons next bytes =>
      have hjoin : Text.joinWith [' '] ((b :: next :: bytes).map Text.Hex.ofByte)
          = Text.Hex.ofByte b
            ++ ' ' :: Text.joinWith [' '] ((next :: bytes).map Text.Hex.ofByte) := by
        simp [Text.joinWith]
      rw [hjoin, List.length_append, List.length_cons, ih]
      simp [Text.Hex.ofByte]
      omega

/-- The bytes are read off their column. -/
theorem mapM_words_column (bytes : List Byte) :
    (Text.words (Text.padRight 11 (Text.joinWith [' '] (bytes.map Text.Hex.ofByte)))).mapM
      Text.Hex.byte? = some bytes := by
  have hparts : ∀ part ∈ bytes.map Text.Hex.ofByte, part ≠ [] ∧ ' ' ∉ part := by
    intro part hpart
    obtain ⟨b, -, rfl⟩ := List.mem_map.1 hpart
    exact ⟨by simp [Text.Hex.ofByte], Text.Hex.not_mem_ofByte (by decide) b⟩
  rw [Text.padRight, Text.words_joinWith_append_blanks hparts]
  exact mapM_map_eq_some fun b _ => Text.Hex.byte?_ofByte b

/-- The number and the text are read off the columns of the line, whatever the text. -/
theorem readLine?_linePrinted (number : Nat) (text : Text) :
    readLine? (linePrinted number text) = some (number, text) := by
  have hdigits : ∀ c ∈ Text.decimal number, c.isDigit = true := fun c hc =>
    Nat.isDigit_of_mem_toDigits (by decide) (by decide) hc
  -- there is no colon in front of the one behind the number
  have hcolon : ∀ c ∈ Text.padLeft ' ' 4 (Text.decimal number), decide (c ≠ ':') = true := by
    intro c hc
    rw [decide_eq_true_eq]
    rintro rfl
    rcases List.mem_append.1 hc with hblank | hdigit
    · exact absurd (List.eq_of_mem_replicate hblank) (by decide)
    · exact absurd (hdigits _ hdigit) (by decide)
  have hstops : (Text.decimal number).dropWhile (fun c => decide (c = ' '))
      = Text.decimal number := by
    obtain ⟨d, ds, hcons⟩ :=
      List.exists_cons_of_ne_nil (Nat.toDigits_ne_nil (b := 10) (n := number))
    have hd : d.isDigit = true := hdigits d (by rw [Text.decimal, hcons]; exact List.mem_cons_self)
    rw [Text.decimal, hcons, List.dropWhile_cons_of_neg]
    rw [decide_eq_true_eq]
    rintro rfl
    exact absurd hd (by decide)
  have hnumber : (Text.padLeft ' ' 4 (Text.decimal number)).dropWhile (fun c => decide (c = ' '))
      = Text.decimal number := by
    rw [Text.padLeft, List.dropWhile_append_of_pos (by simp)]
    exact hstops
  have hline : (linePrinted number text).drop 2
      = Text.padLeft ' ' 4 (Text.decimal number) ++ (':' :: ' ' :: text) := by
    simp [linePrinted]
  have htake : ((linePrinted number text).drop 2).takeWhile (fun c => decide (c ≠ ':'))
      = Text.padLeft ' ' 4 (Text.decimal number) := by
    rw [hline, List.takeWhile_append_of_pos hcolon, List.takeWhile_cons_of_neg (by simp),
      List.append_nil]
  have hbehind : ((linePrinted number text).drop 2).dropWhile (fun c => decide (c ≠ ':'))
      = ':' :: ' ' :: text := by
    rw [hline, List.dropWhile_append_of_pos hcolon, List.dropWhile_cons_of_neg (by simp)]
  unfold readLine?
  dsimp only
  rw [htake, hbehind, hnumber, Text.Decimal.value?_decimal]
  rfl

/-- The columns of an instruction are read one after another. -/
theorem read?_columns (high low : Char) {column points : Text} (hcolumn : column.length = 11)
    (hpoints : points.length = 2) (line : Text) :
    Row.read? ('[' :: high :: low :: ']' :: ' ' :: (column ++ (points ++ line)))
      = (Text.Hex.byte? [high, low]).bind fun address =>
        ((Text.words column).mapM Text.Hex.byte?).bind fun bytes =>
        (readMore? points).bind fun more =>
        (readLine? line).bind fun l => some ⟨some ⟨address, bytes, more⟩, l.1, l.2⟩ := by
  have hbehind : (column ++ (points ++ line)).drop 11 = points ++ line :=
    List.drop_left' hcolumn
  have hline : (column ++ (points ++ line)).drop 13 = line := by
    rw [show 13 = 11 + 2 from rfl, ← List.drop_drop, hbehind, List.drop_left' hpoints]
  have hread : ∀ rest : Text, Row.read? ('[' :: high :: low :: ']' :: ' ' :: rest)
      = (Text.Hex.byte? [high, low]).bind fun address =>
        ((Text.words (rest.take 11)).mapM Text.Hex.byte?).bind fun bytes =>
        (readMore? ((rest.drop 11).take 2)).bind fun more =>
        (readLine? (rest.drop 13)).bind fun l => some ⟨some ⟨address, bytes, more⟩, l.1, l.2⟩ :=
    fun rest => rfl
  rw [hread, List.take_left' hcolumn, hbehind, List.take_left' hpoints, hline]

/-- **A row is read off the page.** -/
theorem read?_printed {r : Row} (h : ∀ s ∈ r.shown, s.bytes.length ≤ 4) :
    Row.read? r.printed = some r := by
  obtain ⟨shown, number, text⟩ := r
  cases shown with
  | none =>
    have hread : ∀ line, Row.read? (List.replicate 17 ' ' ++ line)
        = (readLine? line).bind fun l => some ⟨none, l.1, l.2⟩ := fun line => rfl
    rw [Row.printed, hread, readLine?_linePrinted]
    rfl
  | some s =>
    obtain ⟨address, bytes, more⟩ := s
    have hcolumn :
        (Text.padRight 11 (Text.joinWith [' '] (bytes.map Text.Hex.ofByte))).length = 11 := by
      have hbytes : bytes.length ≤ 4 := h _ rfl
      rw [Text.padRight, List.length_append, List.length_replicate, length_joinWith_ofByte]
      omega
    have hpoints : (if more then "..".toList else "  ".toList).length = 2 := by cases more <;> rfl
    have hmore : readMore? (if more then "..".toList else "  ".toList) = some more := by
      cases more <;> rfl
    have hpage : Row.printed ⟨some ⟨address, bytes, more⟩, number, text⟩
        = '[' :: Text.Hex.digit (address.toNat / 16) :: Text.Hex.digit (address.toNat % 16) :: ']'
          :: ' ' :: (Text.padRight 11 (Text.joinWith [' '] (bytes.map Text.Hex.ofByte))
            ++ ((if more then "..".toList else "  ".toList) ++ linePrinted number text)) := by
      simp [Row.printed, Shown.printed, Text.Hex.ofByte]
    rw [hpage, read?_columns _ _ hcolumn hpoints, mapM_words_column, hmore, readLine?_linePrinted]
    show (Text.Hex.byte? (Text.Hex.ofByte address)).bind _ = _
    rw [Text.Hex.byte?_ofByte]
    rfl

theorem readLabel?_printed (name : Text) (address : Byte) :
    readLabel? (labelPrinted name address) = some (name, address) := by
  have hlength : (labelPrinted name address).length - 4 = name.length := by
    simp [labelPrinted, Text.Hex.ofByte]
  have htake : (labelPrinted name address).take name.length = name := by
    rw [labelPrinted, List.append_assoc, List.take_left' rfl]
  have hdrop : (labelPrinted name address).drop name.length
      = ": ".toList ++ Text.Hex.ofByte address := by
    rw [labelPrinted, List.append_assoc, List.drop_left' rfl]
  have haddress : (labelPrinted name address).drop (name.length + 2) = Text.Hex.ofByte address := by
    rw [← List.drop_drop, hdrop]
    rfl
  unfold readLabel?
  dsimp only
  rw [hlength, htake, hdrop, haddress, Text.Hex.byte?_ofByte]
  rfl

end EightBit.Listing
