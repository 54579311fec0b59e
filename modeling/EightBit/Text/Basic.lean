/-
  EightBit.Text.Basic
  ───────────────────
  **TEXT AND ITS WIDTH IN BYTES.**

  A text is the list of its characters.  Places in a source are counted in
  bytes of its UTF-8 form, so a text has a `width` beside its length, and
  `splitAt?` cuts it at a byte offset when that offset lies between two
  characters.

  Main results:
    • `width_append`   — widths add up;
    • `splitAt?_append` — cutting after a first part gives the two parts back;
    • `eq_of_splitAt?` — a cut loses nothing and stands where it was asked;
    • `toUpper_cases`  — upper case moves the letters a to z and nothing else.
-/
namespace EightBit

/-- The list of its characters. -/
abbrev Text := List Char

namespace Text

/-! ## §1. Width. -/

/-- Number of bytes of the text in UTF-8. -/
def width : Text → Nat
  | [] => 0
  | c :: cs => c.utf8Size + width cs

@[simp] theorem width_nil : width [] = 0 := rfl

@[simp] theorem width_cons (c : Char) (cs : Text) : width (c :: cs) = c.utf8Size + width cs := rfl

/-- Widths add up. -/
@[simp] theorem width_append (s t : Text) : width (s ++ t) = width s + width t := by
  induction s with
  | nil => simp
  | cons c cs ih => simp [ih, Nat.add_assoc]

/-! ## §2. Cutting at a byte offset. -/

/-- The parts of the text before and after the byte offset `n`; none when the
offset is past the end or inside a character. -/
def splitAt? : Text → Nat → Option (Text × Text)
  | t, 0 => some ([], t)
  | [], _ + 1 => none
  | c :: cs, n + 1 =>
    if c.utf8Size ≤ n + 1 then
      (splitAt? cs (n + 1 - c.utf8Size)).map fun (before, after) => (c :: before, after)
    else none

/-- A cut loses nothing and stands where it was asked. -/
theorem eq_of_splitAt? {t before after : Text} {n : Nat}
    (h : splitAt? t n = some (before, after)) : before ++ after = t ∧ width before = n := by
  induction t generalizing n before after with
  | nil =>
    cases n with
    | zero => simp_all [splitAt?]
    | succ n => simp [splitAt?] at h
  | cons c cs ih =>
    cases n with
    | zero => simp_all [splitAt?]
    | succ n =>
      simp only [splitAt?] at h
      split at h
      · next hc =>
        obtain ⟨⟨b, a⟩, hba, heq⟩ := Option.map_eq_some_iff.1 h
        obtain ⟨rfl, rfl⟩ := Prod.mk.inj heq
        obtain ⟨hsplit, hwidth⟩ := ih hba
        exact ⟨by simp [hsplit], by simp [hwidth]; omega⟩
      · next => exact absurd h (by simp)

/-- Cutting after a first part gives the two parts back. -/
theorem splitAt?_append (s t : Text) : splitAt? (s ++ t) (width s) = some (s, t) := by
  induction s with
  | nil => simp [splitAt?]
  | cons c cs ih =>
    have hpos : 0 < c.utf8Size := Char.utf8Size_pos c
    obtain ⟨n, hn⟩ : ∃ n, c.utf8Size + width cs = n + 1 :=
      ⟨c.utf8Size + width cs - 1, by omega⟩
    simp only [List.cons_append, width_cons, hn, splitAt?]
    rw [if_pos (by omega), show n + 1 - c.utf8Size = width cs by omega, ih]
    rfl

/-! ## §3. Case and columns. -/

/-- The text with the letters a to z in upper case; other characters stay. -/
def upper (t : Text) : Text := t.map Char.toUpper

/-- The letters A to Z by number. -/
theorem isUpper_iff {c : Char} : c.isUpper = true ↔ 65 ≤ c.toNat ∧ c.toNat ≤ 90 := by
  show decide (65 ≤ c.val ∧ c.val ≤ 90) = true ↔ _
  rw [decide_eq_true_eq, UInt32.le_iff_toNat_le, UInt32.le_iff_toNat_le]
  exact Iff.rfl

/-- The letters a to z by number. -/
theorem isLower_iff {c : Char} : c.isLower = true ↔ 97 ≤ c.toNat ∧ c.toNat ≤ 122 := by
  show (decide (97 ≤ c.val) && decide (c.val ≤ 122)) = true ↔ _
  rw [Bool.and_eq_true, decide_eq_true_eq, decide_eq_true_eq, UInt32.le_iff_toNat_le,
    UInt32.le_iff_toNat_le]
  exact Iff.rfl

theorem isAlpha_iff {c : Char} : c.isAlpha = true ↔ c.isUpper = true ∨ c.isLower = true :=
  Bool.or_eq_true_iff

/-- A letter a to z moves by 32, and any other character stays. -/
theorem toUpper_cases (c : Char) : (97 ≤ c.toNat ∧ c.toNat ≤ 122 ∧ c.toUpper.toNat + 32 = c.toNat)
    ∨ (¬ (97 ≤ c.toNat ∧ c.toNat ≤ 122) ∧ c.toUpper = c) := by
  by_cases h : 'a'.val ≤ c.val ∧ c.val ≤ 'z'.val
  · left
    have hmove : c.toUpper = _ := dif_pos h
    have hval : c.toUpper.val = c.val + ('A'.val - 'a'.val) := by rw [hmove]
    have hlo : 97 ≤ c.val.toNat := UInt32.le_iff_toNat_le.1 h.1
    have hhi : c.val.toNat ≤ 122 := UInt32.le_iff_toNat_le.1 h.2
    refine ⟨hlo, hhi, ?_⟩
    show c.toUpper.val.toNat + 32 = c.val.toNat
    rw [hval, UInt32.toNat_add, UInt32.toNat_sub]
    show (c.val.toNat + (2 ^ 32 - 97 + 65) % 2 ^ 32) % 2 ^ 32 + 32 = c.val.toNat
    omega
  · right
    have hsame : c.toUpper = c := dif_neg h
    refine ⟨?_, hsame⟩
    intro hrange
    exact h ⟨UInt32.le_iff_toNat_le.2 hrange.1, UInt32.le_iff_toNat_le.2 hrange.2⟩

theorem upper_append (s t : Text) : upper (s ++ t) = upper s ++ upper t := List.map_append

/-- Upper case is as wide. -/
theorem width_upper (t : Text) : width (upper t) = width t := by
  have hsize : ∀ c : Char, c.toUpper.utf8Size = c.utf8Size := by
    intro c
    rcases toUpper_cases c with ⟨hlo, hhi, hmove⟩ | ⟨-, hsame⟩
    -- letters take one byte
    · rw [Char.utf8Size_eq_one_iff.2, Char.utf8Size_eq_one_iff.2]
      · exact UInt32.le_iff_toNat_le.2 (show c.toNat ≤ 127 by omega)
      · exact UInt32.le_iff_toNat_le.2 (show c.toUpper.toNat ≤ 127 by omega)
    · rw [hsame]
  induction t with
  | nil => rfl
  | cons c cs ih =>
    show c.toUpper.utf8Size + width (upper cs) = _
    rw [hsize, ih]
    rfl

/-- A letter in upper case is one of A to Z. -/
theorem isUpper_toUpper {c : Char} (h : c.isAlpha = true) : c.toUpper.isUpper = true := by
  rcases toUpper_cases c with ⟨hlo, hhi, hmove⟩ | ⟨hlower, hsame⟩
  · rw [isUpper_iff]
    omega
  · rw [hsame]
    rcases isAlpha_iff.1 h with hupper | hlow
    · exact hupper
    · exact absurd (isLower_iff.1 hlow) hlower

/-- The text with the letters A to Z in lower case; other characters stay. -/
def lower (t : Text) : Text := t.map Char.toLower

/-- Blanks after the text up to `n` characters. -/
def padRight (n : Nat) (t : Text) : Text := t ++ List.replicate (n - t.length) ' '

/-- `fill` before the text up to `n` characters. -/
def padLeft (fill : Char) (n : Nat) (t : Text) : Text :=
  List.replicate (n - t.length) fill ++ t

def fields (separator : Char) : Text → List Text
  | [] => [[]]
  | c :: cs =>
    if c = separator then [] :: fields separator cs
    else
      match fields separator cs with
      | [] => [[c]]
      | part :: parts => (c :: part) :: parts

/-- The texts one after another with `separator` between them. -/
def joinWith (separator : Text) (ts : List Text) : Text :=
  (ts.intersperse separator).flatten

def decimal (n : Nat) : Text := Nat.toDigits 10 n

/-- The number in decimal digits, after a minus sign if it is negative. -/
def decimalInt (i : Int) : Text :=
  if i < 0 then '-' :: decimal i.natAbs else decimal i.natAbs

end Text

end EightBit
