/-
  EightBit.Text.Hex
  ─────────────────
  **HEXADECIMAL NUMBERS.**

  Numbers are written with upper-case digits and read in either case.

  Main results:
    • `digitValue?_digit`   — a written digit is read back;
    • `digitValue?_toUpper` — a digit has its value in either case;
    • `byte?_ofByte`        — the two digits of a byte are read back;
    • `not_mem_ofByte`      — nothing but digits is written for a byte.
-/
import EightBit.Byte
import EightBit.Text.Basic

namespace EightBit.Text.Hex

/-! ## §1. Writing. -/

/-- The upper-case digit of a number below 16. -/
def digit (n : Nat) : Char := "0123456789ABCDEF".toList.getD n '0'

def ofByte (b : Byte) : Text := [digit (b.toNat / 16), digit (b.toNat % 16)]

/-- The number in the fewest digits. -/
def ofNat (n : Nat) : Text := upper (Nat.toDigits 16 n)

/-- The bytes in two digits each, one after another. -/
def ofBytes (bs : List Byte) : Text := (bs.map ofByte).flatten

/-! ## §2. Reading. -/

def digitValue? (c : Char) : Option Nat :=
  if '0' ≤ c ∧ c ≤ '9' then some (c.toNat - 48)
  else if 'A' ≤ c ∧ c ≤ 'F' then some (c.toNat - 55)
  else if 'a' ≤ c ∧ c ≤ 'f' then some (c.toNat - 87)
  else none

def isDigit (c : Char) : Bool := (digitValue? c).isSome

/-- The value of a run of digits; the empty run is zero. -/
def value? (t : Text) : Option Nat :=
  t.foldlM (fun acc c => (digitValue? c).map (acc * 16 + ·)) 0

/-- The byte a number stands for: digits, at least one, after at most one plus
sign, with a value of at most 255. -/
def byte? (t : Text) : Option Byte :=
  match t with
  | '+' :: [] | [] => none
  | '+' :: ds => (value? ds).bind Byte.ofNat?
  | ds => (value? ds).bind Byte.ofNat?

/-! ## §3. Reading what was written. -/

/-- A written digit is read back. -/
theorem digitValue?_digit : ∀ n < 16, digitValue? (digit n) = some n := by decide

/-- The two digits of a byte are read back. -/
theorem byte?_ofByte (b : Byte) : byte? (ofByte b) = some b := by
  have h : ∀ n < 256, byte? (ofByte (UInt8.ofNat n)) = some (UInt8.ofNat n) := by decide +kernel
  simpa using h b.toNat b.toNat_lt

/-- Nothing but digits is written for a byte. -/
theorem not_mem_ofByte {c : Char} (hc : digitValue? c = none) (b : Byte) : c ∉ ofByte b := by
  have hdigit : ∀ n < 16, c ≠ digit n := by
    intro n hn heq
    rw [heq, digitValue?_digit n hn] at hc
    exact absurd hc (by simp)
  have hlt := b.toNat_lt
  have hhigh := hdigit (b.toNat / 16) (by omega)
  have hlow := hdigit (b.toNat % 16) (by omega)
  simp [ofByte, hhigh, hlow]

/-! ## §4. Digits in either case. -/

theorem digitValue?_eq (c : Char) : digitValue? c =
    if 48 ≤ c.toNat ∧ c.toNat ≤ 57 then some (c.toNat - 48)
    else if 65 ≤ c.toNat ∧ c.toNat ≤ 70 then some (c.toNat - 55)
    else if 97 ≤ c.toNat ∧ c.toNat ≤ 102 then some (c.toNat - 87)
    else none := by
  simp only [digitValue?, Char.le_def, UInt32.le_iff_toNat_le]
  rfl

/-- A digit has its value in either case. -/
theorem digitValue?_toUpper (c : Char) : digitValue? c.toUpper = digitValue? c := by
  rcases Text.toUpper_cases c with ⟨hlo, hhi, hc⟩ | ⟨-, hsame⟩
  · rw [digitValue?_eq, digitValue?_eq]
    by_cases hsix : c.toNat ≤ 102
    · rw [if_neg (by omega), if_pos (by omega), if_neg (by omega), if_neg (by omega),
        if_pos (by omega), show c.toUpper.toNat - 55 = c.toNat - 87 by omega]
    · rw [if_neg (by omega), if_neg (by omega), if_neg (by omega), if_neg (by omega),
        if_neg (by omega), if_neg (by omega)]
  · rw [hsame]

end EightBit.Text.Hex
