/-
  EightBit.Text.Decimal
  ─────────────────────
  **DECIMAL NUMBERS.**

  Digits of base ten, and numbers that must fit into 64 bits.

  Main result:
    • `value?_decimal` — a written number is read back.
-/
import EightBit.Text.Basic

namespace EightBit.Text.Decimal

/-- The value of a run of decimal digits, at least one. -/
def value? (t : Text) : Option Nat :=
  if !t.isEmpty && t.all Char.isDigit then
    some (t.foldl (fun n c => n * 10 + (c.toNat - 48)) 0)
  else none

def withoutPlus : Text → Text
  | '+' :: t => t
  | t => t

/-- The highest number of 64 bits. -/
def maxCount : Nat := 0xFFFFFFFFFFFFFFFF

/-- The number of at most 64 bits that the text stands for: digits after at most
one plus sign. -/
def count? (t : Text) : Option Nat :=
  (value? (withoutPlus t)).filter fun n => n ≤ maxCount

/-- A written number is read back. -/
theorem value?_decimal (n : Nat) : value? (decimal n) = some n := by
  have hne : decimal n ≠ [] := Nat.toDigits_ne_nil
  have hdigits : (decimal n).all Char.isDigit = true := by
    rw [List.all_eq_true]
    intro c hc
    exact Nat.isDigit_of_mem_toDigits (by decide) (by decide) hc
  have hvalue : (decimal n).foldl (fun n c => n * 10 + (c.toNat - 48)) 0 = n := by
    have h : Nat.ofDigitChars 10 (decimal n) 0 = n := Nat.ofDigitChars_ten_toDigits
    rw [Nat.ofDigitChars_eq_foldl] at h
    simp only [Nat.mul_comm 10] at h
    exact h
  simp [value?, hne, hdigits, hvalue]

end EightBit.Text.Decimal
