/-
  EightBit.Byte
  ─────────────
  **THE EIGHT-BIT WORD.**

  Addresses, register contents and instruction codes are all bytes.  A byte
  is read in two ways: as a number from 0 to 255, or, where it is a jump
  distance, as a signed number from -128 to 127.

  Main results:
    • `toNat_ofNat?`  — a number that fits is stored unchanged;
    • `signed_ofInt`  — a distance in range is recovered from its byte.
-/
namespace EightBit

/-- A number from 0 to 255; arithmetic on it wraps. -/
abbrev Byte := UInt8

namespace Byte

/-! ## §1. Numbers as bytes. -/

/-- The byte holding `n`, if `n` fits in one. -/
def ofNat? (n : Nat) : Option Byte :=
  if n < 256 then some (UInt8.ofNat n) else none

/-- The byte holding `i`, if `i` is from 0 to 255. -/
def ofInt? (i : Int) : Option Byte :=
  if 0 ≤ i ∧ i < 256 then some (UInt8.ofNat i.toNat) else none

theorem toNat_lt (b : Byte) : b.toNat < 256 := UInt8.toNat_lt b

/-- A number that fits is stored unchanged. -/
theorem toNat_ofNat? {n : Nat} {b : Byte} (h : ofNat? n = some b) : b.toNat = n := by
  unfold ofNat? at h
  split at h
  · next hn =>
    injection h with h
    subst h
    exact UInt8.toNat_ofNat_of_lt hn
  · next => exact absurd h (by simp)

theorem ofNat?_eq_some_iff {n : Nat} {b : Byte} : ofNat? n = some b ↔ b.toNat = n := by
  constructor
  · exact toNat_ofNat?
  · intro h
    rw [← h, ofNat?, if_pos b.toNat_lt, UInt8.ofNat_toNat]

/-! ## §2. Signed reading. -/

/-- The byte as a two's-complement number, from -128 to 127. -/
def signed (b : Byte) : Int :=
  if b.toNat < 128 then b.toNat else b.toNat - 256

/-- The byte whose residue modulo 256 is that of `i`. -/
def ofInt (i : Int) : Byte := UInt8.ofNat (i % 256).toNat

/-- A distance in range is recovered from its byte. -/
theorem signed_ofInt {i : Int} (lo : -128 ≤ i) (hi : i ≤ 127) : (ofInt i).signed = i := by
  have hlt : (i % 256).toNat < 256 := by omega
  have h : (ofInt i).toNat = (i % 256).toNat := UInt8.toNat_ofNat_of_lt hlt
  unfold signed
  rw [h]
  split <;> omega

end Byte

end EightBit
