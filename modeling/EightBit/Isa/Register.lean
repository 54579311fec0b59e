/-
  EightBit.Isa.Register
  ─────────────────────
  **THE GENERAL REGISTERS.**

  Four registers, named AL to DL and encoded as the bytes 0 to 3.

  Main results:
    • `ofCode?_code`, `code_of_ofCode?` — code and register determine each other;
    • `ofCode?_isSome_iff`              — the codes are the bytes up to 3;
    • `parse?_eq_some_iff`              — a text names a register in any case.
-/
import EightBit.Byte
import EightBit.Text.Basic

namespace EightBit

/-- A general register. -/
inductive Register where
  | al | bl | cl | dl
  deriving DecidableEq, Repr

namespace Register

/-! ## §1. Names and codes. -/

/-- Every register, in the order of the codes. -/
def all : List Register := [.al, .bl, .cl, .dl]

def name : Register → Text
  | .al => "AL".toList
  | .bl => "BL".toList
  | .cl => "CL".toList
  | .dl => "DL".toList

def code : Register → Byte
  | .al => 0
  | .bl => 1
  | .cl => 2
  | .dl => 3

def ofCode? (b : Byte) : Option Register := all.find? fun r => r.code == b

/-- The register with this name, in any case. -/
def parse? (t : Text) : Option Register := all.find? fun r => r.name == t.upper

/-! ## §2. Laws. -/

/-- Every register is in the list. -/
theorem mem_all (r : Register) : r ∈ all := by cases r <;> decide

/-- A register is found by its code. -/
@[simp] theorem ofCode?_code (r : Register) : ofCode? r.code = some r := by cases r <;> decide

/-- The register found by a code has that code. -/
theorem code_of_ofCode? {b : Byte} {r : Register} (h : ofCode? b = some r) : r.code = b := by
  simpa using List.find?_some h

/-- The codes are the bytes up to 3. -/
theorem ofCode?_isSome_iff (b : Byte) : (ofCode? b).isSome ↔ b ≤ 3 := by
  have h : ∀ n < 256, (ofCode? (UInt8.ofNat n)).isSome ↔ UInt8.ofNat n ≤ 3 := by decide +kernel
  simpa using h b.toNat b.toNat_lt

/-- A register is found by its name. -/
@[simp] theorem parse?_name (r : Register) : parse? r.name = some r := by cases r <;> decide

@[simp] theorem upper_name (r : Register) : r.name.upper = r.name := by cases r <;> decide

/-- A text names a register in any case. -/
theorem parse?_eq_some_iff {t : Text} {r : Register} :
    parse? t = some r ↔ t.upper = r.name := by
  constructor
  · intro h
    have hname : r.name = t.upper := by simpa using List.find?_some h
    exact hname.symm
  · intro h
    rw [← parse?_name r, parse?, parse?, h, upper_name]

theorem parse?_eq_none_iff {t : Text} : parse? t = none ↔ ∀ r : Register, t.upper ≠ r.name := by
  simp only [Option.eq_none_iff_forall_ne_some, ne_eq, parse?_eq_some_iff]

end Register

end EightBit
