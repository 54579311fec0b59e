/-
  EightBit.Machine.Memory
  ───────────────────────
  **MEMORY.**

  256 bytes.  The upper 64 are the display: four rows of sixteen characters,
  blank at the start; the other bytes start at zero.  The stack grows down
  from the byte below the display.

  Main results:
    • `get_set`     — a write is seen at its address and nowhere else;
    • `ext_get`     — a memory is determined by its bytes.
-/
import EightBit.Byte

namespace EightBit

/-! ## §1. The memory map. -/

def stackBase : Byte := 0xBF

def displayStart : Byte := 0xC0

/-- What an empty display holds. -/
def displayBlank : Byte := 0x20

/-- Where the address of the interrupt handler is. -/
def interruptVector : Byte := 0x02

/-! ## §2. Bytes by address. -/

/-- A byte at each of the 256 addresses. -/
structure Memory where
  cells : Vector Byte 256
  deriving DecidableEq, Repr

namespace Memory

/-- The byte that an address holds at the start. -/
def initial (address : Nat) : Byte := if address < displayStart.toNat then 0 else displayBlank

def blank : Memory := ⟨Vector.ofFn fun i => initial i⟩

/-- Memory at the start with the bytes from address 0; what does not fit is
ignored. -/
def ofBytes (bytes : List Byte) : Memory :=
  let bytes := bytes.toArray
  ⟨Vector.ofFn fun i => bytes[i.val]?.getD (initial i)⟩

def get (m : Memory) (a : Byte) : Byte := m.cells.get ⟨a.toNat, Byte.toNat_lt a⟩

def set (m : Memory) (a b : Byte) : Memory := ⟨m.cells.set a.toNat b (Byte.toNat_lt a)⟩

def toList (m : Memory) : List Byte := m.cells.toList

def fromAddress (m : Memory) (a : Byte) : List Byte := m.toList.drop a.toNat

def display (m : Memory) : List Byte := m.fromAddress displayStart

/-! ## §3. Laws. -/

/-- The byte at an address is the cell with its number. -/
theorem get_eq_getElem (m : Memory) (a : Byte) (h : a.toNat < 256) :
    m.get a = m.cells[a.toNat] := rfl

/-- A write is seen at its address and nowhere else. -/
theorem get_set (m : Memory) (a b x : Byte) :
    (m.set a b).get x = if x = a then b else m.get x := by
  have hx := Byte.toNat_lt x
  rw [get_eq_getElem _ _ hx, get_eq_getElem _ _ hx]
  simp only [set, Vector.getElem_set, UInt8.toNat_inj, eq_comm]

/-- A memory is determined by its bytes. -/
theorem ext_get {m n : Memory} (h : ∀ a, m.get a = n.get a) : m = n := by
  obtain ⟨m⟩ := m
  obtain ⟨n⟩ := n
  congr
  apply Vector.ext
  intro i hi
  have hlt : (UInt8.ofNat i).toNat = i := UInt8.toNat_ofNat_of_lt hi
  have hbyte := h (UInt8.ofNat i)
  rw [get_eq_getElem _ _ (Byte.toNat_lt _), get_eq_getElem _ _ (Byte.toNat_lt _)] at hbyte
  simpa [hlt] using hbyte

end Memory

end EightBit
