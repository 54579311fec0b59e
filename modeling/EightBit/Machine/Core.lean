/-
  EightBit.Machine.Core
  ─────────────────────
  **THE CORE AND WHAT IS WRITTEN TO IT.**

  Memory and registers make up the core.  A step computes from the core as it
  finds it a list of writes, each to one location, and carries them out in
  order.

  Main results:
    • `read_apply_self`          — after a write its location holds what was written;
    • `read_applyAll_of_not_mem` — where nothing is written all is as it was;
    • `ext_read`                 — a core is determined by its locations.
-/
import EightBit.Machine.Registers

namespace EightBit

/-! ## §1. Locations and writes. -/

/-- Memory and registers. -/
structure Core where
  memory : Memory
  registers : Registers
  deriving DecidableEq, Repr

/-- A place that a step can write. -/
inductive Location where
  | register (r : Register)
  | ip
  | sp
  | sr
  | memory (address : Byte)
  deriving DecidableEq, Repr

/-- A location and what is written there. -/
inductive Write where
  | register (r : Register) (b : Byte)
  | ip (address : Byte)
  | sp (address : Byte)
  | sr (f : Flags)
  | memory (address b : Byte)
  deriving DecidableEq, Repr

/-- Where the write goes. -/
def Write.location : Write → Location
  | .register r _ => .register r
  | .ip _ => .ip
  | .sp _ => .sp
  | .sr _ => .sr
  | .memory a _ => .memory a

namespace Core

/-- Memory and registers at the start. -/
def initial (m : Memory) : Core := ⟨m, .initial⟩

def apply (c : Core) : Write → Core
  | .register r b => { c with registers := c.registers.set r b }
  | .ip a => { c with registers := { c.registers with ip := a } }
  | .sp a => { c with registers := { c.registers with sp := a } }
  | .sr f => { c with registers := { c.registers with sr := f } }
  | .memory a b => { c with memory := c.memory.set a b }

def applyAll (c : Core) (ws : List Write) : Core := ws.foldl apply c

def read (c : Core) : Location → Write
  | .register r => .register r (c.registers.get r)
  | .ip => .ip c.registers.ip
  | .sp => .sp c.registers.sp
  | .sr => .sr c.registers.sr
  | .memory a => .memory a (c.memory.get a)

/-! ## §2. Laws. -/

/-- After a write its location holds what was written. -/
theorem read_apply_self (c : Core) (w : Write) : (c.apply w).read w.location = w := by
  cases w <;> simp [apply, read, Write.location, Registers.get_set, Memory.get_set]

/-- Other locations are as they were. -/
theorem read_apply_of_ne (c : Core) (w : Write) {l : Location} (h : l ≠ w.location) :
    (c.apply w).read l = c.read l := by
  cases w with
  | register r b => cases l <;> simp_all [apply, read, Write.location, Registers.get_set]
  | memory a b => cases l <;> simp_all [apply, read, Write.location, Memory.get_set]
  | ip a | sp a | sr f =>
    cases l with
    | register q => cases q <;> rfl
    | _ => simp_all [apply, read, Write.location]

/-- Where nothing is written all is as it was. -/
theorem read_applyAll_of_not_mem {c : Core} {ws : List Write} {l : Location}
    (h : l ∉ ws.map Write.location) : (c.applyAll ws).read l = c.read l := by
  induction ws generalizing c with
  | nil => rfl
  | cons w ws ih =>
    rw [List.map_cons, List.mem_cons, not_or] at h
    -- the first write goes elsewhere, and so do the others
    exact (ih h.2).trans (read_apply_of_ne c w h.1)

@[simp] theorem location_read (c : Core) (l : Location) : (c.read l).location = l := by
  cases l <;> rfl

/-- A core is determined by its locations. -/
theorem ext_read {c d : Core} (h : ∀ l, c.read l = d.read l) : c = d := by
  obtain ⟨m, al, bl, cl, dl, ip, sp, sr⟩ := c
  obtain ⟨m', al', bl', cl', dl', ip', sp', sr'⟩ := d
  have hmemory : m = m' := Memory.ext_get fun a => by simpa [read] using h (.memory a)
  have hal := h (.register .al)
  have hbl := h (.register .bl)
  have hcl := h (.register .cl)
  have hdl := h (.register .dl)
  have hip := h .ip
  have hsp := h .sp
  have hsr := h .sr
  simp only [read, Registers.get, Write.register.injEq, Write.ip.injEq, Write.sp.injEq,
    Write.sr.injEq, true_and] at hal hbl hcl hdl hip hsp hsr
  subst hmemory hal hbl hcl hdl hip hsp hsr
  rfl

end Core

end EightBit
