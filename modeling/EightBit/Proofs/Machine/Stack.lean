/-
  EightBit.Proofs.Machine.Stack
  ─────────────────────────────
  **THE STACK IN MEMORY.**

  The bytes between the stack pointer and the base are a list, with its top at
  the lowest address.  What a step does to it depends on what it does to memory
  and to the stack pointer, and of that there are four kinds: it pushes a byte,
  takes one off, stores one anywhere, or leaves both alone.  A table says which
  opcode is of which kind.

  Main results:
    • `access_of_step`     — every successful step does what the table says;
    • `stackStep_of_step`  — what that makes of the stack, opcode by opcode;
    • `stackLimits`        — pushing fails at the end of the stack, and popping
                             at its base, and nowhere else.
-/
import EightBit.Proofs.Machine.Effect

namespace EightBit

/-! ## §1. The bytes above the stack pointer. -/

theorem Byte.toNat_add_one {b : Byte} (h : b.toNat + 1 < 256) : (b + 1).toNat = b.toNat + 1 := by
  rw [UInt8.toNat_add]
  exact Nat.mod_eq_of_lt h

theorem Byte.add_one_le {a b : Byte} (h : a < b) : a + 1 ≤ b := by
  have hlt : a.toNat < b.toNat := UInt8.lt_iff_toNat_lt.1 h
  have hb := b.toNat_lt
  rw [UInt8.le_iff_toNat_le, toNat_add_one (by omega)]
  omega

theorem Byte.sub_one_lt {b : Byte} (h : b ≠ 0) : b - 1 < b := by
  have hpos : b.toNat ≠ 0 := fun hzero => h (UInt8.toNat_inj.1 hzero)
  have hone : (1 : Byte) ≤ b := UInt8.le_iff_toNat_le.2 (Nat.one_le_iff_ne_zero.2 hpos)
  rw [UInt8.lt_iff_toNat_lt, UInt8.toNat_sub_of_le _ _ hone]
  exact Nat.sub_one_lt hpos

namespace Memory

/-- The bytes above the address up to the base of the stack. -/
def stackAbove (m : Memory) (sp : Byte) : List Byte :=
  (List.range' (sp.toNat + 1) (stackBase.toNat - sp.toNat)).map fun a => m.get (UInt8.ofNat a)

variable {m : Memory} {sp a b : Byte}

@[simp] theorem length_stackAbove (m : Memory) (sp : Byte) :
    (m.stackAbove sp).length = stackBase.toNat - sp.toNat := by
  rw [stackAbove, List.length_map, List.length_range']

theorem getElem?_stackAbove (m : Memory) (sp : Byte) (k : Nat) : (m.stackAbove sp)[k]?
    = if k < stackBase.toNat - sp.toNat then some (m.get (UInt8.ofNat (sp.toNat + 1 + k)))
      else none := by
  split
  · next h =>
    rw [stackAbove, List.getElem?_map, List.getElem?_range' h, Nat.one_mul]
    rfl
  · next h =>
    rw [List.getElem?_eq_none_iff, length_stackAbove]
    omega

/-- Below the base, the byte after the address comes first. -/
theorem stackAbove_of_lt (h : sp < stackBase) :
    m.stackAbove sp = m.get (sp + 1) :: m.stackAbove (sp + 1) := by
  have hbase : stackBase.toNat = 191 := rfl
  have hlt : sp.toNat < stackBase.toNat := UInt8.lt_iff_toNat_lt.1 h
  have hnext : (sp + 1).toNat = sp.toNat + 1 := Byte.toNat_add_one (by omega)
  have hsucc : stackBase.toNat - sp.toNat = stackBase.toNat - (sp + 1).toNat + 1 := by omega
  have hget : UInt8.ofNat (sp.toNat + 1) = sp + 1 := by rw [← hnext, UInt8.ofNat_toNat]
  rw [stackAbove, hsucc, List.range'_succ, List.map_cons, hget, ← hnext]
  rfl

/-- A write between the address and the base replaces a byte of the stack, and
any other write does not touch it. -/
theorem stackAbove_set (m : Memory) (sp a b : Byte) : (m.set a b).stackAbove sp
    = if sp < a ∧ a ≤ stackBase then (m.stackAbove sp).set (a.toNat - sp.toNat - 1) b
      else m.stackAbove sp := by
  have hbase : stackBase.toNat = 191 := rfl
  -- an address of the stack is written when it is the address itself
  have hwritten : ∀ k < stackBase.toNat - sp.toNat,
      UInt8.ofNat (sp.toNat + 1 + k) = a ↔ a.toNat = sp.toNat + 1 + k := by
    intro k hk
    have hnat : (UInt8.ofNat (sp.toNat + 1 + k)).toNat = sp.toNat + 1 + k :=
      UInt8.toNat_ofNat_of_lt (show sp.toNat + 1 + k < 256 by omega)
    rw [← UInt8.toNat_inj, hnat, eq_comm]
  apply List.ext_getElem?
  intro k
  rw [getElem?_stackAbove]
  by_cases hk : k < stackBase.toNat - sp.toNat
  · rw [if_pos hk, get_set]
    by_cases ha : a.toNat = sp.toNat + 1 + k
    · have hin : sp < a ∧ a ≤ stackBase := by
        rw [UInt8.lt_iff_toNat_lt, UInt8.le_iff_toNat_le]
        omega
      have hindex : a.toNat - sp.toNat - 1 = k := by omega
      rw [if_pos ((hwritten k hk).2 ha), if_pos hin, hindex, List.getElem?_set_self]
      rw [length_stackAbove]
      exact hk
    · rw [if_neg fun heq => ha ((hwritten k hk).1 heq)]
      have hold : (m.stackAbove sp)[k]? = some (m.get (UInt8.ofNat (sp.toNat + 1 + k))) := by
        rw [getElem?_stackAbove, if_pos hk]
      split
      · next hin =>
        have hlt : sp.toNat < a.toNat := UInt8.lt_iff_toNat_lt.1 hin.1
        rw [List.getElem?_set_ne (by omega), hold]
      · exact hold.symm
  · have hlong : stackBase.toNat - sp.toNat ≤ k := Nat.le_of_not_lt hk
    rw [if_neg hk, eq_comm, List.getElem?_eq_none_iff]
    split
    · rw [List.length_set, length_stackAbove]
      exact hlong
    · rw [length_stackAbove]
      exact hlong

end Memory

/-! ## §2. What a step does to memory and the stack pointer. -/

/-- What a step does to memory and the stack pointer. -/
inductive Access where
  | none
  | push (b : Byte)
  | pop
  | store (address b : Byte)
  deriving DecidableEq, Repr

namespace Core

/-- The stack, top first. -/
def stack (c : Core) : List Byte := c.memory.stackAbove c.registers.sp

/-- The stack when the byte is written at the address: its element there is
replaced, if the address is one of the stack. -/
def stackWith (c : Core) (a b : Byte) : List Byte :=
  if c.registers.sp < a ∧ a ≤ stackBase then
    c.stack.set (a.toNat - c.registers.sp.toNat - 1) b
  else c.stack

end Core

/-- The opcode pushes, takes off, or stores. -/
def Opcode.UsesStack (op : Opcode) : Prop :=
  op ∈ [.call, .int, .push, .pushf, .pop, .popf, .ret, .iret, .storeDirect, .storeIndirect]

instance (op : Opcode) : Decidable op.UsesStack := inferInstanceAs (Decidable (_ ∈ _))

namespace Core

/-- **The table**: what an instruction with the opcode does. -/
def accessOf (c : Core) : Opcode → Except Fault.Cause Access
  | .call | .int => (c.successor 2).map .push
  | .push => (c.fetch 1 >>= c.content).map .push
  | .pushf => .ok (.push c.registers.sr.toByte)
  | .pop | .popf | .ret | .iret => .ok .pop
  | .storeDirect => do
    let address ← c.fetch 1
    let b ← c.fetch 2 >>= c.content
    pure (.store address b)
  | .storeIndirect => do
    let address ← c.fetch 1 >>= c.content
    let b ← c.fetch 2 >>= c.content
    pure (.store address b)
  | _ => .ok .none

/-- What a step under the signals does: the interrupt pushes the address of the
instruction in whose place it is taken. -/
def access (c : Core) (input : InputSignals) : Except Fault.Cause Access :=
  if c.traps input then .ok (.push c.registers.ip)
  else
    let b := c.memory.get c.registers.ip
    match Opcode.ofByte? b with
    | none => .error (.invalidOpcode b)
    | some op => c.accessOf op

end Core

/-- The access leads from one core to the other. -/
def Access.Leads (c c' : Core) : Access → Prop
  | .none => c'.memory = c.memory ∧ c'.registers.sp = c.registers.sp
  | .push b => c.registers.sp ≠ 0 ∧ c'.memory = c.memory.set c.registers.sp b
      ∧ c'.registers.sp = c.registers.sp - 1
  | .pop => c.registers.sp < stackBase ∧ c'.memory = c.memory
      ∧ c'.registers.sp = c.registers.sp + 1
  | .store address b => c'.memory = c.memory.set address b ∧ c'.registers.sp = c.registers.sp

namespace Core

variable {c : Core} {input : InputSignals} {op : Opcode} {s : Step}

theorem access_of_traps (h : c.traps input = true) :
    c.access input = .ok (.push c.registers.ip) := by
  rw [access, if_pos h]

theorem Executes.access_eq (h : c.Executes input op) : c.access input = c.accessOf op := by
  obtain ⟨htraps, hop⟩ := h
  unfold access
  simp only [htraps, hop]
  rfl

/-- An instruction does what the table says. -/
theorem access_of_performs {datum : Option InputDatum} {e : Effect} (h : c.Performs datum op e) :
    ∃ access, c.accessOf op = .ok access ∧ access.Leads c (c.applyAll e.writes) := by
  cases h with
  | call _ hback hsp | int _ hback hsp =>
    exact ⟨.push _, by rw [accessOf, hback]; rfl, hsp, rfl, rfl⟩
  | push hsource hsp _ =>
    exact ⟨.push _, by rw [accessOf, hsource, ok_bind, content_code]; rfl, hsp, rfl, rfl⟩
  | pushf hsp _ => exact ⟨.push _, rfl, hsp, rfl, rfl⟩
  | ret hsp | iret hsp | popf hsp _ => exact ⟨.pop, rfl, hsp, rfl, rfl⟩
  | pop _ hsp _ => exact ⟨.pop, rfl, hsp, rfl, Registers.sp_set _ _ _⟩
  | storeDirect haddress hsource _ =>
    refine ⟨.store _ _, ?_, rfl, rfl⟩
    rw [accessOf, haddress, ok_bind, hsource, ok_bind, content_code]
    rfl
  | storeIndirect hpointer hsource _ =>
    refine ⟨.store _ _, ?_, rfl, rfl⟩
    rw [accessOf, hpointer, ok_bind, content_code, ok_bind, hsource, ok_bind, content_code]
    rfl
  | _ =>
    -- registers and flags are written at most
    refine ⟨.none, rfl, rfl, ?_⟩
    first
      | rfl
      | exact Registers.sp_set _ _ _

/-- **A successful step** does what the table says. -/
theorem access_of_step (h : c.step input = .ok s) :
    ∃ access, c.access input = .ok access ∧ access.Leads c s.core := by
  obtain ⟨e, hsteps, rfl⟩ := steps_of_step h
  cases hsteps with
  | trap htraps hsp => exact ⟨.push _, access_of_traps htraps, hsp, rfl, rfl⟩
  | instruction hop hperforms =>
    rw [hop.access_eq]
    exact access_of_performs hperforms

/-- An instruction that is executed does what the table says of its opcode. -/
theorem Executes.leads (hexec : c.Executes input op) (h : c.step input = .ok s) :
    ∃ access, c.accessOf op = .ok access ∧ access.Leads c s.core := by
  obtain ⟨access, haccess, hleads⟩ := access_of_step h
  rw [hexec.access_eq] at haccess
  exact ⟨access, haccess, hleads⟩

/-- An opcode outside the table leaves memory and the stack pointer alone. -/
theorem accessOf_of_not_usesStack (h : ¬ op.UsesStack) : c.accessOf op = .ok .none := by
  cases op with
  | call | int | push | pushf | pop | popf | ret | iret | storeDirect | storeIndirect =>
    exact absurd (by decide) h
  | _ => rfl

end Core

/-! ## §3. What that makes of the stack. -/

namespace Access.Leads

variable {c c' : Core} {a b : Byte}

theorem stack_none (h : Access.none.Leads c c') : c'.stack = c.stack := by
  rw [Core.stack, h.1, h.2]
  rfl

/-- The byte that is pushed becomes the top. -/
theorem stack_push (h : (Access.push b).Leads c c') (hle : c.registers.sp ≤ stackBase) :
    c'.stack = b :: c.stack := by
  obtain ⟨hsp, hmem, hnext⟩ := h
  have hlt : c.registers.sp - 1 < stackBase := UInt8.lt_of_lt_of_le (Byte.sub_one_lt hsp) hle
  have hself : c.registers.sp - 1 + 1 = c.registers.sp := UInt8.sub_add_cancel _ _
  -- the rest of the stack lies above the byte that is written
  rw [Core.stack, hmem, hnext, Memory.stackAbove_of_lt hlt, hself, Memory.get_set, if_pos rfl,
    Memory.stackAbove_set, if_neg fun h => (UInt8.lt_irrefl _) h.1]
  rfl

/-- The top is taken off. -/
theorem stack_pop (h : Access.pop.Leads c c') :
    c.stack = c.memory.get (c.registers.sp + 1) :: c'.stack := by
  obtain ⟨hlt, hmem, hnext⟩ := h
  rw [Core.stack, Core.stack, hmem, hnext, Memory.stackAbove_of_lt hlt]

theorem stack_store (h : (Access.store a b).Leads c c') : c'.stack = c.stackWith a b := by
  rw [Core.stack, h.1, h.2, Memory.stackAbove_set]
  rfl

end Access.Leads

namespace Core

variable {c c' : Core} {input : InputSignals} {op : Opcode} {s : Step}

/-- A step never leaves the stack pointer above the base. -/
theorem sp_le_of_step (hle : c.registers.sp ≤ stackBase) (h : c.step input = .ok s) :
    s.core.registers.sp ≤ stackBase := by
  obtain ⟨access, -, hleads⟩ := access_of_step h
  cases access with
  | none | store a b => rwa [hleads.2]
  | push b =>
    obtain ⟨hsp, -, hnext⟩ := hleads
    rw [hnext]
    exact UInt8.le_trans (UInt8.le_of_lt (Byte.sub_one_lt hsp)) hle
  | pop =>
    obtain ⟨hlt, -, hnext⟩ := hleads
    rw [hnext]
    exact Byte.add_one_le hlt

/-- **What a successful step makes of the stack.** -/
structure StackStep (c : Core) (input : InputSignals) (c' : Core) : Prop where
  /-- The step takes the interrupt or executes an opcode. -/
  kind : c.traps input = true ∨ ∃ op, c.Executes input op
  /-- The stack pointer stays below the base or at it. -/
  sp_le : c'.registers.sp ≤ stackBase
  trap : c.traps input = true → c'.stack = c.registers.ip :: c.stack
  /-- The return address is pushed. -/
  enter : ∀ op ∈ [Opcode.call, .int], c.Executes input op →
    ∃ back : Byte, back.toNat = c.registers.ip.toNat + 2 ∧ c'.stack = back :: c.stack
  push : c.Executes input .push →
    ∃ r : Register, c.fetch 1 = .ok r.code ∧ c'.stack = c.registers.get r :: c.stack
  pushf : c.Executes input .pushf → c'.stack = c.registers.sr.toByte :: c.stack
  pop : c.Executes input .pop →
    ∃ r : Register, c.fetch 1 = .ok r.code ∧ c.stack = c'.registers.get r :: c'.stack
  popf : c.Executes input .popf → ∃ b, c.stack = b :: c'.stack ∧ c'.registers.sr = .ofByte b
  /-- The top is the next address. -/
  leave : ∀ op ∈ [Opcode.ret, .iret], c.Executes input op →
    c.stack = c'.registers.ip :: c'.stack
  storeDirect : c.Executes input .storeDirect → ∃ (a : Byte) (r : Register),
    c.fetch 1 = .ok a ∧ c.fetch 2 = .ok r.code ∧ c'.stack = c.stackWith a (c.registers.get r)
  storeIndirect : c.Executes input .storeIndirect → ∃ p r : Register,
    c.fetch 1 = .ok p.code ∧ c.fetch 2 = .ok r.code
      ∧ c'.stack = c.stackWith (c.registers.get p) (c.registers.get r)
  /-- Every other opcode leaves the stack as it is. -/
  other : ∀ op, ¬ op.UsesStack → c.Executes input op → c'.stack = c.stack

/-- Every successful step with a stack pointer up to the base is such a step. -/
theorem stackStep_of_step (hle : c.registers.sp ≤ stackBase) (h : c.step input = .ok s) :
    c.StackStep input s.core where
  kind := by
    obtain ⟨e, hsteps, -⟩ := steps_of_step h
    cases hsteps with
    | trap htraps _ => exact Or.inl htraps
    | instruction hop _ => exact Or.inr ⟨_, hop⟩
  sp_le := sp_le_of_step hle h
  trap := by
    intro htraps
    obtain ⟨access, haccess, hleads⟩ := access_of_step h
    rw [access_of_traps htraps] at haccess
    obtain rfl : .push c.registers.ip = access := Except.ok.inj haccess
    exact hleads.stack_push hle
  enter := by
    intro op hop hexec
    obtain ⟨e, hperforms, rfl⟩ := hexec.performs h
    cases hperforms with
    | call _ hback hsp | int _ hback hsp =>
      -- the return address lies inside memory, or there would have been no push
      exact ⟨_, successor_eq_ok_iff.1 hback,
        Access.Leads.stack_push ⟨hsp, rfl, rfl⟩ hle⟩
    | _ => exact absurd hop (by simp)
  push := by
    intro hexec
    obtain ⟨e, hperforms, rfl⟩ := hexec.performs h
    cases hperforms with
    | push hsource hsp hnext =>
      exact ⟨_, hsource, Access.Leads.stack_push ⟨hsp, rfl, rfl⟩ hle⟩
  pushf := by
    intro hexec
    obtain ⟨access, haccess, hleads⟩ := hexec.leads h
    obtain rfl : .push c.registers.sr.toByte = access := Except.ok.inj haccess
    exact hleads.stack_push hle
  pop := by
    intro hexec
    obtain ⟨e, hperforms, rfl⟩ := hexec.performs h
    obtain ⟨access, haccess, hleads⟩ := access_of_performs hperforms
    obtain rfl : .pop = access := Except.ok.inj haccess
    cases hperforms with
    | @pop dest next hdest hsp hnext =>
      refine ⟨dest, hdest, ?_⟩
      rw [hleads.stack_pop]
      -- the register has what was on top, whichever it is
      congr 1
      cases dest <;> rfl
  popf := by
    intro hexec
    obtain ⟨e, hperforms, rfl⟩ := hexec.performs h
    cases hperforms with
    | popf hsp hnext => exact ⟨_, Access.Leads.stack_pop ⟨hsp, rfl, rfl⟩, rfl⟩
  leave := by
    intro op hop hexec
    obtain ⟨e, hperforms, rfl⟩ := hexec.performs h
    cases hperforms with
    | ret hsp | iret hsp => exact Access.Leads.stack_pop ⟨hsp, rfl, rfl⟩
    | _ => exact absurd hop (by simp)
  storeDirect := by
    intro hexec
    obtain ⟨e, hperforms, rfl⟩ := hexec.performs h
    cases hperforms with
    | storeDirect haddress hsource hnext =>
      exact ⟨_, _, haddress, hsource, Access.Leads.stack_store ⟨rfl, rfl⟩⟩
  storeIndirect := by
    intro hexec
    obtain ⟨e, hperforms, rfl⟩ := hexec.performs h
    cases hperforms with
    | storeIndirect hpointer hsource hnext =>
      exact ⟨_, _, hpointer, hsource, Access.Leads.stack_store ⟨rfl, rfl⟩⟩
  other := by
    intro op hop hexec
    obtain ⟨access, haccess, hleads⟩ := hexec.leads h
    rw [accessOf_of_not_usesStack hop] at haccess
    obtain rfl : .none = access := Except.ok.inj haccess
    exact hleads.stack_none

/-! ## §4. The ends of the stack. -/

theorem length_stack (c : Core) : c.stack.length = stackBase.toNat - c.registers.sp.toNat :=
  Memory.length_stackAbove _ _

theorem length_stack_eq_base_iff : c.stack.length = stackBase.toNat ↔ c.registers.sp = 0 := by
  have hbase : stackBase.toNat = 191 := rfl
  have hzero : (0 : Byte).toNat = 0 := rfl
  rw [length_stack, ← UInt8.toNat_inj]
  omega

theorem stack_eq_nil_iff : c.stack = [] ↔ stackBase ≤ c.registers.sp := by
  rw [← List.length_eq_zero_iff, length_stack, UInt8.le_iff_toNat_le]
  omega

theorem step_eq_error_iff {cause : Fault.Cause} :
    c.step input = .error ⟨cause, c.registers.ip⟩ ↔ c.effect input = .error cause := by
  unfold step
  cases c.effect input <;> simp

/-- Continuing behind an instruction fails for leaving memory only. -/
theorem advance_ne_error {width : Nat} {f : Byte → Effect} {cause : Fault.Cause}
    (hcause : cause ≠ .beyondMemory) :
    (c.successor width >>= fun next => pure (f next)) ≠ .error cause := by
  unfold successor
  split
  · exact pure_ne_error
  · exact fun h => hcause (Except.error.inj h).symm

theorem push_eq_error_iff {b : Byte} {cause : Fault.Cause} :
    c.push b = .error cause ↔ c.registers.sp = 0 ∧ cause = .stackOverflow := by
  unfold push
  by_cases hsp : c.registers.sp = 0 <;> simp [hsp, eq_comm]

theorem pop_eq_error_iff {cause : Fault.Cause} :
    c.pop = .error cause ↔ stackBase ≤ c.registers.sp ∧ cause = .stackUnderflow := by
  unfold pop
  by_cases hsp : stackBase ≤ c.registers.sp <;> simp [hsp, eq_comm]

theorem enter_eq_error_iff {b vector : Byte} {cause : Fault.Cause} :
    c.enter b vector = .error cause ↔ c.registers.sp = 0 ∧ cause = .stackOverflow := by
  rw [enter, map_eq_error_iff, push_eq_error_iff]

/-- The opcode pushes a byte, and its operands allow it to. -/
def CanPush (c : Core) : Opcode → Prop
  | .push => ∃ r : Register, c.fetch 1 = .ok r.code
  | .pushf => True
  | .call | .int => c.registers.ip.toNat + 2 ≤ 0xFF
  | _ => False

/-- The opcode takes a byte off the stack, and its operands allow it to. -/
def CanPop (c : Core) : Opcode → Prop
  | .pop => ∃ r : Register, c.fetch 1 = .ok r.code
  | .popf | .ret | .iret => True
  | _ => False

/-- An opcode that can push fails for the stack when this has no room left. -/
theorem CanPush.exec_eq_error_iff (h : c.CanPush op) (datum : Option InputDatum) :
    c.exec datum op = .error .stackOverflow ↔ c.registers.sp = 0 := by
  -- up to the push nothing fails, and behind it nothing fails for the stack
  cases op with
  | push =>
    obtain ⟨r, hr⟩ := h
    rw [exec, hr, ok_bind, content_code, ok_bind,
      bind_eq_error_iff_of_ne fun _ => advance_ne_error (by simp), push_eq_error_iff]
    exact and_iff_left rfl
  | pushf =>
    rw [exec, bind_eq_error_iff_of_ne fun _ => advance_ne_error (by simp), push_eq_error_iff]
    exact and_iff_left rfl
  | call | int =>
    have hlt : c.registers.ip.toNat + 2 < 256 := Nat.lt_succ_of_le h
    rw [exec, fetch_eq (Nat.lt_of_succ_lt hlt), ok_bind, successor_eq hlt, ok_bind,
      bind_eq_error_iff_of_ne fun _ => pure_ne_error]
    first
      | rw [push_eq_error_iff]
      | rw [enter_eq_error_iff]
    exact and_iff_left rfl
  | _ => exact h.elim

/-- An opcode that can pop fails for the stack when this is empty. -/
theorem CanPop.exec_eq_error_iff (h : c.CanPop op) (datum : Option InputDatum) :
    c.exec datum op = .error .stackUnderflow ↔ stackBase ≤ c.registers.sp := by
  cases op with
  | pop =>
    obtain ⟨r, hr⟩ := h
    rw [exec, hr, ok_bind, register_code, ok_bind,
      bind_eq_error_iff_of_ne fun _ => advance_ne_error (by simp), pop_eq_error_iff]
    exact and_iff_left rfl
  | popf =>
    rw [exec, bind_eq_error_iff_of_ne fun _ => advance_ne_error (by simp), pop_eq_error_iff]
    exact and_iff_left rfl
  | ret | iret =>
    rw [exec, bind_eq_error_iff_of_ne fun _ => pure_ne_error, pop_eq_error_iff]
    exact and_iff_left rfl
  | _ => exact h.elim

/-- **When a step fails for the stack.** -/
structure StackLimits (c : Core) (input : InputSignals) : Prop where
  /-- The stack is at its longest when the stack pointer is at zero. -/
  full : c.stack.length = stackBase.toNat ↔ c.registers.sp = 0
  trap : c.traps input = true → (c.step input = .error ⟨.stackOverflow, c.registers.ip⟩
    ↔ c.stack.length = stackBase.toNat)
  push : ∀ op, c.Executes input op → c.CanPush op →
    (c.step input = .error ⟨.stackOverflow, c.registers.ip⟩ ↔ c.stack.length = stackBase.toNat)
  pop : ∀ op, c.Executes input op → c.CanPop op →
    (c.step input = .error ⟨.stackUnderflow, c.registers.ip⟩ ↔ c.stack = [])

theorem stackLimits (c : Core) (input : InputSignals) : c.StackLimits input where
  full := length_stack_eq_base_iff
  trap := by
    intro htraps
    rw [step_eq_error_iff, effect_of_traps htraps, map_eq_error_iff, enter_eq_error_iff,
      length_stack_eq_base_iff]
    exact and_iff_left rfl
  push := by
    intro op hexec hcan
    rw [step_eq_error_iff, hexec.effect_eq, hcan.exec_eq_error_iff, length_stack_eq_base_iff]
  pop := by
    intro op hexec hcan
    rw [step_eq_error_iff, hexec.effect_eq, hcan.exec_eq_error_iff, stack_eq_nil_iff]

end Core

end EightBit
