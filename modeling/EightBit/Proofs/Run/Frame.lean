/-
  EightBit.Proofs.Run.Frame
  ─────────────────────────
  **EACH PART OF THE CORE HAS ITS WRITERS.**

  Code, stack and display share one memory, and all flags share one register.
  Still only few instructions write each part of it: a table says which.  The
  display is written by stores alone, and that is so in runs only: a push writes
  wherever the stack pointer is, and what keeps it out of the display is that no
  run takes the stack pointer above the base.

  Main results:
    • `written_of_step`       — what a step changes is its to write;
    • `exists_writer_of_run`  — so is what a run changes, at some step of it;
    • `run_written_by_table`  — every step of a run keeps to the table.
-/
import EightBit.Proofs.Run.Input
import EightBit.Proofs.Run.Stack

namespace EightBit

/-! ## §1. Who writes what. -/

namespace Opcode

/-- The opcode puts a byte on the stack. -/
def Pushes (op : Opcode) : Prop := op ∈ [.push, .pushf, .call, .int]

/-- The opcode calculates in its first operand. -/
def Calculates : Opcode → Prop
  | .binaryRegister _ | .binaryNumber _ | .unary _ => True
  | _ => False

def Compares (op : Opcode) : Prop := op ∈ [.compareRegister, .compareNumber, .compareDirect]

/-- The opcode moves a byte to a register. -/
def Loads (op : Opcode) : Prop := op ∈ [.loadNumber, .loadDirect, .loadIndirect]

end Opcode

namespace Core

/-- The step stores a byte at the address. -/
def Stores (c : Core) (input : InputSignals) (a : Byte) : Prop :=
  (c.Executes input .storeDirect ∧ c.fetch 1 = .ok a)
    ∨ ∃ pointer : Register, c.Executes input .storeIndirect ∧ c.fetch 1 = .ok pointer.code
      ∧ c.registers.get pointer = a

/-- The step takes the interrupt, or executes an opcode that pushes. -/
def Pushes (c : Core) (input : InputSignals) : Prop :=
  c.traps input = true ∨ ∃ op, c.Executes input op ∧ op.Pushes

def Pops (c : Core) (input : InputSignals) : Prop := ∃ op, c.Executes input op ∧ op.Pops

/-- An input instruction finds a datum on its channel, and not the one that leaves
the register alone. -/
def Served (c : Core) (input : InputSignals) : Prop :=
  ∃ channel content, c.Reads input channel ∧ input.datum = some ⟨content, channel⟩
    ∧ content ≠ InputDatum.skip

end Core

/-- The parts of a core. -/
inductive Part where
  | memory (address : Byte)
  | register (r : Register)
  | sp
  | interrupt
  /-- The flags zero, overflow and sign. -/
  | arithmetic
  deriving DecidableEq, Repr

/-- The part is the same in both. -/
def Part.Kept (c c' : Core) : Part → Prop
  | .memory a => c'.memory.get a = c.memory.get a
  | .register r => c'.registers.get r = c.registers.get r
  | .sp => c'.registers.sp = c.registers.sp
  | .interrupt => c'.registers.sr.interrupt = c.registers.sr.interrupt
  | .arithmetic => c'.registers.sr.zero = c.registers.sr.zero
    ∧ c'.registers.sr.overflow = c.registers.sr.overflow
    ∧ c'.registers.sr.sign = c.registers.sr.sign

/-- **The table**: the steps that may write the part. -/
def Core.MayWrite (c : Core) (input : InputSignals) : Part → Prop
  -- below the display a byte may be pushed, too
  | .memory a => c.Stores input a ∨ (a < displayStart ∧ a = c.registers.sp ∧ c.Pushes input)
  | .register r =>
    (∃ op, c.Executes input op ∧ (op.Calculates ∨ op.Loads ∨ op = .pop) ∧ c.fetch 1 = .ok r.code)
      ∨ (r = .al ∧ c.Served input)
  | .sp => c.Pushes input ∨ c.Pops input
  | .interrupt => ∃ op, c.Executes input op ∧ op ∈ [.sti, .cli, .popf]
  | .arithmetic => ∃ op, c.Executes input op ∧ (op.Calculates ∨ op.Compares ∨ op = .popf)

/-! ## §2. What is written. -/

/-- Where the part is. -/
def Part.location : Part → Location
  | .memory a => .memory a
  | .register r => .register r
  | .sp => .sp
  | .interrupt | .arithmetic => .sr

/-- A part is kept where nothing is written. -/
theorem Part.location_mem_of_not_kept {part : Part} {c : Core} {ws : List Write}
    (h : ¬ part.Kept c (c.applyAll ws)) : part.location ∈ ws.map Write.location := by
  by_contra hmem
  have hread := Core.read_applyAll_of_not_mem (c := c) hmem
  apply h
  cases part with
  | memory a => exact (Write.memory.inj hread).2
  | register r => exact (Write.register.inj hread).2
  | sp => exact Write.sp.inj hread
  | interrupt =>
    have hflags : (c.applyAll ws).registers.sr = c.registers.sr := Write.sr.inj hread
    exact congrArg Flags.interrupt hflags
  | arithmetic =>
    have hflags : (c.applyAll ws).registers.sr = c.registers.sr := Write.sr.inj hread
    exact ⟨congrArg Flags.zero hflags, congrArg Flags.overflow hflags, congrArg Flags.sign hflags⟩

/-- No calculation changes the interrupt flag. -/
theorem AluOp.interrupt_of_operate? {op : AluOp} {operand dest b : Byte} {f f' : Flags}
    (h : op.operate? operand dest f = some (b, f')) : f'.interrupt = f.interrupt := by
  obtain ⟨w, -, hw⟩ := Option.map_eq_some_iff.1 h
  obtain ⟨-, rfl⟩ := Prod.mk.inj hw
  rfl

namespace Core

section Instructions

variable {c : Core} {input : InputSignals} {op : Opcode} {e : Effect} {a : Byte} {r : Register}

/-- Memory is written by stores, and where the stack pointer is by pushes. -/
theorem Executes.writes_memory (hop : c.Executes input op) (h : c.Performs input.datum op e)
    (hmem : .memory a ∈ e.writes.map Write.location) :
    c.Stores input a ∨ (a = c.registers.sp ∧ c.Pushes input) := by
  cases h with
  | @storeDirect address _ _ haddress =>
    obtain rfl : a = address := by simpa [Effect.silent, Write.location] using hmem
    exact Or.inl (Or.inl ⟨hop, haddress⟩)
  | @storeIndirect pointer _ _ hpointer =>
    obtain rfl : a = c.registers.get pointer := by
      simpa [Effect.silent, Write.location] using hmem
    exact Or.inl (Or.inr ⟨pointer, hop, hpointer, rfl⟩)
  | push | pushf | call | int =>
    obtain rfl : a = c.registers.sp := by simpa [Effect.silent, Write.location] using hmem
    exact Or.inr ⟨rfl, Or.inr ⟨_, hop, by simp [Opcode.Pushes]⟩⟩
  | _ => simp [Effect.silent, Write.location] at hmem

/-- A register is written by what names it first, and the first one by an input
instruction, too. -/
theorem Executes.writes_register (hop : c.Executes input op) (h : c.Performs input.datum op e)
    (hmem : .register r ∈ e.writes.map Write.location) : c.MayWrite input (.register r) := by
  cases h with
  | @binaryRegister _ dest _ _ _ _ hdest | @binaryNumber _ dest _ _ _ _ hdest
  | @unary _ dest _ _ _ hdest =>
    obtain rfl : r = dest := by simpa [Effect.silent, Write.location] using hmem
    exact Or.inl ⟨_, hop, Or.inl trivial, hdest⟩
  | @loadNumber dest _ _ hdest | @loadDirect dest _ _ hdest | @loadIndirect dest _ _ hdest =>
    obtain rfl : r = dest := by simpa [Effect.silent, Write.location] using hmem
    exact Or.inl ⟨_, hop, Or.inr (Or.inl (by simp [Opcode.Loads])), hdest⟩
  | @pop dest _ hdest =>
    obtain rfl : r = dest := by simpa [Effect.silent, Write.location] using hmem
    exact Or.inl ⟨_, hop, Or.inr (Or.inr rfl), hdest⟩
  | receive hchannel hdatum hskip =>
    have hr : r = .al := by simpa [Effect.silent, Write.location] using hmem
    exact Or.inr ⟨hr, _, _, ⟨hop, hchannel⟩, hdatum, hskip⟩
  | _ => simp [Effect.silent, Write.location] at hmem

theorem Executes.writes_sp (hop : c.Executes input op) (h : c.Performs input.datum op e)
    (hmem : .sp ∈ e.writes.map Write.location) : c.MayWrite input .sp := by
  cases h with
  | push | pushf | call | int => exact Or.inl (Or.inr ⟨_, hop, by simp [Opcode.Pushes]⟩)
  | pop | popf | ret | iret => exact Or.inr ⟨_, hop, by simp [Opcode.Pops]⟩
  | _ => simp [Effect.silent, Write.location] at hmem

/-- Calculations and comparisons write the flags, and keep one of them. -/
theorem Executes.writes_interrupt (hop : c.Executes input op) (h : c.Performs input.datum op e)
    (hkept : ¬ Part.interrupt.Kept c (c.applyAll e.writes)) : c.MayWrite input .interrupt := by
  cases h with
  | binaryRegister _ _ hcalc | binaryNumber _ _ hcalc | unary _ hcalc =>
    refine absurd ?_ hkept
    exact (congrArg Flags.interrupt (Registers.sr_set _ _ _)).trans
      (AluOp.interrupt_of_operate? hcalc)
  | compareRegister _ _ hcalc | compareNumber _ _ hcalc | compareDirect _ _ hcalc =>
    exact absurd (AluOp.interrupt_of_operate? hcalc) hkept
  | sti | cli | popf => exact ⟨_, hop, by simp⟩
  | _ =>
    -- the flags are not written
    have hmem := Part.location_mem_of_not_kept hkept
    simp [Effect.silent, Part.location, Write.location] at hmem

theorem Executes.writes_arithmetic (hop : c.Executes input op) (h : c.Performs input.datum op e)
    (hkept : ¬ Part.arithmetic.Kept c (c.applyAll e.writes)) : c.MayWrite input .arithmetic := by
  cases h with
  | binaryRegister | binaryNumber | unary => exact ⟨_, hop, Or.inl trivial⟩
  | compareRegister | compareNumber | compareDirect =>
    exact ⟨_, hop, Or.inr (Or.inl (by simp [Opcode.Compares]))⟩
  | popf => exact ⟨_, hop, Or.inr (Or.inr rfl)⟩
  | sti | cli => exact absurd ⟨rfl, rfl, rfl⟩ hkept
  | _ =>
    -- the flags are not written
    have hmem := Part.location_mem_of_not_kept hkept
    simp [Effect.silent, Part.location, Write.location] at hmem

/-! ## §3. Steps. -/

variable {s : Step}

/-- A step that pushes takes the stack pointer down by one. -/
theorem Pushes.sp_step (hpushes : c.Pushes input) (h : c.step input = .ok s) :
    c.registers.sp ≠ 0 ∧ s.core.registers.sp = c.registers.sp - 1 := by
  rcases hpushes with htraps | ⟨op, hop, hpushes⟩
  · obtain ⟨access, haccess, hleads⟩ := access_of_step h
    rw [access_of_traps htraps] at haccess
    obtain rfl : .push c.registers.ip = access := Except.ok.inj haccess
    exact ⟨hleads.1, hleads.2.2⟩
  · obtain ⟨e, hperforms, rfl⟩ := hop.performs h
    cases hperforms with
    | push _ hsp | pushf hsp | call _ _ hsp | int _ _ hsp => exact ⟨hsp, rfl⟩
    | _ => exact absurd hpushes (by simp [Opcode.Pushes])

/-- A step that pops takes it up by one. -/
theorem Pops.sp_step (hpops : c.Pops input) (h : c.step input = .ok s) :
    c.registers.sp < stackBase ∧ s.core.registers.sp = c.registers.sp + 1 := by
  obtain ⟨op, hop, hpops⟩ := hpops
  obtain ⟨access, haccess, hleads⟩ := hop.leads h
  rw [accessOf_of_pops c hpops] at haccess
  obtain rfl : .pop = access := Except.ok.inj haccess
  exact ⟨hleads.1, hleads.2.2⟩

/-- **One step.**  What it changes is its to write, with the stack pointer up to
the base. -/
theorem written_of_step (hle : c.registers.sp ≤ stackBase) (h : c.step input = .ok s) {part : Part}
    (hkept : ¬ part.Kept c s.core) : c.MayWrite input part := by
  obtain ⟨e, hsteps, rfl⟩ := steps_of_step h
  have hmem : part.location ∈ e.writes.map Write.location := Part.location_mem_of_not_kept hkept
  have hdisplay : c.registers.sp < displayStart := UInt8.lt_of_le_of_lt hle (by decide)
  cases hsteps with
  | trap htraps _ =>
    cases part with
    | memory a =>
      obtain rfl : a = c.registers.sp := by
        simpa [Effect.silent, Part.location, Write.location] using hmem
      exact Or.inr ⟨hdisplay, rfl, Or.inl htraps⟩
    | sp => exact Or.inl (Or.inl htraps)
    | _ => simp [Effect.silent, Part.location, Write.location] at hmem
  | instruction hop hperforms =>
    cases part with
    | memory a =>
      refine (hop.writes_memory hperforms hmem).imp_right ?_
      rintro ⟨rfl, hpushes⟩
      exact ⟨hdisplay, rfl, hpushes⟩
    | register r => exact hop.writes_register hperforms hmem
    | sp => exact hop.writes_sp hperforms hmem
    | interrupt => exact hop.writes_interrupt hperforms hkept
    | arithmetic => exact hop.writes_arithmetic hperforms hkept

end Instructions

/-- **What a step keeps to**: what it changes it may write, a push takes the stack
pointer down by one, and a pop takes it up by one. -/
structure Framed (c : Core) (input : InputSignals) (c' : Core) : Prop where
  written : ∀ part : Part, ¬ part.Kept c c' → c.MayWrite input part
  push : c.Pushes input → c'.registers.sp.toNat + 1 = c.registers.sp.toNat
  pop : c.Pops input → c'.registers.sp.toNat = c.registers.sp.toNat + 1

theorem framed_of_step {c : Core} {input : InputSignals} {s : Step}
    (hle : c.registers.sp ≤ stackBase) (h : c.step input = .ok s) : c.Framed input s.core where
  written _ hkept := written_of_step hle h hkept
  push hpushes := by
    obtain ⟨hsp, hnext⟩ := hpushes.sp_step h
    have hlt : (c.registers.sp - 1).toNat < c.registers.sp.toNat :=
      UInt8.lt_iff_toNat_lt.1 (Byte.sub_one_lt hsp)
    have hsize := c.registers.sp.toNat_lt
    rw [hnext, ← Byte.toNat_add_one (by omega), UInt8.sub_add_cancel]
  pop hpops := by
    obtain ⟨hlt, hnext⟩ := hpops.sp_step h
    have hbase : stackBase.toNat = 191 := rfl
    have hbelow : c.registers.sp.toNat < stackBase.toNat := UInt8.lt_iff_toNat_lt.1 hlt
    rw [hnext, Byte.toNat_add_one (by omega)]

end Core

/-! ## §4. Runs. -/

theorem Part.Kept.refl (part : Part) (c : Core) : part.Kept c c := by
  cases part with
  | memory | register | sp | interrupt => rfl
  | arithmetic => exact ⟨rfl, rfl, rfl⟩

theorem Part.Kept.trans {part : Part} {c₀ c₁ c₂ : Core} (h₁ : part.Kept c₀ c₁)
    (h₂ : part.Kept c₁ c₂) : part.Kept c₀ c₂ := by
  cases part with
  | memory | register | sp | interrupt => exact Eq.trans h₂ h₁
  | arithmetic =>
    obtain ⟨hzero, hoverflow, hsign⟩ := h₂
    exact ⟨hzero.trans h₁.1, hoverflow.trans h₁.2.1, hsign.trans h₁.2.2⟩

namespace Core

variable {c₀ c : Core}

/-- **Runs.**  What a run changes, some step of it may write. -/
theorem exists_writer_of_run (hle : c₀.registers.sp ≤ stackBase)
    (hrun : Relation.ReflTransGen StepsTo c₀ c) {part : Part} (hchanged : ¬ part.Kept c₀ c) :
    ∃ c₁ input s, Relation.ReflTransGen StepsTo c₀ c₁ ∧ c₁.step input = .ok s
      ∧ Relation.ReflTransGen StepsTo s.core c ∧ c₁.MayWrite input part := by
  induction hrun with
  | refl => exact absurd (Part.Kept.refl part c₀) hchanged
  | @tail c₁ c₂ hrun hstep ih =>
    by_cases hkept : part.Kept c₀ c₁
    · -- it is the last step that changes the part
      obtain ⟨input, s, hs, rfl⟩ := hstep
      have hlast : ¬ part.Kept c₁ s.core := fun hlast => hchanged (hkept.trans hlast)
      exact ⟨c₁, input, s, hrun, hs, .refl,
        written_of_step (sp_le_of_run hle hrun) hs hlast⟩
    · obtain ⟨c', input, s, hrun', hs, hrest, hmay⟩ := ih hkept
      exact ⟨c', input, s, hrun', hs, hrest.tail hstep, hmay⟩

/-- **Writers.**  In a run from a core with the stack pointer up to the base, every
step keeps to the table; and if the run as a whole changes a part, there is a step
of it that may write that part. -/
theorem run_written_by_table (hle : c₀.registers.sp ≤ stackBase) :
    (∀ c, Relation.ReflTransGen StepsTo c₀ c →
      ∀ (input : InputSignals) s, c.step input = .ok s → c.Framed input s.core)
    ∧ ∀ c, Relation.ReflTransGen StepsTo c₀ c → ∀ part : Part, ¬ part.Kept c₀ c →
      ∃ c₁ input s, Relation.ReflTransGen StepsTo c₀ c₁ ∧ c₁.step input = .ok s
        ∧ Relation.ReflTransGen StepsTo s.core c ∧ c₁.MayWrite input part :=
  ⟨fun _ hrun _ _ hs => framed_of_step (sp_le_of_run hle hrun) hs,
    fun _ hrun _ hchanged => exists_writer_of_run hle hrun hchanged⟩

end Core

/-- A call, and in the routine a store to the first byte of the display. -/
def greeting : Memory := .ofBytes [0xCA, 0x02, 0xD2, 0xC0, 0x00]

/-- The call pushes below the display, and the store writes there. -/
theorem run_written_by_table_greeting : ∃ c s, (Core.initial greeting).registers.sp ≤ stackBase
    ∧ Relation.ReflTransGen Core.StepsTo (.initial greeting) c ∧ c.step .none = .ok s
    ∧ (Core.initial greeting).Framed .none c ∧ c.Framed .none s.core
    ∧ c.registers.sp = 0xBE ∧ s.core.memory.get 0xC0 ≠ c.memory.get 0xC0
    ∧ c.Stores .none 0xC0 := by
  have hsteps : (((Core.initial greeting).step .none).toOption.bind fun s₁ =>
      (s₁.core.step .none).toOption.map fun s₂ =>
        (s₁.core.registers.sp, s₁.core.memory.get 0xC0, s₂.core.memory.get 0xC0))
      = some (0xBE, 0x20, 0x00) := by decide +kernel
  obtain ⟨s₁, h₁, hstep⟩ := Option.bind_eq_some_iff.1 hsteps
  rw [toOption_eq_some_iff] at h₁
  obtain ⟨s₂, h₂, hvalues⟩ := exists_of_toOption_map hstep
  simp only [Prod.mk.injEq] at hvalues
  obtain ⟨hsp, hbefore, hafter⟩ := hvalues
  have hle : (Core.initial greeting).registers.sp ≤ stackBase := UInt8.le_refl _
  have hrun : Relation.ReflTransGen Core.StepsTo (.initial greeting) s₁.core :=
    .single ⟨.none, s₁, h₁, rfl⟩
  have hframed := (Core.run_written_by_table hle).1
  have hne : s₂.core.memory.get 0xC0 ≠ s₁.core.memory.get 0xC0 := by
    rw [hbefore, hafter]
    decide
  have hlast := hframed s₁.core hrun .none s₂ h₂
  -- what lies in the display is not pushed
  have hstores : s₁.core.Stores .none 0xC0 := by
    rcases hlast.written (.memory 0xC0) hne with hstores | ⟨hlow, -⟩
    · exact hstores
    · exact absurd hlow (by decide)
  exact ⟨s₁.core, s₂, hle, hrun, h₂, hframed _ .refl .none s₁ h₁, hlast, hsp, hne, hstores⟩

end EightBit
