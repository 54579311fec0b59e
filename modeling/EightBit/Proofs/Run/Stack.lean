/-
  EightBit.Proofs.Run.Stack
  ─────────────────────────
  **WHAT IS PUSHED COMES BACK.**

  The stack is a part of the memory that also has the code, and a store may go
  anywhere.  Still it is a stack: every step of every run does to it what its
  opcode says.  And a byte that was pushed stays where it is as long as the
  stack pointer stays below it and nothing is stored over it, because whatever
  is pushed in the meantime goes below it too.  So the pop that comes back to
  it finds it, however much was executed in between.

  Main results:
    • `step_refines_stack` — steps as steps of a stack, and when they fail;
    • `Saved.run`          — what a run preserves of a pushed byte;
    • `pop_recovers_push`  — the byte that is popped is the one that was pushed.
-/
import EightBit.Proofs.Machine.Stack
import Mathlib.Logic.Relation

namespace EightBit

/-! ## §1. Every state of a run. -/

namespace Core

/-- A successful step leads there, under some signals. -/
def StepsTo (c c' : Core) : Prop := ∃ input s, c.step input = .ok s ∧ s.core = c'

/-- A run does not take the stack pointer above the base. -/
theorem sp_le_of_run {c c' : Core} (hle : c.registers.sp ≤ stackBase)
    (hrun : Relation.ReflTransGen StepsTo c c') : c'.registers.sp ≤ stackBase := by
  induction hrun with
  | refl => exact hle
  | tail _ hstep ih =>
    obtain ⟨input, s, hs, rfl⟩ := hstep
    exact sp_le_of_step ih hs

end Core

/-- **The stack.**  With the stack pointer up to the base, every successful step
does to the stack what its opcode says, and a step fails for the stack when this
is full or empty.  From the start no run takes the stack pointer above the
base. -/
theorem step_refines_stack :
    (∀ (c : Core) (input : InputSignals), c.registers.sp ≤ stackBase →
      c.StackLimits input ∧ ∀ s, c.step input = .ok s → c.StackStep input s.core)
    ∧ ∀ m : Memory, (Core.initial m).stack = []
      ∧ ∀ c, Relation.ReflTransGen Core.StepsTo (.initial m) c → c.registers.sp ≤ stackBase := by
  refine ⟨fun c input hle => ⟨c.stackLimits input, fun s hs => ?_⟩, fun m => ⟨?_, fun c hrun => ?_⟩⟩
  · exact Core.stackStep_of_step hle hs
  · exact Core.stack_eq_nil_iff.2 (UInt8.le_refl _)
  · exact Core.sp_le_of_run (UInt8.le_refl _) hrun

/-- A call, and then a store over the return address. -/
def lostReturn : Memory := .ofBytes [0xCA, 0x02, 0xD2, 0xBF, 0x00]

/-- The store replaces the only element of the stack, which the call pushed. -/
theorem step_refines_stack_lostReturn : ∃ c s, c.registers.sp ≤ stackBase
    ∧ Relation.ReflTransGen Core.StepsTo (.initial lostReturn) c ∧ c.step .none = .ok s
    ∧ c.stack = [2] ∧ c.StackLimits .none ∧ c.StackStep .none s.core
    ∧ ∃ r : Register, s.core.stack = [c.registers.get r] := by
  have hsteps : (((Core.initial lostReturn).step .none).toOption.bind fun s₁ =>
      (s₁.core.step .none).toOption.map fun s₂ =>
        (s₁.core.stack, s₁.core.registers.sp, decide (s₁.core.Executes .none .storeDirect),
          s₁.core.fetch 1))
      = some ([2], 0xBE, true, .ok 0xBF) := by decide +kernel
  obtain ⟨s₁, h₁, hstep⟩ := Option.bind_eq_some_iff.1 hsteps
  rw [toOption_eq_some_iff] at h₁
  obtain ⟨s₂, h₂, hvalues⟩ := exists_of_toOption_map hstep
  simp only [Prod.mk.injEq] at hvalues
  obtain ⟨hstack, hsp, hexec, hfetch⟩ := hvalues
  have hrun : Relation.ReflTransGen Core.StepsTo (.initial lostReturn) s₁.core :=
    .single ⟨.none, s₁, h₁, rfl⟩
  have hle := (step_refines_stack.2 lostReturn).2 s₁.core hrun
  obtain ⟨hlimits, hrefines⟩ := step_refines_stack.1 s₁.core .none hle
  obtain ⟨a, r, ha, -, hafter⟩ := (hrefines s₂ h₂).storeDirect (of_decide_eq_true hexec)
  obtain rfl : 0xBF = a := Except.ok.inj (hfetch.symm.trans ha)
  refine ⟨s₁.core, s₂, hle, hrun, h₂, hstack, hlimits, hrefines s₂ h₂, r, ?_⟩
  rw [hafter, Core.stackWith, hsp, hstack]
  rfl

/-! ## §2. A pushed byte. -/

namespace Core

variable {c₀ c c' : Core} {input₀ input : InputSignals} {a v : Byte} {s₀ s : Step}

/-- The byte is at the address, and the stack pointer is below it. -/
structure Saved (c : Core) (a v : Byte) : Prop where
  sp_lt : c.registers.sp < a
  get_eq : c.memory.get a = v

/-- A successful step that stores nothing at the address, and leaves the stack
pointer below it. -/
def Spares (a : Byte) (c c' : Core) : Prop :=
  ∃ input s, c.step input = .ok s ∧ (∀ b, c.access input ≠ .ok (.store a b))
    ∧ s.core = c' ∧ c'.registers.sp < a

/-- The byte that is pushed is saved where the stack pointer was. -/
theorem saved_of_push (h : c.step input = .ok s) (hpush : c.access input = .ok (.push v)) :
    s.core.Saved c.registers.sp v := by
  obtain ⟨access, haccess, hleads⟩ := access_of_step h
  obtain rfl : .push v = access := Except.ok.inj (hpush.symm.trans haccess)
  obtain ⟨hsp, hmem, hnext⟩ := hleads
  constructor
  · rw [hnext]
    exact Byte.sub_one_lt hsp
  · rw [hmem, Memory.get_set, if_pos rfl]

/-- **One step.**  A saved byte stays saved in a step that spares it. -/
theorem Saved.step (h : c.Saved a v) (hstep : c.Spares a c') : c'.Saved a v := by
  obtain ⟨input, s, hs, hstore, rfl, hlt⟩ := hstep
  refine ⟨hlt, ?_⟩
  obtain ⟨access, haccess, hleads⟩ := access_of_step hs
  cases access with
  | none =>
    rw [hleads.1]
    exact h.get_eq
  | push b =>
    -- what is pushed goes to the stack pointer, below the address
    have hne : a ≠ c.registers.sp := (UInt8.ne_of_lt h.sp_lt).symm
    rw [hleads.2.1, Memory.get_set, if_neg hne]
    exact h.get_eq
  | pop =>
    rw [hleads.2.1]
    exact h.get_eq
  | store address b =>
    have hne : a ≠ address := by
      rintro rfl
      exact hstore b haccess
    rw [hleads.1, Memory.get_set, if_neg hne]
    exact h.get_eq

/-- **Runs.**  A saved byte stays saved as long as every step spares it. -/
theorem Saved.run (h : c.Saved a v) (hrun : Relation.ReflTransGen (Spares a) c c') :
    c'.Saved a v := by
  induction hrun with
  | refl => exact h
  | tail _ hstep ih => exact ih.step hstep

end Core

/-! ## §3. The pop that comes back to it. -/

/-- The opcode takes a byte off the stack. -/
def Opcode.Pops (op : Opcode) : Prop := op ∈ [.pop, .popf, .ret, .iret]

theorem Core.accessOf_of_pops {op : Opcode} (c : Core) (h : op.Pops) : c.accessOf op = .ok .pop := by
  cases op with
  | pop | popf | ret | iret => rfl
  | _ => exact absurd h (by simp [Opcode.Pops])

/-- **What comes back** of the byte `v`, pushed by the step from `c₀` under the
signals `input₀`, when the step from `c` under the signals `input` to `c'` takes
it off the stack. -/
structure Recovers (c₀ : Core) (input₀ : InputSignals) (v : Byte) (c : Core)
    (input : InputSignals) (c' : Core) : Prop where
  sp_eq : c'.registers.sp = c₀.registers.sp
  pop : c.Executes input .pop →
    ∃ r : Register, c.fetch 1 = .ok r.code ∧ c'.registers.get r = v
  popf : c.Executes input .popf → c'.registers.sr = .ofByte v
  leave : ∀ op ∈ [Opcode.ret, .iret], c.Executes input op → c'.registers.ip = v
  /-- A call returns behind itself. -/
  resumes_call : ∀ op ∈ [Opcode.ret, .iret], c.Executes input op →
    ∀ enter ∈ [Opcode.call, .int], c₀.Executes input₀ enter →
      c'.registers.ip.toNat = c₀.registers.ip.toNat + 2
  /-- An interrupt returns to the instruction in whose place it was taken. -/
  resumes_trap : ∀ op ∈ [Opcode.ret, .iret], c.Executes input op →
    c₀.traps input₀ = true → c'.registers.ip = c₀.registers.ip
  /-- All flags come back. -/
  flags : c.Executes input .popf → c₀.Executes input₀ .pushf →
    c'.registers.sr = c₀.registers.sr

section Recovery

variable {c₀ c c' : Core} {input₀ input : InputSignals} {v : Byte} {op : Opcode} {s₀ s : Step}

/-- What is taken off where a byte is saved is that byte. -/
theorem Core.Saved.pop (h : c.Saved (c.registers.sp + 1) v) (hexec : c.Executes input op)
    (hpops : op.Pops) (hs : c.step input = .ok s) : c.StackStep input s.core
      ∧ s.core.registers.sp = c.registers.sp + 1 ∧ c.stack = v :: s.core.stack := by
  obtain ⟨access, haccess, hleads⟩ := hexec.leads hs
  rw [Core.accessOf_of_pops c hpops] at haccess
  obtain rfl : .pop = access := Except.ok.inj haccess
  refine ⟨Core.stackStep_of_step (UInt8.le_of_lt hleads.1) hs, hleads.2.2, ?_⟩
  rw [hleads.stack_pop, h.get_eq]

/-- The return address of a call is behind it. -/
theorem Core.toNat_of_enter (hpush : c.access input = .ok (.push v))
    (hop : op ∈ [Opcode.call, .int]) (hexec : c.Executes input op) :
    v.toNat = c.registers.ip.toNat + 2 := by
  have haccess : c.accessOf op = (c.successor 2).map .push := by
    cases op with
    | call | int => rfl
    | _ => exact absurd hop (by simp)
  rw [hexec.access_eq, haccess, map_eq_ok_iff] at hpush
  obtain ⟨back, hback, hv⟩ := hpush
  obtain rfl : back = v := Access.push.inj hv
  exact Core.successor_eq_ok_iff.1 hback

/-- **Recovery.**  A step pushes a byte, and a run follows in which every step
leaves the stack pointer below where the byte went, and stores nothing there.
Whatever else the run does, and whatever signals it gets, a pop that finds the
stack pointer just below takes off that byte. -/
theorem pop_recovers_push (hs₀ : c₀.step input₀ = .ok s₀)
    (hpush : c₀.access input₀ = .ok (.push v))
    (hrun : Relation.ReflTransGen (Core.Spares c₀.registers.sp) s₀.core c)
    (hsp : c.registers.sp = c₀.registers.sp - 1) (hop : ∃ op, c.Executes input op ∧ op.Pops)
    (hs : c.step input = .ok s) : Recovers c₀ input₀ v c input s.core := by
  obtain ⟨op, hexec, hpops⟩ := hop
  have hself : c.registers.sp + 1 = c₀.registers.sp := by
    rw [hsp]
    exact UInt8.sub_add_cancel _ _
  have hsaved : c.Saved (c.registers.sp + 1) v := by
    rw [hself]
    exact (Core.saved_of_push hs₀ hpush).run hrun
  obtain ⟨hstep, hnext, htop⟩ := hsaved.pop hexec hpops hs
  -- each opcode puts the top of the stack where it belongs
  have hleave : ∀ op ∈ [Opcode.ret, .iret], c.Executes input op → s.core.registers.ip = v := by
    intro op hop hexec
    have hstack := hstep.leave op hop hexec
    rw [htop] at hstack
    exact (List.cons.inj hstack).1.symm
  have hpopf : c.Executes input .popf → s.core.registers.sr = .ofByte v := by
    intro hexec
    obtain ⟨b, hstack, hflags⟩ := hstep.popf hexec
    rw [htop] at hstack
    rw [hflags, (List.cons.inj hstack).1]
  exact
    { sp_eq := by rw [hnext, hself]
      pop := by
        intro hexec
        obtain ⟨r, hr, hstack⟩ := hstep.pop hexec
        rw [htop] at hstack
        exact ⟨r, hr, (List.cons.inj hstack).1.symm⟩
      popf := hpopf
      leave := hleave
      resumes_call := by
        intro op hop hexec enter henter hexec₀
        rw [hleave op hop hexec]
        exact Core.toNat_of_enter hpush henter hexec₀
      resumes_trap := by
        intro op hop hexec htraps
        rw [Core.access_of_traps htraps] at hpush
        rw [hleave op hop hexec]
        exact (Access.push.inj (Except.ok.inj hpush)).symm
      flags := by
        intro hexec hexec₀
        rw [hexec₀.access_eq] at hpush
        obtain rfl : c₀.registers.sr.toByte = v := Access.push.inj (Except.ok.inj hpush)
        rw [hpopf hexec, Flags.ofByte_toByte] }

end Recovery

/-- A call to a routine that pushes the flags and takes them off again. -/
def nested : Memory := .ofBytes [0xCA, 0x04, 0x00, 0x00, 0xEA, 0xEB, 0xCB]

/-- The routine returns behind the call. -/
theorem pop_recovers_push_nested : ∃ s₀ c s, (Core.initial nested).step .none = .ok s₀
    ∧ Relation.ReflTransGen (Core.Spares stackBase) s₀.core c ∧ c ≠ s₀.core
    ∧ c.Executes .none .ret ∧ c.step .none = .ok s
    ∧ Recovers (.initial nested) .none 2 c .none s.core
    ∧ s.core.registers.sp = stackBase ∧ s.core.registers.ip = 2 := by
  have hsteps : (((Core.initial nested).step .none).toOption.bind fun s₀ =>
      (s₀.core.step .none).toOption.bind fun s₁ =>
      (s₁.core.step .none).toOption.bind fun s₂ =>
      (s₂.core.step .none).toOption.map fun s₃ =>
        ([(Core.initial nested).access .none, s₀.core.access .none, s₁.core.access .none],
          [s₁.core.registers.sp, s₂.core.registers.sp], [s₀.core.registers.ip,
          s₂.core.registers.ip], decide (s₂.core.Executes .none .ret)))
      = some ([.ok (.push 2), .ok (.push 0), .ok .pop], [0xBD, 0xBE], [4, 6], true) := by
    decide +kernel
  obtain ⟨s₀, h₀, hsteps⟩ := Option.bind_eq_some_iff.1 hsteps
  obtain ⟨s₁, h₁, hsteps⟩ := Option.bind_eq_some_iff.1 hsteps
  obtain ⟨s₂, h₂, hsteps⟩ := Option.bind_eq_some_iff.1 hsteps
  obtain ⟨s₃, h₃, hvalues⟩ := exists_of_toOption_map hsteps
  rw [toOption_eq_some_iff] at h₀ h₁ h₂
  simp only [Prod.mk.injEq, List.cons.injEq, and_true] at hvalues
  obtain ⟨⟨hcall, hpushf, hpopf⟩, ⟨hsp₁, hsp₂⟩, ⟨hip₀, hip₂⟩, hexec⟩ := hvalues
  have hexec : s₂.core.Executes .none .ret := of_decide_eq_true hexec
  have hne : s₂.core ≠ s₀.core := by
    intro heq
    rw [heq, hip₀] at hip₂
    exact absurd hip₂ (by decide)
  have hspares₁ : Core.Spares stackBase s₀.core s₁.core :=
    ⟨.none, s₁, h₁, by simp [hpushf], rfl, by rw [hsp₁]; decide⟩
  have hspares₂ : Core.Spares stackBase s₁.core s₂.core :=
    ⟨.none, s₂, h₂, by simp [hpopf], rfl, by rw [hsp₂]; decide⟩
  have hrun := (Relation.ReflTransGen.single hspares₁).tail hspares₂
  have hrecovers := pop_recovers_push h₀ hcall hrun (by rw [hsp₂]; rfl)
    ⟨.ret, hexec, by simp [Opcode.Pops]⟩ h₃
  exact ⟨s₀, s₂.core, s₃, h₀, hrun, hne, hexec, h₃, hrecovers, hrecovers.sp_eq,
    hrecovers.leave .ret (by simp) hexec⟩

end EightBit
