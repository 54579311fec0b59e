/-
  EightBit.Proofs.Machine.Execution
  ─────────────────────────────────
  **EXECUTING WHAT CAN BE DECODED.**

  Where the instruction pointer stands on an opcode with operand bytes of its
  kinds, inside memory and with room for a successor, a step can only fail for
  what it computes with: the stack, a divisor, a channel or a datum.  If it
  does not fail, it continues behind the instruction, unless the opcode says
  otherwise.

  Main results:
    • `outcome_exec`     — failures and the next address, for every opcode;
    • `Continues.leads`  — where an opcode leads that leaves the stack of return
                           addresses alone;
    • `outcome_step`     — a step that takes no interrupt;
    • `step_jump`        — a jump with the distance of its target.
-/
import EightBit.Machine.Step
import EightBit.Isa.Form
import EightBit.Proofs.Sequence

namespace EightBit

/-! ## §1. Causes and opcodes. -/

/-- The cause lies in what an instruction computes with: the stack, a divisor, a
channel or a datum.  The other causes lie in the bytes of the program. -/
def Fault.Cause.OfData : Fault.Cause → Prop
  | .stackOverflow | .stackUnderflow | .divideByZero | .invalidChannel _ | .invalidInput _ => True
  | .invalidRegister _ | .beyondMemory | .invalidOpcode _ => False

/-- The opcode neither pushes a return address nor pops one. -/
def Opcode.IsLocal (op : Opcode) : Prop := op ∉ [.call, .int, .ret, .iret]

/-! ## §2. What stands at the instruction pointer. -/

/-- The byte can stand for an operand of the kind: the code of a register where
a register is wanted, and anything elsewhere. -/
def OperandKind.Fits (kind : OperandKind) (b : Byte) : Prop :=
  kind = .register ∨ kind = .registerAddress → ∃ r : Register, b = r.code

@[simp] theorem Opcode.operands_binaryRegister (op : BinaryOp) :
    (Opcode.binaryRegister op).operands = [.register, .register] := by
  cases op <;> rfl

@[simp] theorem Opcode.operands_binaryNumber (op : BinaryOp) :
    (Opcode.binaryNumber op).operands = [.register, .number] := by
  cases op <;> rfl

@[simp] theorem Opcode.operands_unary (op : UnaryOp) : (Opcode.unary op).operands = [.register] := by
  cases op <;> rfl

@[simp] theorem Opcode.operands_jump (condition : Condition) :
    (Opcode.jump condition).operands = [.label] := by
  cases condition <;> rfl

@[simp] theorem Opcode.width_binaryRegister (op : BinaryOp) :
    (Opcode.binaryRegister op).width = 3 := by simp [width]

@[simp] theorem Opcode.width_binaryNumber (op : BinaryOp) :
    (Opcode.binaryNumber op).width = 3 := by simp [width]

@[simp] theorem Opcode.width_unary (op : UnaryOp) : (Opcode.unary op).width = 2 := by simp [width]

@[simp] theorem Opcode.width_jump (condition : Condition) :
    (Opcode.jump condition).width = 2 := by simp [width]

theorem fits_one {op : Opcode} {k : OperandKind} {args : List Byte} (hops : op.operands = [k])
    (h : List.Forall₂ OperandKind.Fits op.operands args) : ∃ b, args = [b] ∧ k.Fits b := by
  rw [hops] at h
  cases h with
  | cons h₁ h =>
    cases h
    exact ⟨_, rfl, h₁⟩

theorem fits_two {op : Opcode} {k₁ k₂ : OperandKind} {args : List Byte}
    (hops : op.operands = [k₁, k₂]) (h : List.Forall₂ OperandKind.Fits op.operands args) :
    ∃ b₁ b₂, args = [b₁, b₂] ∧ k₁.Fits b₁ ∧ k₂.Fits b₂ := by
  rw [hops] at h
  cases h with
  | cons h₁ h =>
    cases h with
    | cons h₂ h =>
      cases h
      exact ⟨_, _, rfl, h₁, h₂⟩

namespace Core

/-- The opcode and its operand bytes stand at the instruction pointer. -/
structure Holds (c : Core) (op : Opcode) (args : List Byte) : Prop where
  opcode : c.memory.get c.registers.ip = op.byte
  fetch : ∀ k b, args[k]? = some b → c.fetch (k + 1) = .ok b
  fits : List.Forall₂ OperandKind.Fits op.operands args

variable {c : Core}

theorem register_code (r : Register) : register r.code = .ok r := by
  rw [register, Register.ofCode?_code]

theorem content_code (c : Core) (r : Register) : c.content r.code = .ok (c.registers.get r) := by
  rw [content, register_code]
  rfl

theorem successor_eq {width : Nat} (h : c.registers.ip.toNat + width < 256) :
    c.successor width = .ok (UInt8.ofNat (c.registers.ip.toNat + width)) := by
  rw [successor, Byte.ofNat?, if_pos h]

theorem fetch_eq {offset : Nat} (h : c.registers.ip.toNat + offset < 256) :
    c.fetch offset = .ok (c.memory.get (UInt8.ofNat (c.registers.ip.toNat + offset))) := by
  rw [fetch, Byte.ofNat?, if_pos h]

/-- The instruction pointer after the effect. -/
def ipAfter (c : Core) (e : Effect) : Byte := (c.applyAll e.writes).registers.ip

/-- The effect leads behind an instruction of `width` bytes. -/
def Advances (c : Core) (width : Nat) (e : Effect) : Prop := c.successor width = .ok (c.ipAfter e)

/-- Writes that end with the instruction pointer lead to what is written. -/
theorem ipAfter_append (c : Core) (ws : List Write) (next : Byte) (signals : OutputSignals) :
    c.ipAfter ⟨ws ++ [.ip next], signals⟩ = next := by
  unfold ipAfter applyAll
  rw [List.foldl_append]
  rfl

theorem advances_append {width : Nat} {next : Byte} (h : c.successor width = .ok next)
    (ws : List Write) (signals : OutputSignals) :
    c.Advances width ⟨ws ++ [.ip next], signals⟩ := by
  unfold Advances
  rw [h, ipAfter_append]

/-! ## §3. The parts of instructions. -/

section Parts

variable {width : Nat} {next : Byte}

theorem outcome_operate (c : Core) (op : AluOp) (operand dest : Byte) :
    Outcome (fun _ => True) Fault.Cause.OfData (c.operate op operand dest) := by
  unfold operate
  split <;> exact trivial

theorem outcome_push (c : Core) (b : Byte) :
    Outcome (fun _ => True) Fault.Cause.OfData (c.push b) := by
  unfold push
  split <;> exact trivial

theorem outcome_pop (c : Core) : Outcome (fun _ => True) Fault.Cause.OfData c.pop := by
  unfold pop
  split <;> exact trivial

theorem outcome_channel {b : Byte} (h : c.fetch 1 = .ok b) :
    Outcome (fun _ => True) Fault.Cause.OfData c.channel := by
  unfold channel
  rw [h]
  show Outcome _ _ (if _ then _ else _)
  split <;> exact trivial

theorem outcome_calculate (h : c.successor width = .ok next) (op : AluOp) (operand : Byte)
    (dest : Register) : Outcome (c.Advances width) Fault.Cause.OfData
      (c.calculate op operand dest.code width) := by
  unfold calculate
  rw [register_code, ok_bind]
  refine (outcome_operate c op operand _).bind fun result _ => ?_
  obtain ⟨b, flags⟩ := result
  show Outcome _ _ (c.successor width >>= _)
  rw [h, ok_bind]
  exact advances_append h [.sr flags, .register dest b] _

theorem outcome_compare (h : c.successor 3 = .ok next) (left : Register) (right : Byte) :
    Outcome (c.Advances 3) Fault.Cause.OfData (c.compare left.code right) := by
  unfold compare
  rw [content_code, ok_bind]
  refine (outcome_operate c _ right _).bind fun result _ => ?_
  obtain ⟨b, flags⟩ := result
  show Outcome _ _ (c.successor 3 >>= _)
  rw [h, ok_bind]
  exact advances_append h [.sr flags] _

theorem outcome_load (h : c.successor 3 = .ok next) (dest : Register) (b : Byte) :
    Outcome (c.Advances 3) Fault.Cause.OfData (c.load dest.code b) := by
  unfold load
  rw [register_code, ok_bind, h, ok_bind]
  exact advances_append h [_] _

theorem outcome_store (h : c.successor 3 = .ok next) (address : Byte) (source : Register) :
    Outcome (c.Advances 3) Fault.Cause.OfData (c.store address source.code) := by
  unfold store
  rw [content_code, ok_bind, h, ok_bind]
  exact advances_append h [_] _

/-- An input instruction waits where it is, or continues. -/
theorem outcome_receive (h : c.successor 2 = .ok next) (channel : Byte)
    (datum : Option InputDatum) :
    Outcome (fun e => (e.writes = [] ∧ e.signals.waiting.isSome) ∨ c.Advances 2 e)
      Fault.Cause.OfData (c.receive channel datum) := by
  unfold receive
  split
  · exact Or.inl ⟨rfl, rfl⟩
  · split
    · rw [h]
      exact Or.inr (advances_append h [] _)
    · split
      · exact trivial
      · rw [h]
        exact Or.inr (advances_append h [_] _)

end Parts

/-! ## §4. Every opcode. -/

/-- Where the effect of an instruction with this opcode leads: behind the
instruction, unless it halts, waits, or transfers control. -/
def Continues (c : Core) (op : Opcode) (e : Effect) : Prop :=
  match op with
  | .halt => e.writes = []
  | .jump condition =>
    (if condition.holds c.registers.sr then c.fetch 1 >>= c.jumpTarget else c.successor 2)
      = .ok (c.ipAfter e)
  | .call | .ret | .int | .iret => True
  | .input => (e.writes = [] ∧ e.signals.waiting.isSome) ∨ c.Advances 2 e
  | op => c.Advances op.width e

/-- A local opcode leads to itself, to its successor, or to the target of its
jump. -/
theorem Continues.leads {op : Opcode} {e : Effect} (h : c.Continues op e) (hlocal : op.IsLocal) :
    c.ipAfter e = c.registers.ip ∨ (op ≠ .halt ∧ c.Advances op.width e)
      ∨ ∃ condition, op = .jump condition ∧ c.fetch 1 >>= c.jumpTarget = .ok (c.ipAfter e) := by
  have hstays : e.writes = [] → c.ipAfter e = c.registers.ip := by
    intro hwrites
    unfold ipAfter
    rw [hwrites]
    rfl
  cases op with
  | halt => exact Or.inl (hstays h)
  | jump condition =>
    by_cases hcond : condition.holds c.registers.sr
    · rw [Continues, if_pos hcond] at h
      exact Or.inr (Or.inr ⟨condition, rfl, h⟩)
    · rw [Continues, if_neg hcond] at h
      refine Or.inr (Or.inl ⟨by simp, ?_⟩)
      rw [Opcode.width_jump]
      exact h
  | input =>
    rcases h with ⟨hwrites, -⟩ | h
    · exact Or.inl (hstays hwrites)
    · exact Or.inr (Or.inl ⟨by simp, h⟩)
  | call | int | ret | iret => exact absurd hlocal (by simp [Opcode.IsLocal])
  | _ => exact Or.inr (Or.inl ⟨by simp, h⟩)

/-- A distance taken from the instruction pointer leads to where it was taken. -/
theorem jumpTarget_ofInt {c : Core} {target : Byte}
    (lo : -128 ≤ (target.toNat : Int) - c.registers.ip.toNat)
    (hi : (target.toNat : Int) - c.registers.ip.toNat ≤ 127) :
    c.jumpTarget (Byte.ofInt (target.toNat - c.registers.ip.toNat)) = .ok target := by
  have htarget : (c.registers.ip.toNat : Int) + (target.toNat - c.registers.ip.toNat)
      = target.toNat := by omega
  have hlt := target.toNat_lt
  rw [jumpTarget, Byte.signed_ofInt lo hi, htarget, Byte.ofInt?, if_pos (by omega)]
  simp

/-- A jump is its target or its successor. -/
theorem exec_jump {distance : Byte} (h : c.fetch 1 = .ok distance) (datum : Option InputDatum)
    (condition : Condition) : c.exec datum (.jump condition)
      = (if condition.holds c.registers.sr then c.jumpTarget distance else c.successor 2).map
          fun next => .silent [.ip next] := by
  rw [exec, h, ok_bind]
  by_cases hcond : condition.holds c.registers.sr
  · simp only [hcond, if_true]
    cases c.jumpTarget distance <;> rfl
  · simp only [hcond]
    cases c.successor 2 <;> rfl

/-- **Execution.**  An opcode with its operands, with room for a successor and a
jump target inside memory, fails for its data only and continues as it should. -/
theorem outcome_exec {op : Opcode} {args : List Byte} (h : c.Holds op args)
    (hroom : op ≠ .halt → c.registers.ip.toNat + op.width < 256)
    (hjump : ∀ condition, op = .jump condition → condition.holds c.registers.sr →
      ∃ next, c.fetch 1 >>= c.jumpTarget = .ok next)
    (datum : Option InputDatum) :
    Outcome (c.Continues op) Fault.Cause.OfData (c.exec datum op) := by
  obtain ⟨-, hfetch, hfits⟩ := h
  have hnext : op ≠ .halt → c.successor op.width
      = .ok (UInt8.ofNat (c.registers.ip.toNat + op.width)) := fun hne => successor_eq (hroom hne)
  generalize UInt8.ofNat (c.registers.ip.toNat + op.width) = next at hnext
  -- in each case the operands are fetched and the registers looked up, and what
  -- remains is one of the parts above
  cases op with
  | halt => exact rfl
  | binaryRegister op =>
    show Outcome (c.Advances (Opcode.binaryRegister op).width) _ _
    rw [Opcode.width_binaryRegister] at hnext ⊢
    obtain ⟨d, s, rfl, hd, hs⟩ := fits_two (Opcode.operands_binaryRegister op) hfits
    obtain ⟨dest, rfl⟩ := hd (Or.inl rfl)
    obtain ⟨source, rfl⟩ := hs (Or.inl rfl)
    rw [exec, hfetch 0 _ rfl, ok_bind, hfetch 1 _ rfl, ok_bind, content_code, ok_bind]
    exact outcome_calculate (hnext (by simp)) _ _ dest
  | binaryNumber op =>
    show Outcome (c.Advances (Opcode.binaryNumber op).width) _ _
    rw [Opcode.width_binaryNumber] at hnext ⊢
    obtain ⟨d, operand, rfl, hd, -⟩ := fits_two (Opcode.operands_binaryNumber op) hfits
    obtain ⟨dest, rfl⟩ := hd (Or.inl rfl)
    rw [exec, hfetch 0 _ rfl, ok_bind, hfetch 1 _ rfl, ok_bind]
    exact outcome_calculate (hnext (by simp)) _ _ dest
  | unary op =>
    show Outcome (c.Advances (Opcode.unary op).width) _ _
    rw [Opcode.width_unary] at hnext ⊢
    obtain ⟨d, rfl, hd⟩ := fits_one (Opcode.operands_unary op) hfits
    obtain ⟨dest, rfl⟩ := hd (Or.inl rfl)
    rw [exec, hfetch 0 _ rfl, ok_bind]
    exact outcome_calculate (hnext (by simp)) _ _ dest
  | compareRegister =>
    obtain ⟨l, r, rfl, hl, hr⟩ := fits_two rfl hfits
    obtain ⟨left, rfl⟩ := hl (Or.inl rfl)
    obtain ⟨right, rfl⟩ := hr (Or.inl rfl)
    rw [exec, hfetch 0 _ rfl, ok_bind, hfetch 1 _ rfl, ok_bind, content_code, ok_bind]
    exact outcome_compare (hnext (by simp)) left _
  | compareNumber =>
    obtain ⟨l, right, rfl, hl, -⟩ := fits_two rfl hfits
    obtain ⟨left, rfl⟩ := hl (Or.inl rfl)
    rw [exec, hfetch 0 _ rfl, ok_bind, hfetch 1 _ rfl, ok_bind]
    exact outcome_compare (hnext (by simp)) left _
  | compareDirect =>
    obtain ⟨l, address, rfl, hl, -⟩ := fits_two rfl hfits
    obtain ⟨left, rfl⟩ := hl (Or.inl rfl)
    rw [exec, hfetch 0 _ rfl, ok_bind, hfetch 1 _ rfl, ok_bind]
    exact outcome_compare (hnext (by simp)) left _
  | jump condition =>
    rw [Opcode.width_jump] at hnext
    obtain ⟨distance, rfl, -⟩ := fits_one (Opcode.operands_jump condition) hfits
    have hdistance := hfetch 0 _ rfl
    rw [exec_jump hdistance]
    have hcontinues : ∀ target, (if condition.holds c.registers.sr then c.jumpTarget distance
        else c.successor 2) = .ok target → c.Continues (.jump condition) (.silent [.ip target]) := by
      intro target htarget
      show (if condition.holds c.registers.sr then c.fetch 1 >>= c.jumpTarget else c.successor 2)
        = .ok target
      rw [hdistance, ok_bind, htarget]
    by_cases hcond : condition.holds c.registers.sr
    · obtain ⟨target, htarget⟩ := hjump condition rfl hcond
      rw [hdistance, ok_bind] at htarget
      rw [if_pos hcond, htarget]
      exact hcontinues target (by rw [if_pos hcond, htarget])
    · rw [if_neg hcond, hnext (by simp)]
      exact hcontinues next (by rw [if_neg hcond, hnext (by simp)])
  | call =>
    obtain ⟨target, rfl, -⟩ := fits_one rfl hfits
    have h₂ : c.successor 2 = .ok next := hnext (by simp)
    rw [exec, hfetch 0 _ rfl, ok_bind, h₂, ok_bind]
    exact (outcome_push c next).bind fun ws _ => trivial
  | int =>
    obtain ⟨vector, rfl, -⟩ := fits_one rfl hfits
    have h₂ : c.successor 2 = .ok next := hnext (by simp)
    rw [exec, hfetch 0 _ rfl, ok_bind, h₂, ok_bind]
    unfold enter
    have henter : Outcome (fun _ => True) Fault.Cause.OfData
        ((c.push next).map fun ws => ws ++ [.ip ((c.applyAll ws).memory.get vector)]) :=
      (outcome_push c next).map fun ws _ => trivial
    exact henter.bind fun ws _ => trivial
  | ret | iret =>
    -- no successor is needed here: the address comes from the stack
    rw [exec]
    exact (outcome_pop c).bind fun top _ => trivial
  | loadNumber =>
    obtain ⟨d, b, rfl, hd, -⟩ := fits_two rfl hfits
    obtain ⟨dest, rfl⟩ := hd (Or.inl rfl)
    rw [exec, hfetch 0 _ rfl, ok_bind, hfetch 1 _ rfl, ok_bind]
    exact outcome_load (hnext (by simp)) dest b
  | loadDirect =>
    obtain ⟨d, address, rfl, hd, -⟩ := fits_two rfl hfits
    obtain ⟨dest, rfl⟩ := hd (Or.inl rfl)
    rw [exec, hfetch 0 _ rfl, ok_bind, hfetch 1 _ rfl, ok_bind]
    exact outcome_load (hnext (by simp)) dest _
  | loadIndirect =>
    obtain ⟨d, p, rfl, hd, hp⟩ := fits_two rfl hfits
    obtain ⟨dest, rfl⟩ := hd (Or.inl rfl)
    obtain ⟨pointer, rfl⟩ := hp (Or.inr rfl)
    rw [exec, hfetch 0 _ rfl, ok_bind, hfetch 1 _ rfl, ok_bind, content_code, ok_bind]
    exact outcome_load (hnext (by simp)) dest _
  | storeDirect =>
    obtain ⟨address, s, rfl, -, hs⟩ := fits_two rfl hfits
    obtain ⟨source, rfl⟩ := hs (Or.inl rfl)
    rw [exec, hfetch 0 _ rfl, ok_bind, hfetch 1 _ rfl, ok_bind]
    exact outcome_store (hnext (by simp)) address source
  | storeIndirect =>
    obtain ⟨p, s, rfl, hp, hs⟩ := fits_two rfl hfits
    obtain ⟨pointer, rfl⟩ := hp (Or.inr rfl)
    obtain ⟨source, rfl⟩ := hs (Or.inl rfl)
    rw [exec, hfetch 0 _ rfl, ok_bind, hfetch 1 _ rfl, ok_bind, content_code, ok_bind]
    exact outcome_store (hnext (by simp)) _ source
  | push =>
    obtain ⟨s, rfl, hs⟩ := fits_one rfl hfits
    obtain ⟨source, rfl⟩ := hs (Or.inl rfl)
    have h₂ : c.successor 2 = .ok next := hnext (by simp)
    rw [exec, hfetch 0 _ rfl, ok_bind, content_code, ok_bind]
    refine (outcome_push c _).bind fun ws _ => ?_
    rw [h₂, ok_bind]
    exact advances_append h₂ ws _
  | pop =>
    obtain ⟨d, rfl, hd⟩ := fits_one rfl hfits
    obtain ⟨dest, rfl⟩ := hd (Or.inl rfl)
    have h₂ : c.successor 2 = .ok next := hnext (by simp)
    rw [exec, hfetch 0 _ rfl, ok_bind, register_code, ok_bind]
    refine (outcome_pop c).bind fun top _ => ?_
    obtain ⟨b, w⟩ := top
    show Outcome _ _ (c.successor 2 >>= _)
    rw [h₂, ok_bind]
    exact advances_append h₂ [w, .register dest b] _
  | pushf =>
    have h₁ : c.successor 1 = .ok next := hnext (by simp)
    rw [exec]
    refine (outcome_push c _).bind fun ws _ => ?_
    rw [h₁, ok_bind]
    exact advances_append h₁ ws _
  | popf =>
    have h₁ : c.successor 1 = .ok next := hnext (by simp)
    rw [exec]
    refine (outcome_pop c).bind fun top _ => ?_
    obtain ⟨b, w⟩ := top
    show Outcome _ _ (c.successor 1 >>= _)
    rw [h₁, ok_bind]
    exact advances_append h₁ [w, .sr (.ofByte b)] _
  | input =>
    obtain ⟨channel, rfl, -⟩ := fits_one rfl hfits
    have h₂ : c.successor 2 = .ok next := hnext (by simp)
    rw [exec]
    exact (outcome_channel (hfetch 0 _ rfl)).bind fun channel _ => outcome_receive h₂ channel datum
  | output =>
    obtain ⟨channel, rfl, -⟩ := fits_one rfl hfits
    have h₂ : c.successor 2 = .ok next := hnext (by simp)
    rw [exec]
    refine (outcome_channel (hfetch 0 _ rfl)).bind fun channel _ => ?_
    rw [h₂, ok_bind]
    exact advances_append h₂ [] _
  | sti | cli | clo | nop =>
    have h₁ : c.successor 1 = .ok next := hnext (by simp)
    rw [exec, h₁, ok_bind]
    first
      | exact advances_append h₁ [] _
      | exact advances_append h₁ [_] _

/-! ## §5. A step without an interrupt. -/

/-- What no write goes to stays. -/
theorem get_applyAll_of_not_mem {ws : List Write} {x : Byte}
    (h : Location.memory x ∉ ws.map Write.location) :
    (c.applyAll ws).memory.get x = c.memory.get x := by
  have hread := read_applyAll_of_not_mem (c := c) h
  injection hread

/-- A step that takes no interrupt executes the opcode that it finds. -/
theorem effect_of_holds {op : Opcode} {args : List Byte} (h : c.Holds op args)
    {input : InputSignals} (htraps : c.traps input = false) :
    c.effect input = c.exec input.datum op := by
  unfold effect
  simp only [htraps, h.opcode, Opcode.ofByte?_byte]
  rfl

/-- **One step.**  It fails for its data only, or leaves a core in which the
instruction pointer stands where the opcode leads. -/
theorem outcome_step {op : Opcode} {args : List Byte} (h : c.Holds op args)
    (hroom : op ≠ .halt → c.registers.ip.toNat + op.width < 256)
    (hjump : ∀ condition, op = .jump condition → condition.holds c.registers.sr →
      ∃ next, c.fetch 1 >>= c.jumpTarget = .ok next)
    {input : InputSignals} (htraps : c.traps input = false) :
    Outcome (fun s => ∃ e, c.Continues op e ∧ s.core = c.applyAll e.writes
        ∧ s.changes = e.writes.map Write.location)
      (fun f => f.cause.OfData) (c.step input) := by
  have hout := outcome_exec h hroom hjump input.datum
  rw [← effect_of_holds h htraps] at hout
  unfold step
  cases he : c.effect input with
  | error cause => exact hout.of_error he
  | ok e => exact ⟨e, hout.of_ok he, rfl, rfl⟩

/-- **A jump.**  With the distance of its target as its operand and room for a
successor it does not fail. -/
theorem step_jump {condition : Condition} {target : Byte}
    (h : c.Holds (.jump condition) [Byte.ofInt (target.toNat - c.registers.ip.toNat)])
    (lo : -128 ≤ (target.toNat : Int) - c.registers.ip.toNat)
    (hi : (target.toNat : Int) - c.registers.ip.toNat ≤ 127)
    (hroom : c.registers.ip.toNat + 2 < 256)
    {input : InputSignals} (htraps : c.traps input = false) :
    ∃ s, c.step input = .ok s ∧ s.core.registers.ip
      = if condition.holds c.registers.sr then target else c.registers.ip + 2 := by
  have hnext : UInt8.ofNat (c.registers.ip.toNat + 2) = c.registers.ip + 2 := by
    rw [UInt8.ofNat_add, UInt8.ofNat_toNat]
    rfl
  unfold step
  rw [effect_of_holds h htraps, exec_jump (h.fetch 0 _ rfl), jumpTarget_ofInt lo hi,
    successor_eq hroom, hnext]
  by_cases hcond : condition.holds c.registers.sr
  · rw [if_pos hcond, if_pos hcond]
    exact ⟨_, rfl, rfl⟩
  · rw [if_neg hcond, if_neg hcond]
    exact ⟨_, rfl, rfl⟩

end Core

end EightBit
