/-
  EightBit.Proofs.Machine.Failure
  ───────────────────────────────
  **WHEN A STEP FAILS.**

  The checks of a step are spread over its parts, and most of them stand behind
  others.  Here they are one table: for each cause of a fault, what is in the way
  of an instruction, said of the core before the step.  An instruction succeeds
  when nothing is in its way, and fails for something that is.  For which, if
  there are several, the table does not say.

  Main results:
    • `passes_exec`             — what fails does so for something in its way;
    • `not_hinders_of_performs` — nothing is in the way of what succeeds;
    • `step_succeeds_iff`       — the two together, for every step.
-/
import EightBit.Proofs.Machine.Stack

namespace EightBit

/-! ## §1. What is in the way. -/

namespace Core

/-- The instruction needs an address behind it, to go on there or to come back:
all but the end, a return, a jump that is taken, and an input that waits. -/
def NeedsSuccessor (c : Core) (datum : Option InputDatum) : Opcode → Prop
  | .halt | .ret | .iret => False
  | .jump condition => condition.holds c.registers.sr = false
  | .input => ∃ content channel, c.fetch 1 = .ok channel ∧ datum = some ⟨content, channel⟩
  | _ => True

/-- **What is in the way** of the instruction with the opcode while `datum` is
offered, and the cause of the fault to which it can lead. -/
inductive Hinders (c : Core) (datum : Option InputDatum) (op : Opcode) : Fault.Cause → Prop
  /-- A byte of the instruction lies behind the end of memory. -/
  | byte {k : Nat} : k < op.width → 0xFF < c.registers.ip.toNat + k →
    Hinders c datum op .beyondMemory
  /-- An operand byte is the code of no register. -/
  | register {k : Nat} {kind : OperandKind} {code : Byte} : op.operands[k]? = some kind →
    kind = .register ∨ kind = .registerAddress → c.fetch (k + 1) = .ok code → 3 < code →
    Hinders c datum op (.invalidRegister code)
  /-- The divisor is in a register, and zero. -/
  | divisorRegister {o : BinaryOp} {source : Register} : op = .binaryRegister o →
    o ∈ [.div, .mod] → c.fetch 2 = .ok source.code → c.registers.get source = 0 →
    Hinders c datum op .divideByZero
  /-- The divisor is an operand byte, and zero. -/
  | divisorNumber {o : BinaryOp} : op = .binaryNumber o → o ∈ [.div, .mod] →
    c.fetch 2 = .ok 0 → Hinders c datum op .divideByZero
  | channel {channel : Byte} : op ∈ [.input, .output] → c.fetch 1 = .ok channel →
    0x0F < channel → Hinders c datum op (.invalidChannel channel)
  /-- What is offered on the channel is more than a byte. -/
  | datum {content : UInt16} {channel : Byte} : op = .input → c.fetch 1 = .ok channel →
    datum = some ⟨content, channel⟩ → 0xFF < content.toNat → content ≠ InputDatum.skip →
    Hinders c datum op (.invalidInput content)
  | full : op ∈ [.push, .pushf, .call, .int] → c.registers.sp = 0 →
    Hinders c datum op .stackOverflow
  | empty : op ∈ [.pop, .popf, .ret, .iret] → 0xBF ≤ c.registers.sp →
    Hinders c datum op .stackUnderflow
  /-- There is no address behind the instruction. -/
  | successor : c.NeedsSuccessor datum op → 0xFF < c.registers.ip.toNat + op.width →
    Hinders c datum op .beyondMemory
  /-- The jump is taken and leads out of memory. -/
  | target {condition : Condition} {distance : Byte} : op = .jump condition →
    condition.holds c.registers.sr = true → c.fetch 1 = .ok distance →
    ¬ (0 ≤ (c.registers.ip.toNat : Int) + distance.signed
      ∧ (c.registers.ip.toNat : Int) + distance.signed ≤ 0xFF) →
    Hinders c datum op .beyondMemory

end Core

/-! ## §2. When the parts of an instruction fail. -/

theorem Byte.toNat_toWord (b : Byte) : b.toWord.toNat = b.toNat := by
  have hb := b.toNat_lt
  rw [toWord, BitVec.toNat_setWidth, UInt8.toNat_toBitVec]
  omega

theorem Byte.toWord_eq_zero_iff {b : Byte} : b.toWord = 0 ↔ b = 0 := by
  rw [← BitVec.toNat_inj, toNat_toWord, ← UInt8.toNat_inj]
  rfl

theorem Byte.toWord_ne_intMin (b : Byte) : b.toWord ≠ BitVec.intMin 32 := by
  intro h
  have hb := b.toNat_lt
  have hword := congrArg BitVec.toNat h
  rw [toNat_toWord] at hword
  simp at hword
  omega

theorem Word.divided_eq_none_iff {q : Word → Word → Word} {operand dest : Byte} :
    divided q dest.toWord operand.toWord = none ↔ operand = 0 := by
  unfold divided
  by_cases h : operand = 0
  · rw [if_pos (.inl (Byte.toWord_eq_zero_iff.2 h))]
    exact iff_of_true rfl h
  · rw [if_neg]
    · exact iff_of_false (by simp) h
    · rintro (hzero | ⟨hmin, -⟩)
      · exact h (Byte.toWord_eq_zero_iff.1 hzero)
      · exact Byte.toWord_ne_intMin dest hmin

/-- An operation has no result when it divides by zero. -/
theorem AluOp.operate?_eq_none_iff {op : AluOp} {operand dest : Byte} {f : Flags} :
    op.operate? operand dest f = none
      ↔ ∃ o : BinaryOp, o ∈ [.div, .mod] ∧ op = .binary o ∧ operand = 0 := by
  rw [operate?, Option.map_eq_none_iff]
  cases op with
  | unary o => simp [eval?]
  | binary o => cases o <;> simp [eval?, BinaryOp.eval?, Word.divided_eq_none_iff]

namespace Core

section Parts

variable {c : Core} {cause : Fault.Cause} {code b : Byte} {width : Nat}

theorem fetch_eq_error_iff {offset : Nat} : c.fetch offset = .error cause
    ↔ 0xFF < c.registers.ip.toNat + offset ∧ cause = .beyondMemory := by
  unfold fetch Byte.ofNat?
  by_cases h : c.registers.ip.toNat + offset < 256
  · simp [h, Nat.not_lt.2 (Nat.le_of_lt_succ h)]
  · simp [h, Nat.lt_of_succ_le (Nat.le_of_not_lt h), eq_comm]

theorem successor_eq_error_iff : c.successor width = .error cause
    ↔ 0xFF < c.registers.ip.toNat + width ∧ cause = .beyondMemory := by
  unfold successor Byte.ofNat?
  by_cases h : c.registers.ip.toNat + width < 256
  · simp [h, Nat.not_lt.2 (Nat.le_of_lt_succ h)]
  · simp [h, Nat.lt_of_succ_le (Nat.le_of_not_lt h), eq_comm]

theorem jumpTarget_eq_error_iff {distance : Byte} : c.jumpTarget distance = .error cause
    ↔ ¬ (0 ≤ (c.registers.ip.toNat : Int) + distance.signed
        ∧ (c.registers.ip.toNat : Int) + distance.signed ≤ 0xFF) ∧ cause = .beyondMemory := by
  unfold jumpTarget Byte.ofInt?
  generalize (c.registers.ip.toNat : Int) + distance.signed = target
  by_cases h : 0 ≤ target ∧ target < 256
  · have hle : 0 ≤ target ∧ target ≤ 0xFF := by omega
    simp [h, hle]
  · have hle : ¬ (0 ≤ target ∧ target ≤ 0xFF) := by omega
    simp only [h, hle]
    simp [eq_comm]

theorem register_eq_error_iff : register code = .error cause
    ↔ 3 < code ∧ cause = .invalidRegister code := by
  have hcode := Register.ofCode?_isSome_iff code
  unfold register
  cases h : Register.ofCode? code with
  | some r =>
    rw [h] at hcode
    have hle : code ≤ 3 := hcode.1 rfl
    simp [UInt8.not_lt.2 hle]
  | none =>
    rw [h] at hcode
    have hlt : 3 < code := UInt8.not_le.1 fun hle => absurd (hcode.2 hle) (by simp)
    simp [hlt, eq_comm]

theorem operate_eq_error_iff {op : AluOp} {operand dest : Byte} :
    c.operate op operand dest = .error cause
      ↔ op.operate? operand dest c.registers.sr = none ∧ cause = .divideByZero := by
  unfold operate
  cases op.operate? operand dest c.registers.sr <;> simp [eq_comm]

theorem channel_eq_error_iff : c.channel = .error cause ↔ c.fetch 1 = .error cause
    ∨ ∃ channel, c.fetch 1 = .ok channel ∧ 0x0F < channel ∧ cause = .invalidChannel channel := by
  have hmax : maxChannel = 0x0F := rfl
  unfold channel
  cases c.fetch 1 with
  | error e => simp
  | ok n => by_cases hn : 0x0F < n <;> simp [hmax, hn, eq_comm]

theorem channel_eq_ok_iff {channel : Byte} :
    c.channel = .ok channel ↔ c.fetch 1 = .ok channel ∧ ¬ 0x0F < channel := by
  have hmax : maxChannel = 0x0F := rfl
  unfold Core.channel
  cases c.fetch 1 with
  | error e => simp
  | ok n => by_cases hn : 0x0F < n <;> simp [hmax, hn] <;> grind

end Parts

/-! ## §3. What fails does so for something in the way. -/

/-- If the computation fails, it is for something in the way of the instruction. -/
def Passes {α : Type} (c : Core) (datum : Option InputDatum) (op : Opcode)
    (x : Except Fault.Cause α) : Prop :=
  ∀ cause, x = .error cause → c.Hinders datum op cause

section Passes

variable {α β : Type} {c : Core} {datum : Option InputDatum} {op : Opcode} {code b : Byte}
  {width : Nat}

theorem Passes.bind {x : Except Fault.Cause α} {f : α → Except Fault.Cause β}
    (hx : c.Passes datum op x) (hf : ∀ a, x = .ok a → c.Passes datum op (f a)) :
    c.Passes datum op (x >>= f) := by
  intro cause h
  cases x with
  | error e =>
    injection h with h
    exact hx cause (h ▸ rfl)
  | ok a => exact hf a rfl cause h

theorem Passes.map {x : Except Fault.Cause α} {f : α → β} (hx : c.Passes datum op x) :
    c.Passes datum op (x.map f) := by
  intro cause h
  exact hx cause (map_eq_error_iff.1 h)

theorem passes_pure (a : α) : c.Passes datum op (pure a) := by
  intro cause h
  exact absurd h pure_ne_error

theorem passes_fetch {k : Nat} (hk : k < op.width) : c.Passes datum op (c.fetch k) := by
  intro cause h
  obtain ⟨hlt, rfl⟩ := fetch_eq_error_iff.1 h
  exact .byte hk hlt

theorem passes_register {k : Nat} {kind : OperandKind} (hop : op.operands[k]? = some kind)
    (hkind : kind = .register ∨ kind = .registerAddress) (hcode : c.fetch (k + 1) = .ok code) :
    c.Passes datum op (register code) := by
  intro cause h
  obtain ⟨hlt, rfl⟩ := register_eq_error_iff.1 h
  exact .register hop hkind hcode hlt

theorem passes_content {k : Nat} {kind : OperandKind} (hop : op.operands[k]? = some kind)
    (hkind : kind = .register ∨ kind = .registerAddress) (hcode : c.fetch (k + 1) = .ok code) :
    c.Passes datum op (c.content code) :=
  (passes_register hop hkind hcode).map

theorem passes_successor (hneeds : c.NeedsSuccessor datum op) (hwidth : op.width = width) :
    c.Passes datum op (c.successor width) := by
  intro cause h
  obtain ⟨hlt, rfl⟩ := successor_eq_error_iff.1 h
  exact .successor hneeds (hwidth ▸ hlt)

/-- The last part of most instructions. -/
theorem passes_advance (hneeds : c.NeedsSuccessor datum op) (hwidth : op.width = width)
    {f : Byte → α} : c.Passes datum op (c.successor width >>= fun next => pure (f next)) :=
  (passes_successor hneeds hwidth).bind fun _ _ => passes_pure _

theorem passes_push (hop : op ∈ [.push, .pushf, .call, .int]) (b : Byte) :
    c.Passes datum op (c.push b) := by
  intro cause h
  obtain ⟨hsp, rfl⟩ := push_eq_error_iff.1 h
  exact .full hop hsp

theorem passes_pop (hop : op ∈ [.pop, .popf, .ret, .iret]) : c.Passes datum op c.pop := by
  intro cause h
  obtain ⟨hsp, rfl⟩ := pop_eq_error_iff.1 h
  exact .empty hop hsp

theorem passes_channel (hop : op ∈ [.input, .output]) (hwidth : op.width = 2) :
    c.Passes datum op c.channel := by
  intro cause h
  rcases channel_eq_error_iff.1 h with h | ⟨channel, hchannel, hlt, rfl⟩
  · exact passes_fetch (by omega) cause h
  · exact .channel hop hchannel hlt

/-- An operation fails if it divides by zero, so by the operand of its opcode. -/
theorem passes_operate {o : AluOp} {operand dest : Byte}
    (hzero : ∀ o' : BinaryOp, o' ∈ [.div, .mod] → o = .binary o' → operand = 0 →
      c.Hinders datum op .divideByZero) : c.Passes datum op (c.operate o operand dest) := by
  intro cause h
  obtain ⟨hnone, rfl⟩ := operate_eq_error_iff.1 h
  obtain ⟨o', ho', heq, hoperand⟩ := AluOp.operate?_eq_none_iff.1 hnone
  exact hzero o' ho' heq hoperand

theorem passes_calculate {o : AluOp} {operand : Byte} (hop : op.operands[0]? = some .register)
    (hcode : c.fetch 1 = .ok code) (hzero : ∀ o' : BinaryOp, o' ∈ [.div, .mod] → o = .binary o' →
      operand = 0 → c.Hinders datum op .divideByZero) (hneeds : c.NeedsSuccessor datum op)
    (hwidth : op.width = width) : c.Passes datum op (c.calculate o operand code width) := by
  refine Passes.bind (passes_register hop (.inl rfl) hcode) fun r _ => ?_
  refine Passes.bind (passes_operate hzero) fun result _ => ?_
  exact passes_advance hneeds hwidth

theorem passes_compare (hop : op.operands[0]? = some .register) (hcode : c.fetch 1 = .ok code)
    (hneeds : c.NeedsSuccessor datum op) (hwidth : op.width = 3) :
    c.Passes datum op (c.compare code b) := by
  refine Passes.bind (passes_content hop (.inl rfl) hcode) fun l _ => ?_
  -- a comparison subtracts, and does not divide
  refine Passes.bind (passes_operate fun o ho heq _ => ?_) fun result _ => ?_
  · injection heq with heq
    subst heq
    exact absurd ho (by decide)
  · exact passes_advance hneeds hwidth

theorem passes_load (hop : op.operands[0]? = some .register) (hcode : c.fetch 1 = .ok code)
    (hneeds : c.NeedsSuccessor datum op) (hwidth : op.width = 3) :
    c.Passes datum op (c.load code b) := by
  refine Passes.bind (passes_register hop (.inl rfl) hcode) fun r _ => ?_
  exact passes_advance hneeds hwidth

theorem passes_store {address : Byte} (hop : op.operands[1]? = some .register)
    (hcode : c.fetch 2 = .ok code) (hneeds : c.NeedsSuccessor datum op) (hwidth : op.width = 3) :
    c.Passes datum op (c.store address code) := by
  refine Passes.bind (passes_content hop (.inl rfl) hcode) fun value _ => ?_
  exact passes_advance hneeds hwidth

/-- An input fails for its datum, or because it would go on behind memory. -/
theorem passes_receive {channel : Byte} (hchannel : c.fetch 1 = .ok channel) :
    c.Passes datum .input (c.receive channel datum) := by
  intro cause h
  unfold receive at h
  split at h
  · exact absurd h (by simp)
  · next d hsome =>
    obtain ⟨hdatum, hd⟩ := Option.filter_eq_some_iff.1 hsome
    obtain rfl : d.channel = channel := of_decide_eq_true hd
    have hneeds : c.NeedsSuccessor datum .input := ⟨d.content, d.channel, hchannel, hdatum⟩
    split at h
    · exact (passes_successor hneeds rfl).map cause h
    · next hskip =>
      split at h
      · next hnone =>
        injection h with h
        subst h
        refine .datum rfl hchannel hdatum ?_ hskip
        unfold Byte.ofNat? at hnone
        split at hnone
        · exact absurd hnone (by simp)
        · omega
      · exact (passes_successor hneeds rfl).map cause h

/-- **What fails does so for something in the way.** -/
theorem passes_exec (c : Core) (datum : Option InputDatum) (op : Opcode) :
    c.Passes datum op (c.exec datum op) := by
  -- in each case the program is followed from its start, part by part
  cases op with
  | halt => exact passes_pure _
  | binaryRegister o =>
    refine Passes.bind (passes_fetch (by simp)) fun dest hdest => ?_
    refine Passes.bind (passes_fetch (by simp)) fun source hsource => ?_
    refine Passes.bind (passes_content (k := 1) (by simp) (.inl rfl) hsource) fun operand hoperand => ?_
    refine passes_calculate (by simp) hdest (fun o' ho' heq hzero => ?_) trivial (by simp)
    injection heq with heq
    obtain ⟨r, rfl, hr⟩ := content_eq_ok_iff.1 hoperand
    exact .divisorRegister rfl (heq ▸ ho') hsource (hr.trans hzero)
  | binaryNumber o =>
    refine Passes.bind (passes_fetch (by simp)) fun dest hdest => ?_
    refine Passes.bind (passes_fetch (by simp)) fun operand hoperand => ?_
    refine passes_calculate (by simp) hdest (fun o' ho' heq hzero => ?_) trivial (by simp)
    injection heq with heq
    exact .divisorNumber rfl (heq ▸ ho') (hzero ▸ hoperand)
  | unary o =>
    refine Passes.bind (passes_fetch (by simp)) fun dest hdest => ?_
    exact passes_calculate (by simp) hdest (fun o' _ heq _ => absurd heq (by simp)) trivial (by simp)
  | compareRegister =>
    refine Passes.bind (passes_fetch (by decide)) fun left hleft => ?_
    refine Passes.bind (passes_fetch (by decide)) fun right hright => ?_
    refine Passes.bind (passes_content (k := 1) rfl (.inl rfl) hright) fun r _ => ?_
    exact passes_compare rfl hleft trivial rfl
  | compareNumber =>
    refine Passes.bind (passes_fetch (by decide)) fun left hleft => ?_
    refine Passes.bind (passes_fetch (by decide)) fun right _ => ?_
    exact passes_compare rfl hleft trivial rfl
  | compareDirect =>
    refine Passes.bind (passes_fetch (by decide)) fun left hleft => ?_
    refine Passes.bind (passes_fetch (by decide)) fun address _ => ?_
    exact passes_compare rfl hleft trivial rfl
  | jump condition =>
    refine Passes.bind (passes_fetch (by simp)) fun distance hdistance => ?_
    by_cases hcond : condition.holds c.registers.sr = true
    · simp only [hcond, if_true]
      refine Passes.bind (fun cause h => ?_) fun next _ => passes_pure _
      obtain ⟨hout, rfl⟩ := jumpTarget_eq_error_iff.1 h
      exact .target rfl hcond hdistance hout
    · simp only [hcond]
      exact passes_advance (by exact Bool.eq_false_iff.2 hcond) (by simp)
  | call =>
    refine Passes.bind (passes_fetch (by decide)) fun target _ => ?_
    refine Passes.bind (passes_successor trivial rfl) fun back _ => ?_
    exact Passes.bind (passes_push (by decide) back) fun ws _ => passes_pure _
  | int =>
    refine Passes.bind (passes_fetch (by decide)) fun vector _ => ?_
    refine Passes.bind (passes_successor trivial rfl) fun back _ => ?_
    exact Passes.bind (passes_push (by decide) back).map fun ws _ => passes_pure _
  | ret | iret => exact Passes.bind (passes_pop (by decide)) fun top _ => passes_pure _
  | loadNumber =>
    refine Passes.bind (passes_fetch (by decide)) fun dest hdest => ?_
    refine Passes.bind (passes_fetch (by decide)) fun b _ => ?_
    exact passes_load rfl hdest trivial rfl
  | loadDirect =>
    refine Passes.bind (passes_fetch (by decide)) fun dest hdest => ?_
    refine Passes.bind (passes_fetch (by decide)) fun address _ => ?_
    exact passes_load rfl hdest trivial rfl
  | loadIndirect =>
    refine Passes.bind (passes_fetch (by decide)) fun dest hdest => ?_
    refine Passes.bind (passes_fetch (by decide)) fun pointer hpointer => ?_
    refine Passes.bind (passes_content (k := 1) rfl (.inr rfl) hpointer) fun address _ => ?_
    exact passes_load rfl hdest trivial rfl
  | storeDirect =>
    refine Passes.bind (passes_fetch (by decide)) fun address _ => ?_
    refine Passes.bind (passes_fetch (by decide)) fun source hsource => ?_
    exact passes_store rfl hsource trivial rfl
  | storeIndirect =>
    refine Passes.bind (passes_fetch (by decide)) fun pointer hpointer => ?_
    refine Passes.bind (passes_fetch (by decide)) fun source hsource => ?_
    refine Passes.bind (passes_content (k := 0) rfl (.inr rfl) hpointer) fun address _ => ?_
    exact passes_store rfl hsource trivial rfl
  | push =>
    refine Passes.bind (passes_fetch (by decide)) fun source hsource => ?_
    refine Passes.bind (passes_content (k := 0) rfl (.inl rfl) hsource) fun b _ => ?_
    refine Passes.bind (passes_push (by decide) b) fun ws _ => ?_
    exact passes_advance (by trivial) rfl
  | pop =>
    refine Passes.bind (passes_fetch (by decide)) fun dest hdest => ?_
    refine Passes.bind (passes_register (k := 0) rfl (.inl rfl) hdest) fun r _ => ?_
    refine Passes.bind (passes_pop (by decide)) fun top _ => ?_
    exact passes_advance (by trivial) rfl
  | pushf =>
    refine Passes.bind (passes_push (by decide) _) fun ws _ => ?_
    exact passes_advance (by trivial) rfl
  | popf =>
    refine Passes.bind (passes_pop (by decide)) fun top _ => ?_
    exact passes_advance (by trivial) rfl
  | input =>
    refine Passes.bind (passes_channel (by decide) rfl) fun channel hchannel => ?_
    exact passes_receive (channel_eq_ok_iff.1 hchannel).1
  | output =>
    refine Passes.bind (passes_channel (by decide) rfl) fun channel _ => ?_
    exact passes_advance (by trivial) rfl
  | sti | cli | clo | nop =>
    exact passes_advance (by trivial) rfl

end Passes

/-! ## §4. Nothing is in the way of what succeeds. -/

section Performs

variable {c : Core} {datum : Option InputDatum} {op : Opcode} {e : Effect} {cause : Fault.Cause}

/-- Every operand byte of a kind that wants a register is the code of one. -/
def CodesRegisters (c : Core) (operands : List OperandKind) : Prop :=
  ∀ k kind, operands[k]? = some kind → kind = .register ∨ kind = .registerAddress →
    ∃ r : Register, c.fetch (k + 1) = .ok r.code

theorem codesRegisters_nil : c.CodesRegisters [] := by
  intro k kind hkind
  exact absurd hkind (by simp)

theorem codesRegisters_one {k₁ : OperandKind} (h₁ : k₁ = .register ∨ k₁ = .registerAddress →
    ∃ r : Register, c.fetch 1 = .ok r.code) : c.CodesRegisters [k₁] := by
  intro k kind hkind
  cases k with
  | zero =>
    obtain rfl := Option.some.inj hkind
    exact h₁
  | succ k => exact absurd hkind (by simp)

theorem codesRegisters_two {k₁ k₂ : OperandKind} (h₁ : k₁ = .register ∨ k₁ = .registerAddress →
    ∃ r : Register, c.fetch 1 = .ok r.code) (h₂ : k₂ = .register ∨ k₂ = .registerAddress →
    ∃ r : Register, c.fetch 2 = .ok r.code) : c.CodesRegisters [k₁, k₂] := by
  intro k kind hkind
  rcases k with _ | _ | k
  · obtain rfl := Option.some.inj hkind
    exact h₁
  · obtain rfl := Option.some.inj hkind
    exact h₂
  · exact absurd hkind (by simp)

/-- What succeeds found its registers. -/
theorem Performs.codesRegisters (h : c.Performs datum op e) : c.CodesRegisters op.operands := by
  have hno : ∀ {kind : OperandKind} {p : Prop}, kind ∉ [.register, .registerAddress] →
      kind = .register ∨ kind = .registerAddress → p := by
    intro kind p hkind h
    exact absurd (by simpa using h) hkind
  cases h with
  | binaryRegister hdest hsource =>
    rw [Opcode.operands_binaryRegister]
    exact codesRegisters_two (fun _ => ⟨_, hdest⟩) fun _ => ⟨_, hsource⟩
  | binaryNumber hdest =>
    rw [Opcode.operands_binaryNumber]
    exact codesRegisters_two (fun _ => ⟨_, hdest⟩) (hno (by decide))
  | unary hdest =>
    rw [Opcode.operands_unary]
    exact codesRegisters_one fun _ => ⟨_, hdest⟩
  | jump =>
    rw [Opcode.operands_jump]
    exact codesRegisters_one (hno (by decide))
  | compareRegister h₁ h₂ | loadIndirect h₁ h₂ | storeIndirect h₁ h₂ =>
    exact codesRegisters_two (fun _ => ⟨_, h₁⟩) fun _ => ⟨_, h₂⟩
  | compareNumber h₁ | compareDirect h₁ | loadNumber h₁ | loadDirect h₁ =>
    exact codesRegisters_two (fun _ => ⟨_, h₁⟩) (hno (by decide))
  | storeDirect _ h₂ => exact codesRegisters_two (hno (by decide)) fun _ => ⟨_, h₂⟩
  | push h₁ | pop h₁ => exact codesRegisters_one fun _ => ⟨_, h₁⟩
  | call | int | wait | skip | receive | output => exact codesRegisters_one (hno (by decide))
  | halt | ret | iret | pushf | popf | sti | cli | clo | nop => exact codesRegisters_nil

/-- What succeeds found its bytes. -/
theorem Performs.exists_fetch (h : c.Performs datum op e) (hwidth : 1 < op.width) :
    ∃ b, c.fetch (op.width - 1) = .ok b := by
  cases h with
  | binaryRegister _ hlast | binaryNumber _ hlast | unary hlast | jump hlast =>
    simp only [Opcode.width_binaryRegister, Opcode.width_binaryNumber, Opcode.width_unary,
      Opcode.width_jump]
    exact ⟨_, hlast⟩
  | compareRegister _ hlast | compareNumber _ hlast | compareDirect _ hlast | call hlast
  | int hlast | loadNumber _ hlast | loadDirect _ hlast | loadIndirect _ hlast
  | storeDirect _ hlast | storeIndirect _ hlast | push hlast | pop hlast => exact ⟨_, hlast⟩
  | wait hchannel | skip hchannel | receive hchannel | output hchannel =>
    exact ⟨_, (channel_eq_ok_iff.1 hchannel).1⟩
  | halt | ret | iret | pushf | popf | sti | cli | clo | nop => exact absurd hwidth (by decide)

/-- What succeeds found its successor, if it needs one. -/
theorem Performs.exists_successor (h : c.Performs datum op e)
    (hneeds : c.NeedsSuccessor datum op) : ∃ next, c.successor op.width = .ok next := by
  cases h with
  | binaryRegister _ _ _ hnext | binaryNumber _ _ _ hnext | unary _ _ hnext =>
    simp only [Opcode.width_binaryRegister, Opcode.width_binaryNumber, Opcode.width_unary]
    exact ⟨_, hnext⟩
  | @jump condition distance next _ hnext =>
    have hcond : condition.holds c.registers.sr = false := hneeds
    simp only [hcond, Opcode.width_jump] at hnext ⊢
    exact ⟨_, hnext⟩
  | halt | ret | iret => exact hneeds.elim
  | wait hchannel hdatum =>
    obtain ⟨content, channel, hfetch, hsome⟩ := hneeds
    obtain rfl := Except.ok.inj ((channel_eq_ok_iff.1 hchannel).1.symm.trans hfetch)
    exact absurd hsome (hdatum content)
  | call _ hnext | int _ hnext => exact ⟨_, hnext⟩
  | compareRegister _ _ _ hnext | compareNumber _ _ _ hnext | compareDirect _ _ _ hnext
  | loadNumber _ _ hnext | loadDirect _ _ hnext | loadIndirect _ _ hnext | storeDirect _ _ hnext
  | storeIndirect _ _ hnext | push _ _ hnext | pop _ _ hnext | pushf _ hnext | popf _ hnext
  | skip _ _ hnext | receive _ _ _ _ hnext | output _ hnext | sti hnext | cli hnext | clo hnext
  | nop hnext => exact ⟨_, hnext⟩

/-- **Nothing is in the way of what succeeds.** -/
theorem not_hinders_of_performs (h : c.Performs datum op e) : ¬ c.Hinders datum op cause := by
  intro hhinders
  have hfetch : ∀ {k b}, c.fetch k = .ok b → ¬ 0xFF < c.registers.ip.toNat + k := by
    intro k b hb hlt
    exact absurd (hb.symm.trans (fetch_eq_error_iff.2 ⟨hlt, rfl⟩)) (by simp)
  cases hhinders with
  | @byte k hk hlt =>
    by_cases hwidth : 1 < op.width
    · obtain ⟨b, hb⟩ := h.exists_fetch hwidth
      have := hfetch hb
      omega
    · have := c.registers.ip.toNat_lt
      omega
  | register hop hkind hcode hlt =>
    obtain ⟨r, hr⟩ := h.codesRegisters _ _ hop hkind
    obtain rfl := Except.ok.inj (hr.symm.trans hcode)
    exact absurd hlt (by cases r <;> decide)
  | divisorRegister hop ho hsource hzero =>
    subst hop
    cases h with
    | @binaryRegister _ _ source' _ _ _ _ hsource' hop _ =>
      have hcode : source'.code = _ := Except.ok.inj (hsource'.symm.trans hsource)
      have hsame := congrArg Register.ofCode? hcode
      rw [Register.ofCode?_code, Register.ofCode?_code] at hsame
      obtain rfl := Option.some.inj hsame
      rw [AluOp.operate?_eq_none_iff.2 ⟨_, ho, rfl, hzero⟩] at hop
      exact absurd hop (by simp)
  | divisorNumber hop ho hoperand =>
    subst hop
    cases h with
    | binaryNumber _ hoperand' hop _ =>
      obtain rfl := Except.ok.inj (hoperand'.symm.trans hoperand)
      rw [AluOp.operate?_eq_none_iff.2 ⟨_, ho, rfl, rfl⟩] at hop
      exact absurd hop (by simp)
  | channel hop hchannel hlt =>
    have hok : ∃ n, c.channel = .ok n := by
      cases h with
      | wait hchannel | skip hchannel | receive hchannel | output hchannel => exact ⟨_, hchannel⟩
      | _ => exact absurd hop (by simp)
    obtain ⟨n, hn⟩ := hok
    obtain ⟨hfetch, hle⟩ := channel_eq_ok_iff.1 hn
    obtain rfl := Except.ok.inj (hfetch.symm.trans hchannel)
    exact hle hlt
  | datum hop hchannel hdatum hlt hskip =>
    subst hop hdatum
    cases h with
    | wait hchannel' hdatum =>
      obtain rfl := Except.ok.inj ((channel_eq_ok_iff.1 hchannel').1.symm.trans hchannel)
      exact hdatum _ rfl
    | skip _ hdatum =>
      injection hdatum with hdatum
      injection hdatum with hcontent
      exact hskip hcontent
    | @receive _ b _ _ _ hdatum _ hb =>
      injection hdatum with hdatum
      injection hdatum with hcontent
      have := b.toNat_lt
      rw [hcontent] at hlt
      omega
  | full hop hsp =>
    cases h with
    | push _ hne | pushf hne | call _ _ hne | int _ _ hne => exact hne hsp
    | _ => exact absurd hop (by simp)
  | empty hop hsp =>
    cases h with
    | pop _ hlt | popf hlt | ret hlt | iret hlt => exact absurd hlt (UInt8.not_lt.2 hsp)
    | _ => exact absurd hop (by simp)
  | successor hneeds hlt =>
    obtain ⟨next, hnext⟩ := h.exists_successor hneeds
    exact absurd (hnext.symm.trans (successor_eq_error_iff.2 ⟨hlt, rfl⟩)) (by simp)
  | target hop hcond hdistance hout =>
    subst hop
    cases h with
    | jump hdistance' hnext =>
      obtain rfl := Except.ok.inj (hdistance'.symm.trans hdistance)
      rw [if_pos hcond, jumpTarget_eq_error_iff.2 ⟨hout, rfl⟩] at hnext
      exact absurd hnext (by simp)

end Performs

/-! ## §5. Steps. -/

variable {c : Core} {input : InputSignals} {op : Opcode}

/-- A step fails at the address of its instruction. -/
theorem ip_of_step_eq_error {f : Fault} (h : c.step input = .error f) :
    f.ip = c.registers.ip ∧ c.effect input = .error f.cause := by
  unfold step at h
  cases he : c.effect input with
  | ok e =>
    rw [he] at h
    exact absurd h (by simp)
  | error cause =>
    rw [he] at h
    injection h with h
    subst h
    exact ⟨rfl, rfl⟩

theorem exists_step_iff : (∃ s, c.step input = .ok s) ↔ ∃ e, c.effect input = .ok e := by
  unfold step
  cases c.effect input <;> simp

/-- An instruction succeeds when nothing is in its way. -/
theorem Executes.exists_step_iff (h : c.Executes input op) :
    (∃ s, c.step input = .ok s) ↔ ∀ cause, ¬ c.Hinders input.datum op cause := by
  rw [Core.exists_step_iff, h.effect_eq]
  constructor
  · intro hok cause
    obtain ⟨e, he⟩ := hok
    exact not_hinders_of_performs (performs_of_exec he)
  · intro hfree
    cases he : c.exec input.datum op with
    | ok e => exact ⟨e, rfl⟩
    | error cause => exact absurd (passes_exec c input.datum op cause he) (hfree cause)

/-- A byte that is no opcode is not executed. -/
theorem effect_of_ofByte?_eq_none (htraps : c.traps input = false)
    (hop : Opcode.ofByte? (c.memory.get c.registers.ip) = none) :
    c.effect input = .error (.invalidOpcode (c.memory.get c.registers.ip)) := by
  simp only [effect, htraps, hop]
  rfl

end Core

/-- **When a step fails.**  Where the interrupt is taken it fails for a full stack
and for nothing else.  Otherwise it succeeds when the byte at the instruction
pointer is an opcode and nothing is in the way of the instruction.  It fails at
the address of the instruction, for something that is in the way. -/
theorem step_succeeds_iff (c : Core) (input : InputSignals) :
    (c.traps input = true → ((∃ s, c.step input = .ok s) ↔ c.registers.sp ≠ 0)
      ∧ (c.registers.sp = 0 → c.step input = .error ⟨.stackOverflow, c.registers.ip⟩))
    ∧ (c.traps input = false → ((∃ s, c.step input = .ok s) ↔
        ∃ op, c.Executes input op ∧ ∀ cause, ¬ c.Hinders input.datum op cause))
    ∧ ∀ f, c.step input = .error f → f.ip = c.registers.ip
      ∧ (c.traps input = false → (Opcode.ofByte? (c.memory.get c.registers.ip) = none
          ∧ f.cause = .invalidOpcode (c.memory.get c.registers.ip))
        ∨ ∃ op, c.Executes input op ∧ c.Hinders input.datum op f.cause) := by
  refine ⟨fun htraps => ⟨?_, fun hsp => ?_⟩, fun htraps => ⟨fun hok => ?_, fun hfree => ?_⟩,
    fun f hf => ?_⟩
  · rw [Core.exists_step_iff, Core.effect_of_traps htraps]
    constructor
    · intro hok hsp
      obtain ⟨e, he⟩ := hok
      rw [map_eq_error_iff.2 (Core.enter_eq_error_iff.2 ⟨hsp, rfl⟩)] at he
      exact absurd he (by simp)
    · intro hsp
      exact ⟨_, map_eq_ok_iff.2 ⟨_, Core.enter_eq_ok_iff.2 ⟨hsp, rfl⟩, rfl⟩⟩
  · rw [Core.step_eq_error_iff, Core.effect_of_traps htraps, map_eq_error_iff]
    exact Core.enter_eq_error_iff.2 ⟨hsp, rfl⟩
  · cases hop : Opcode.ofByte? (c.memory.get c.registers.ip) with
    | none =>
      obtain ⟨e, he⟩ := Core.exists_step_iff.1 hok
      rw [Core.effect_of_ofByte?_eq_none htraps hop] at he
      exact absurd he (by simp)
    | some op =>
      have hexec : c.Executes input op := ⟨htraps, hop⟩
      exact ⟨op, hexec, hexec.exists_step_iff.1 hok⟩
  · obtain ⟨op, hexec, hfree⟩ := hfree
    exact hexec.exists_step_iff.2 hfree
  · obtain ⟨hip, heffect⟩ := Core.ip_of_step_eq_error hf
    refine ⟨hip, fun htraps => ?_⟩
    cases hop : Opcode.ofByte? (c.memory.get c.registers.ip) with
    | none =>
      rw [Core.effect_of_ofByte?_eq_none htraps hop] at heffect
      exact .inl ⟨rfl, (Except.error.inj heffect).symm⟩
    | some op =>
      have hexec : c.Executes input op := ⟨htraps, hop⟩
      rw [hexec.effect_eq] at heffect
      exact .inr ⟨op, hexec, Core.passes_exec c input.datum op _ heffect⟩

/-- An input in the last two bytes of memory. -/
def lastInput : Core :=
  ⟨(Memory.blank.set 0xFE 0xF0).set 0xFF 0x00, { Registers.initial with ip := 0xFE }⟩

/-- It can wait, but when it is served there is no address to go on at. -/
theorem step_succeeds_iff_lastInput : lastInput.traps .none = false
    ∧ (∃ op, lastInput.Executes .none op ∧ ∀ cause, ¬ lastInput.Hinders none op cause)
    ∧ ∃ f, lastInput.step ⟨some ⟨0x41, 0⟩, false⟩ = .error f ∧ f.cause = .beyondMemory
      ∧ f.ip = 0xFE ∧ ∃ op, lastInput.Executes ⟨some ⟨0x41, 0⟩, false⟩ op
        ∧ lastInput.Hinders (some ⟨0x41, 0⟩) op f.cause := by
  have hwaits : (lastInput.step .none).toOption.isSome = true := by decide +kernel
  have hserved : lastInput.step ⟨some ⟨0x41, 0⟩, false⟩ = .error ⟨.beyondMemory, 0xFE⟩ := by
    decide +kernel
  obtain ⟨s, hs⟩ := Option.isSome_iff_exists.1 hwaits
  have hfree := ((step_succeeds_iff lastInput .none).2.1 rfl).1 ⟨s, toOption_eq_some_iff.1 hs⟩
  obtain ⟨hip, hcause⟩ := (step_succeeds_iff lastInput _).2.2 _ hserved
  refine ⟨rfl, hfree, _, hserved, rfl, hip, ?_⟩
  rcases hcause rfl with ⟨hnone, -⟩ | hhinders
  · exact absurd hnone (by decide +kernel)
  · exact hhinders

end EightBit
