/-
  EightBit.Proofs.Machine.Arithmetic
  ──────────────────────────────────
  **ARITHMETIC ON EIGHT BITS.**

  The arithmetic unit computes on words of 32 bits and folds what it gets.  A
  program sees bytes only, and for it the unit is one of eight bits: sums wrap,
  a rotation stays within the byte, a shift fills up with zeros.  One thing shows
  that more was computed.  The overflow flag looks at bit 7 of the result before
  it is folded, so for that the result is also given as a number.

  Main results:
    • `Word.fold_eq_ofInt`     — folding keeps the residue of the number;
    • `AluOp.operate?_eq_some` — the result and the flags of any operation;
    • `step_calculates`        — what an arithmetic instruction and a comparison
                                 leave behind.
-/
import EightBit.Proofs.Machine.Failure
import Mathlib.Data.Int.Bitwise

namespace EightBit

/-! ## §1. Operations on bytes. -/

/-- `dest op operand` on bytes: arithmetic wraps, and quotient and remainder are
unsigned. -/
def BinaryOp.onBytes (op : BinaryOp) (dest operand : Byte) : Byte :=
  match op with
  | .add => dest + operand
  | .sub => dest - operand
  | .mul => dest * operand
  | .div => dest / operand
  | .mod => dest % operand
  | .and => dest &&& operand
  | .or => dest ||| operand
  | .xor => dest ^^^ operand

/-- The operation on a byte: a rotation turns eight bits by one place, and a shift
drops one bit and brings in a zero. -/
def UnaryOp.onByte (op : UnaryOp) (dest : Byte) : Byte :=
  match op with
  | .inc => dest + 1
  | .dec => dest - 1
  | .not => ~~~dest
  | .rol => ⟨dest.toBitVec.rotateLeft 1⟩
  | .ror => ⟨dest.toBitVec.rotateRight 1⟩
  | .shl => dest <<< 1
  | .shr => dest >>> 1

/-- The operation on bytes; a one-operand operation does not look at `operand`. -/
def AluOp.onBytes (op : AluOp) (dest operand : Byte) : Byte :=
  match op with
  | .binary op => op.onBytes dest operand
  | .unary op => op.onByte dest

/-! ## §2. Results as numbers. -/

/-- `dest op operand` as a number, of any size and sign. -/
def BinaryOp.exact (op : BinaryOp) (dest operand : Byte) : Int :=
  match op with
  | .add => dest.toNat + operand.toNat
  | .sub => dest.toNat - operand.toNat
  | .mul => dest.toNat * operand.toNat
  | .div => (dest.toNat / operand.toNat : Nat)
  | .mod => (dest.toNat % operand.toNat : Nat)
  | .and => (dest.toNat &&& operand.toNat : Nat)
  | .or => (dest.toNat ||| operand.toNat : Nat)
  | .xor => (dest.toNat ^^^ operand.toNat : Nat)

/-- The operation as a number: a rotation to the left keeps the bit that it turns
out of the byte, as well as bringing it in below. -/
def UnaryOp.exact (op : UnaryOp) (dest : Byte) : Int :=
  match op with
  | .inc => dest.toNat + 1
  | .dec => dest.toNat - 1
  | .not => -dest.toNat - 1
  | .rol => (2 * dest.toNat + dest.toNat / 128 : Nat)
  | .ror => (dest.toNat / 2 + 128 * (dest.toNat % 2) : Nat)
  | .shl => (2 * dest.toNat : Nat)
  | .shr => (dest.toNat / 2 : Nat)

def AluOp.exact (op : AluOp) (dest operand : Byte) : Int :=
  match op with
  | .binary op => op.exact dest operand
  | .unary op => op.exact dest

/-- The flags after the operation: zero and sign look at the byte, overflow at bit 7
of the number against bit 7 of the destination, and the interrupt flag is kept. -/
def AluOp.flags (op : AluOp) (dest operand : Byte) (f : Flags) : Flags where
  zero := op.onBytes dest operand == 0
  sign := 0x80 ≤ op.onBytes dest operand
  overflow := (op.exact dest operand).testBit 7 != (dest.toNat : Int).testBit 7
  interrupt := f.interrupt

/-! ## §3. Words. -/

theorem Byte.toNat_ofInt (i : Int) : (ofInt i).toNat = (i % 256).toNat :=
  UInt8.toNat_ofNat_of_lt (show (i % 256).toNat < 256 by omega)

theorem Byte.ofInt_toNat (b : Byte) : ofInt b.toNat = b := by
  have hb := b.toNat_lt
  rw [← UInt8.toNat_inj, toNat_ofInt]
  omega

theorem Byte.toInt_toWord (b : Byte) : b.toWord.toInt = b.toNat := by
  have hb := b.toNat_lt
  have hword := b.toNat_toWord
  rw [BitVec.toInt_eq_toNat_of_lt (by omega), hword]

/-- A word whose number fits is that number. -/
theorem Word.bmod_eq_self {i : Int} (lo : -65536 ≤ i) (hi : i ≤ 65536) : i.bmod (2 ^ 32) = i :=
  Int.bmod_eq_of_le (by omega) (by omega)

/-- Folding keeps the residue of the number. -/
theorem Word.fold_eq_ofInt (w : Word) : w.fold = Byte.ofInt w.toInt := by
  have hbyte : (w.setWidth 8).toNat = w.toNat % 256 := BitVec.toNat_setWidth 8 w
  rw [← UInt8.toNat_inj, fold, UInt8.toNat_ofBitVec, hbyte, Byte.toNat_ofInt,
    BitVec.toInt_eq_toNat_cond]
  split <;> omega

/-- Bit 7 of the word is bit 7 of the number in two's complement. -/
theorem Word.bit7_eq_testBit (w : Word) : w.bit7 = w.toInt.testBit 7 := by
  have hlt : w.toNat < 2 ^ 32 := w.isLt
  rw [bit7, BitVec.getLsbD, BitVec.toInt_eq_toNat_cond]
  split
  · rfl
  · -- a negative number has the bits of its complement turned over
    have hneg : (w.toNat : Int) - (2 ^ 32 : Nat) = Int.negSucc (2 ^ 32 - (w.toNat + 1)) := by
      omega
    have hbits := Nat.testBit_two_pow_sub_succ hlt 7
    rw [hneg, Int.testBit, hbits]
    simp

/-! ## §4. Every operation. -/

theorem Word.eq_of_divided {q : Word → Word → Word} {dest operand w : Word}
    (h : divided q dest operand = some w) : w = q dest operand := by
  unfold divided at h
  split at h
  · exact absurd h (by simp)
  · exact (Option.some.inj h).symm

/-- No operation on two bytes leaves the word: its number is the exact result. -/
theorem BinaryOp.toInt_eval? {op : BinaryOp} {dest operand : Byte} {w : Word}
    (h : op.eval? dest.toWord operand.toWord = some w) : w.toInt = op.exact dest operand := by
  have hd := dest.toNat_lt
  have ho := operand.toNat_lt
  cases op with
  | add =>
    obtain rfl := Option.some.inj h
    rw [BitVec.toInt_add, Byte.toInt_toWord, Byte.toInt_toWord]
    exact Word.bmod_eq_self (by omega) (by omega)
  | sub =>
    obtain rfl := Option.some.inj h
    rw [BitVec.toInt_sub, Byte.toInt_toWord, Byte.toInt_toWord]
    exact Word.bmod_eq_self (by omega) (by omega)
  | mul =>
    obtain rfl := Option.some.inj h
    have hle : dest.toNat * operand.toNat ≤ 255 * 255 := Nat.mul_le_mul (by omega) (by omega)
    rw [BitVec.toInt_mul, Byte.toInt_toWord, Byte.toInt_toWord]
    exact Word.bmod_eq_self (by omega) (by omega)
  | div =>
    obtain rfl := Word.eq_of_divided h
    have hle : dest.toNat / operand.toNat ≤ dest.toNat := Nat.div_le_self _ _
    rw [BitVec.toInt_sdiv, Byte.toInt_toWord, Byte.toInt_toWord, ← Int.ofNat_tdiv, exact]
    generalize dest.toNat / operand.toNat = q at hle
    exact Word.bmod_eq_self (by omega) (by omega)
  | mod =>
    obtain rfl := Word.eq_of_divided h
    rw [BitVec.toInt_srem, Byte.toInt_toWord, Byte.toInt_toWord, ← Int.ofNat_tmod]
    rfl
  | and =>
    -- a bitwise operation on words is the operation on their bytes
    obtain rfl := Option.some.inj h
    have hword : dest.toWord &&& operand.toWord = (dest &&& operand).toWord :=
      BitVec.setWidth_and.symm
    rw [hword, Byte.toInt_toWord, UInt8.toNat_and]
    rfl
  | or =>
    obtain rfl := Option.some.inj h
    have hword : dest.toWord ||| operand.toWord = (dest ||| operand).toWord :=
      BitVec.setWidth_or.symm
    rw [hword, Byte.toInt_toWord, UInt8.toNat_or]
    rfl
  | xor =>
    obtain rfl := Option.some.inj h
    have hword : dest.toWord ^^^ operand.toWord = (dest ^^^ operand).toWord :=
      BitVec.setWidth_xor.symm
    rw [hword, Byte.toInt_toWord, UInt8.toNat_xor]
    rfl

theorem UnaryOp.toInt_eval (op : UnaryOp) (dest : Byte) :
    (op.eval dest.toWord).toInt = op.exact dest := by
  have h : ∀ n < 256, (op.eval (Byte.toWord (UInt8.ofNat n))).toInt = op.exact (UInt8.ofNat n) := by
    cases op <;> decide +kernel
  simpa using h dest.toNat dest.toNat_lt

/-- Quotients, remainders and bitwise results stay within the byte. -/
theorem BinaryOp.exact_eq_toNat {op : BinaryOp} (h : op ∉ [.add, .sub, .mul])
    (dest operand : Byte) : op.exact dest operand = (op.onBytes dest operand).toNat := by
  cases op with
  | add | sub | mul => exact absurd h (by simp)
  | div => rw [exact, onBytes, UInt8.toNat_div]
  | mod => rw [exact, onBytes, UInt8.toNat_mod]
  | and => rw [exact, onBytes, UInt8.toNat_and]
  | or => rw [exact, onBytes, UInt8.toNat_or]
  | xor => rw [exact, onBytes, UInt8.toNat_xor]

/-- The byte of the number is the operation on bytes. -/
theorem BinaryOp.ofInt_exact (op : BinaryOp) (dest operand : Byte) :
    Byte.ofInt (op.exact dest operand) = op.onBytes dest operand := by
  by_cases h : op ∈ [.add, .sub, .mul]
  · have hd := dest.toNat_lt
    have ho := operand.toNat_lt
    rw [← UInt8.toNat_inj, Byte.toNat_ofInt]
    cases op with
    | add =>
      rw [exact, onBytes, UInt8.toNat_add]
      omega
    | sub =>
      rw [exact, onBytes, UInt8.toNat_sub]
      omega
    | mul =>
      rw [exact, onBytes, UInt8.toNat_mul]
      omega
    | div | mod | and | or | xor => exact absurd h (by simp)
  · rw [exact_eq_toNat h, Byte.ofInt_toNat]

theorem UnaryOp.ofInt_exact (op : UnaryOp) (dest : Byte) :
    Byte.ofInt (op.exact dest) = op.onByte dest := by
  have h : ∀ n < 256, Byte.ofInt (op.exact (UInt8.ofNat n)) = op.onByte (UInt8.ofNat n) := by
    cases op <;> decide +kernel
  simpa using h dest.toNat dest.toNat_lt

/-- **Every operation.**  Where it has a result, this is the operation on bytes, and
the flags are those of the operation. -/
theorem AluOp.operate?_eq_some {op : AluOp} {operand dest b : Byte} {f f' : Flags}
    (h : op.operate? operand dest f = some (b, f')) :
    b = op.onBytes dest operand ∧ f' = op.flags dest operand f := by
  obtain ⟨w, hw, heq⟩ := Option.map_eq_some_iff.1 h
  obtain ⟨rfl, rfl⟩ := Prod.mk.inj heq
  have hexact : w.toInt = op.exact dest operand := by
    cases op with
    | binary op => exact BinaryOp.toInt_eval? hw
    | unary op =>
      obtain rfl := Option.some.inj hw
      exact op.toInt_eval dest
  have hbyte : w.fold = op.onBytes dest operand := by
    rw [Word.fold_eq_ofInt, hexact]
    cases op with
    | binary op => exact op.ofInt_exact dest operand
    | unary op => exact op.ofInt_exact dest
  refine ⟨hbyte, ?_⟩
  rw [Flags.after, flags, hbyte, Word.bit7_eq_testBit, Word.bit7_eq_testBit, hexact,
    Byte.toInt_toWord]

/-! ## §5. Instructions. -/

/-- The operation of an opcode that keeps its result. -/
def Opcode.alu? : Opcode → Option AluOp
  | .binaryRegister op | .binaryNumber op => some (.binary op)
  | .unary op => some (.unary op)
  | _ => none

namespace Core

/-- **The second operand** of an instruction: what is in the register that it names,
the number that stands in it, or the byte at the address that it names.  For a
one-operand instruction any byte will do. -/
inductive SecondOperand (c : Core) : Opcode → Byte → Prop
  | binaryRegister {op : BinaryOp} {source : Register} (h : c.fetch 2 = .ok source.code) :
    SecondOperand c (.binaryRegister op) (c.registers.get source)
  | binaryNumber {op : BinaryOp} {b : Byte} (h : c.fetch 2 = .ok b) :
    SecondOperand c (.binaryNumber op) b
  | unary {op : UnaryOp} {b : Byte} : SecondOperand c (.unary op) b
  | compareRegister {right : Register} (h : c.fetch 2 = .ok right.code) :
    SecondOperand c .compareRegister (c.registers.get right)
  | compareNumber {b : Byte} (h : c.fetch 2 = .ok b) : SecondOperand c .compareNumber b
  | compareDirect {address : Byte} (h : c.fetch 2 = .ok address) :
    SecondOperand c .compareDirect (c.memory.get address)

/-- **The operation is carried out** on the register and the byte, by an instruction of
so many bytes: the register has the result, the flags tell of it, and nothing else
has changed but the address of the next instruction. -/
structure Calculated (c : Core) (op : AluOp) (dest : Register) (operand : Byte) (width : Nat)
    (c' : Core) : Prop where
  result : c'.registers.get dest = op.onBytes (c.registers.get dest) operand
  others : ∀ r, r ≠ dest → c'.registers.get r = c.registers.get r
  memory : c'.memory = c.memory
  sp : c'.registers.sp = c.registers.sp
  flags : c'.registers.sr = op.flags (c.registers.get dest) operand c.registers.sr
  ip : c'.registers.ip.toNat = c.registers.ip.toNat + width

/-- **The register is compared** to the byte: the flags are those of the difference, and
nothing else has changed but the address of the next instruction. -/
structure Compared (c : Core) (left : Register) (right : Byte) (width : Nat) (c' : Core) :
    Prop where
  registers : ∀ r, c'.registers.get r = c.registers.get r
  memory : c'.memory = c.memory
  sp : c'.registers.sp = c.registers.sp
  flags : c'.registers.sr = (AluOp.binary .sub).flags (c.registers.get left) right c.registers.sr
  ip : c'.registers.ip.toNat = c.registers.ip.toNat + width

variable {c : Core} {dest left : Register} {operand right b next : Byte} {f : Flags} {width : Nat}

theorem calculated_of_operate {op : AluOp}
    (hop : op.operate? operand (c.registers.get dest) c.registers.sr = some (b, f))
    (hnext : c.successor width = .ok next) :
    c.Calculated op dest operand width (c.applyAll [.sr f, .register dest b, .ip next]) := by
  obtain ⟨rfl, rfl⟩ := AluOp.operate?_eq_some hop
  have hget : ∀ r, (c.applyAll [.sr (op.flags (c.registers.get dest) operand c.registers.sr),
      .register dest (op.onBytes (c.registers.get dest) operand), .ip next]).registers.get r
      = if r = dest then op.onBytes (c.registers.get dest) operand else c.registers.get r := by
    intro r
    cases r <;> cases dest <;> rfl
  refine ⟨?_, fun r hr => ?_, rfl, ?_, ?_, successor_eq_ok_iff.1 hnext⟩
  · rw [hget, if_pos rfl]
  · rw [hget, if_neg hr]
  · exact Registers.sp_set _ dest _
  · exact Registers.sr_set _ dest _

theorem compared_of_operate
    (hop : (AluOp.binary .sub).operate? right (c.registers.get left) c.registers.sr = some (b, f))
    (hnext : c.successor width = .ok next) :
    c.Compared left right width (c.applyAll [.sr f, .ip next]) := by
  obtain ⟨-, rfl⟩ := AluOp.operate?_eq_some hop
  refine ⟨fun r => ?_, rfl, rfl, rfl, successor_eq_ok_iff.1 hnext⟩
  cases r <;> rfl

end Core

/-- **Arithmetic on eight bits.**  A step that executes an arithmetic instruction and
succeeds carries out its operation on bytes.  A step that executes a comparison
sets the flags as the difference would, and leaves registers and memory alone. -/
theorem step_calculates {c : Core} {input : InputSignals} {op : Opcode} {s : Step}
    (hop : c.Executes input op) (hstep : c.step input = .ok s) :
    (∀ a, op.alu? = some a → ∃ dest operand, c.fetch 1 = .ok dest.code
      ∧ c.SecondOperand op operand ∧ c.Calculated a dest operand op.width s.core)
    ∧ (op ∈ [.compareRegister, .compareNumber, .compareDirect] → ∃ left right,
      c.fetch 1 = .ok left.code ∧ c.SecondOperand op right
        ∧ c.Compared left right op.width s.core) := by
  obtain ⟨e, hperforms, rfl⟩ := hop.performs hstep
  constructor
  · intro a ha
    cases hperforms with
    | binaryRegister hdest hsource hcalc hnext =>
      obtain rfl := Option.some.inj ha
      rw [Opcode.width_binaryRegister]
      exact ⟨_, _, hdest, .binaryRegister hsource, Core.calculated_of_operate hcalc hnext⟩
    | binaryNumber hdest hoperand hcalc hnext =>
      obtain rfl := Option.some.inj ha
      rw [Opcode.width_binaryNumber]
      exact ⟨_, _, hdest, .binaryNumber hoperand, Core.calculated_of_operate hcalc hnext⟩
    | unary hdest hcalc hnext =>
      obtain rfl := Option.some.inj ha
      rw [Opcode.width_unary]
      exact ⟨_, _, hdest, .unary, Core.calculated_of_operate hcalc hnext⟩
    | _ => exact absurd ha (by simp [Opcode.alu?])
  · intro hcompare
    cases hperforms with
    | compareRegister hleft hright hcalc hnext =>
      exact ⟨_, _, hleft, .compareRegister hright, Core.compared_of_operate hcalc hnext⟩
    | compareNumber hleft hright hcalc hnext =>
      exact ⟨_, _, hleft, .compareNumber hright, Core.compared_of_operate hcalc hnext⟩
    | compareDirect hleft haddress hcalc hnext =>
      exact ⟨_, _, hleft, .compareDirect haddress, Core.compared_of_operate hcalc hnext⟩
    | _ => exact absurd hcompare (by simp)

/-- A register is multiplied by itself, and then compared to a number. -/
def square : Core :=
  ⟨.ofBytes [0xA2, 0x00, 0x00, 0xDB, 0x00, 0x01], { Registers.initial with al := 0x90 }⟩

/-- The square is 0x5100.  Its byte is zero, and bit 7 of the number is clear, where
that of the destination was set; the difference to 1 is then negative. -/
theorem step_calculates_square : ∃ s₁ s₂,
    square.Executes .none (.binaryRegister .mul) ∧ square.step .none = .ok s₁
    ∧ (∃ dest operand, square.fetch 1 = .ok dest.code
      ∧ square.SecondOperand (.binaryRegister .mul) operand
      ∧ square.Calculated (.binary .mul) dest operand 3 s₁.core)
    ∧ s₁.core.registers.al = 0x00 ∧ s₁.core.registers.sr = ⟨true, true, false, false⟩
    ∧ s₁.core.Executes .none .compareNumber ∧ s₁.core.step .none = .ok s₂
    ∧ (∃ left right, s₁.core.fetch 1 = .ok left.code ∧ s₁.core.SecondOperand .compareNumber right
      ∧ s₁.core.Compared left right 3 s₂.core)
    ∧ s₂.core.registers.sr = ⟨false, true, true, false⟩ := by
  have hsteps : ((square.step .none).toOption.bind fun s₁ =>
      if s₁.core.Executes .none .compareNumber then
        (s₁.core.step .none).toOption.map fun s₂ =>
          (s₁.core.registers.al, s₁.core.registers.sr, s₂.core.registers.sr)
      else none) = some (0x00, ⟨true, true, false, false⟩, ⟨false, true, true, false⟩) := by
    decide +kernel
  obtain ⟨s₁, h₁, hsteps⟩ := Option.bind_eq_some_iff.1 hsteps
  rw [toOption_eq_some_iff] at h₁
  split at hsteps
  · next hcompare =>
    obtain ⟨s₂, h₂, hvalues⟩ := exists_of_toOption_map hsteps
    simp only [Prod.mk.injEq] at hvalues
    obtain ⟨hal, hsr, hsr₂⟩ := hvalues
    have hmul : square.Executes .none (.binaryRegister .mul) := by decide +kernel
    exact ⟨s₁, s₂, hmul, h₁, (step_calculates hmul h₁).1 _ rfl, hal, hsr, hcompare, h₂,
      (step_calculates hcompare h₂).2 (by simp), hsr₂⟩
  · exact absurd hsteps (by simp)

end EightBit
