/-
  EightBit.Proofs.Machine.Effect
  ──────────────────────────────
  **WHAT A SUCCESSFUL STEP DOES.**

  The program of an instruction fetches, looks up and computes, and may fail
  at every one of these.  Read from its end it is a rule: if all of this went
  well, the effect is this one.  There is a rule for each way in which an
  instruction can succeed, with all that has to be so for it, and whatever is
  said of successful steps is said of the rules.  And every rule is met: it asks
  for all that the program needs.

  Main results:
    • `performs_of_exec`       — an instruction has an effect by one of its rules;
    • `exec_of_performs`       — every rule is met;
    • `effect_eq_ok_iff_steps` — a step takes the interrupt or executes an opcode.
-/
import EightBit.Proofs.Machine.Execution

namespace EightBit

/-! ## §1. When the parts of an instruction succeed. -/

theorem Register.ofCode?_eq_some_iff {code : Byte} {r : Register} :
    ofCode? code = some r ↔ code = r.code := by
  constructor
  · exact fun h => (code_of_ofCode? h).symm
  · rintro rfl
    exact ofCode?_code r

namespace Core

section Parts

variable {c : Core} {width : Nat} {next code b : Byte}

theorem successor_eq_ok_iff :
    c.successor width = .ok next ↔ next.toNat = c.registers.ip.toNat + width := by
  rw [← Byte.ofNat?_eq_some_iff, successor]
  cases Byte.ofNat? (c.registers.ip.toNat + width) <;> simp

theorem register_eq_ok_iff {r : Register} : register code = .ok r ↔ code = r.code := by
  rw [← Register.ofCode?_eq_some_iff, register]
  cases Register.ofCode? code <;> simp

theorem content_eq_ok_iff :
    c.content code = .ok b ↔ ∃ r : Register, code = r.code ∧ c.registers.get r = b := by
  simp only [content, map_eq_ok_iff, register_eq_ok_iff]

theorem operate_eq_ok_iff {op : AluOp} {operand dest : Byte} {result : Byte × Flags} :
    c.operate op operand dest = .ok result
      ↔ op.operate? operand dest c.registers.sr = some result := by
  unfold operate
  cases op.operate? operand dest c.registers.sr <;> simp

theorem push_eq_ok_iff {ws : List Write} : c.push b = .ok ws ↔
    c.registers.sp ≠ 0 ∧ ws = [.memory c.registers.sp b, .sp (c.registers.sp - 1)] := by
  unfold push
  by_cases h : c.registers.sp = 0 <;> simp [h, eq_comm]

theorem pop_eq_ok_iff {top : Byte × Write} : c.pop = .ok top ↔ c.registers.sp < stackBase
    ∧ top = (c.memory.get (c.registers.sp + 1), .sp (c.registers.sp + 1)) := by
  unfold pop
  by_cases h : stackBase ≤ c.registers.sp
  · simp [h, UInt8.not_lt.2 h]
  · simp [h, UInt8.not_le.1 h, eq_comm]

theorem enter_eq_ok_iff {vector : Byte} {ws : List Write} : c.enter b vector = .ok ws ↔
    c.registers.sp ≠ 0 ∧ ws = [.memory c.registers.sp b, .sp (c.registers.sp - 1),
      .ip ((c.memory.set c.registers.sp b).get vector)] := by
  simp only [enter, map_eq_ok_iff, push_eq_ok_iff]
  constructor
  · rintro ⟨_, ⟨hsp, rfl⟩, rfl⟩
    exact ⟨hsp, rfl⟩
  · rintro ⟨hsp, rfl⟩
    exact ⟨_, ⟨hsp, rfl⟩, rfl⟩

end Parts

/-! ## §2. The rules. -/

/-- **The rules.**  An instruction with the opcode, executed while `datum` is
offered, has the effect. -/
inductive Performs (c : Core) (datum : Option InputDatum) : Opcode → Effect → Prop
  | halt : Performs c datum .halt ⟨[], { OutputSignals.none with halted := true }⟩
  | binaryRegister {op : BinaryOp} {dest source : Register} {b next : Byte} {flags : Flags}
      (hdest : c.fetch 1 = .ok dest.code) (hsource : c.fetch 2 = .ok source.code)
      (hop : (AluOp.binary op).operate? (c.registers.get source) (c.registers.get dest)
        c.registers.sr = some (b, flags)) (hnext : c.successor 3 = .ok next) :
      Performs c datum (.binaryRegister op) (.silent [.sr flags, .register dest b, .ip next])
  | binaryNumber {op : BinaryOp} {dest : Register} {operand b next : Byte} {flags : Flags}
      (hdest : c.fetch 1 = .ok dest.code) (hoperand : c.fetch 2 = .ok operand)
      (hop : (AluOp.binary op).operate? operand (c.registers.get dest)
        c.registers.sr = some (b, flags)) (hnext : c.successor 3 = .ok next) :
      Performs c datum (.binaryNumber op) (.silent [.sr flags, .register dest b, .ip next])
  | unary {op : UnaryOp} {dest : Register} {b next : Byte} {flags : Flags}
      (hdest : c.fetch 1 = .ok dest.code)
      (hop : (AluOp.unary op).operate? 0 (c.registers.get dest) c.registers.sr = some (b, flags))
      (hnext : c.successor 2 = .ok next) :
      Performs c datum (.unary op) (.silent [.sr flags, .register dest b, .ip next])
  | compareRegister {left right : Register} {b next : Byte} {flags : Flags}
      (hleft : c.fetch 1 = .ok left.code) (hright : c.fetch 2 = .ok right.code)
      (hop : (AluOp.binary .sub).operate? (c.registers.get right) (c.registers.get left)
        c.registers.sr = some (b, flags)) (hnext : c.successor 3 = .ok next) :
      Performs c datum .compareRegister (.silent [.sr flags, .ip next])
  | compareNumber {left : Register} {right b next : Byte} {flags : Flags}
      (hleft : c.fetch 1 = .ok left.code) (hright : c.fetch 2 = .ok right)
      (hop : (AluOp.binary .sub).operate? right (c.registers.get left)
        c.registers.sr = some (b, flags)) (hnext : c.successor 3 = .ok next) :
      Performs c datum .compareNumber (.silent [.sr flags, .ip next])
  | compareDirect {left : Register} {address b next : Byte} {flags : Flags}
      (hleft : c.fetch 1 = .ok left.code) (haddress : c.fetch 2 = .ok address)
      (hop : (AluOp.binary .sub).operate? (c.memory.get address) (c.registers.get left)
        c.registers.sr = some (b, flags)) (hnext : c.successor 3 = .ok next) :
      Performs c datum .compareDirect (.silent [.sr flags, .ip next])
  | jump {condition : Condition} {distance next : Byte} (hdistance : c.fetch 1 = .ok distance)
      (hnext : (if condition.holds c.registers.sr then c.jumpTarget distance else c.successor 2)
        = .ok next) :
      Performs c datum (.jump condition) (.silent [.ip next])
  | call {target back : Byte} (htarget : c.fetch 1 = .ok target)
      (hback : c.successor 2 = .ok back) (hsp : c.registers.sp ≠ 0) :
      Performs c datum .call
        (.silent [.memory c.registers.sp back, .sp (c.registers.sp - 1), .ip target])
  | int {vector back : Byte} (hvector : c.fetch 1 = .ok vector)
      (hback : c.successor 2 = .ok back) (hsp : c.registers.sp ≠ 0) :
      Performs c datum .int
        (.silent [.memory c.registers.sp back, .sp (c.registers.sp - 1),
          .ip ((c.memory.set c.registers.sp back).get vector)])
  | ret (hsp : c.registers.sp < stackBase) :
      Performs c datum .ret
        (.silent [.sp (c.registers.sp + 1), .ip (c.memory.get (c.registers.sp + 1))])
  | iret (hsp : c.registers.sp < stackBase) :
      Performs c datum .iret
        (.silent [.sp (c.registers.sp + 1), .ip (c.memory.get (c.registers.sp + 1))])
  | loadNumber {dest : Register} {b next : Byte} (hdest : c.fetch 1 = .ok dest.code)
      (hb : c.fetch 2 = .ok b) (hnext : c.successor 3 = .ok next) :
      Performs c datum .loadNumber (.silent [.register dest b, .ip next])
  | loadDirect {dest : Register} {address next : Byte} (hdest : c.fetch 1 = .ok dest.code)
      (haddress : c.fetch 2 = .ok address) (hnext : c.successor 3 = .ok next) :
      Performs c datum .loadDirect (.silent [.register dest (c.memory.get address), .ip next])
  | loadIndirect {dest pointer : Register} {next : Byte} (hdest : c.fetch 1 = .ok dest.code)
      (hpointer : c.fetch 2 = .ok pointer.code) (hnext : c.successor 3 = .ok next) :
      Performs c datum .loadIndirect
        (.silent [.register dest (c.memory.get (c.registers.get pointer)), .ip next])
  | storeDirect {address next : Byte} {source : Register} (haddress : c.fetch 1 = .ok address)
      (hsource : c.fetch 2 = .ok source.code) (hnext : c.successor 3 = .ok next) :
      Performs c datum .storeDirect
        (.silent [.memory address (c.registers.get source), .ip next])
  | storeIndirect {pointer source : Register} {next : Byte}
      (hpointer : c.fetch 1 = .ok pointer.code) (hsource : c.fetch 2 = .ok source.code)
      (hnext : c.successor 3 = .ok next) :
      Performs c datum .storeIndirect
        (.silent [.memory (c.registers.get pointer) (c.registers.get source), .ip next])
  | push {source : Register} {next : Byte} (hsource : c.fetch 1 = .ok source.code)
      (hsp : c.registers.sp ≠ 0) (hnext : c.successor 2 = .ok next) :
      Performs c datum .push
        (.silent [.memory c.registers.sp (c.registers.get source), .sp (c.registers.sp - 1),
          .ip next])
  | pop {dest : Register} {next : Byte} (hdest : c.fetch 1 = .ok dest.code)
      (hsp : c.registers.sp < stackBase) (hnext : c.successor 2 = .ok next) :
      Performs c datum .pop
        (.silent [.sp (c.registers.sp + 1),
          .register dest (c.memory.get (c.registers.sp + 1)), .ip next])
  | pushf {next : Byte} (hsp : c.registers.sp ≠ 0) (hnext : c.successor 1 = .ok next) :
      Performs c datum .pushf
        (.silent [.memory c.registers.sp c.registers.sr.toByte, .sp (c.registers.sp - 1),
          .ip next])
  | popf {next : Byte} (hsp : c.registers.sp < stackBase) (hnext : c.successor 1 = .ok next) :
      Performs c datum .popf
        (.silent [.sp (c.registers.sp + 1),
          .sr (.ofByte (c.memory.get (c.registers.sp + 1))), .ip next])
  /-- Nothing is offered on the channel. -/
  | wait {channel : Byte} (hchannel : c.channel = .ok channel)
      (hdatum : ∀ content, datum ≠ some ⟨content, channel⟩) :
      Performs c datum .input ⟨[], { OutputSignals.none with waiting := some channel }⟩
  | skip {channel next : Byte} (hchannel : c.channel = .ok channel)
      (hdatum : datum = some ⟨InputDatum.skip, channel⟩) (hnext : c.successor 2 = .ok next) :
      Performs c datum .input (.silent [.ip next])
  | receive {channel b next : Byte} {content : UInt16} (hchannel : c.channel = .ok channel)
      (hdatum : datum = some ⟨content, channel⟩) (hskip : content ≠ InputDatum.skip)
      (hb : b.toNat = content.toNat) (hnext : c.successor 2 = .ok next) :
      Performs c datum .input (.silent [.register .al b, .ip next])
  | output {channel next : Byte} (hchannel : c.channel = .ok channel)
      (hnext : c.successor 2 = .ok next) :
      Performs c datum .output
        ⟨[.ip next], { OutputSignals.none with datum := some ⟨c.registers.al, channel⟩ }⟩
  | sti {next : Byte} (hnext : c.successor 1 = .ok next) :
      Performs c datum .sti (.silent [.sr { c.registers.sr with interrupt := true }, .ip next])
  | cli {next : Byte} (hnext : c.successor 1 = .ok next) :
      Performs c datum .cli (.silent [.sr { c.registers.sr with interrupt := false }, .ip next])
  | clo {next : Byte} (hnext : c.successor 1 = .ok next) :
      Performs c datum .clo ⟨[.ip next], { OutputSignals.none with closeWindows := true }⟩
  | nop {next : Byte} (hnext : c.successor 1 = .ok next) :
      Performs c datum .nop (.silent [.ip next])

/-! ## §3. Every instruction. -/

section Instructions

variable {c : Core} {datum : Option InputDatum} {code b channel : Byte} {e : Effect}

theorem calculate_eq_ok_iff {op : AluOp} {operand : Byte} {width : Nat} :
    c.calculate op operand code width = .ok e ↔ ∃ dest b flags next, code = dest.code
      ∧ op.operate? operand (c.registers.get dest) c.registers.sr = some (b, flags)
      ∧ c.successor width = .ok next ∧ e = .silent [.sr flags, .register dest b, .ip next] := by
  simp only [calculate, bind_eq_ok_iff, register_eq_ok_iff, operate_eq_ok_iff, Prod.exists,
    pure_eq_ok_iff]
  grind

theorem compare_eq_ok_iff : c.compare code b = .ok e ↔ ∃ left result flags next, code = left.code
    ∧ (AluOp.binary .sub).operate? b (c.registers.get left) c.registers.sr = some (result, flags)
    ∧ c.successor 3 = .ok next ∧ e = .silent [.sr flags, .ip next] := by
  simp only [compare, bind_eq_ok_iff, content_eq_ok_iff, operate_eq_ok_iff, Prod.exists,
    pure_eq_ok_iff]
  grind

theorem load_eq_ok_iff : c.load code b = .ok e ↔ ∃ dest next, code = dest.code
    ∧ c.successor 3 = .ok next ∧ e = .silent [.register dest b, .ip next] := by
  simp only [load, bind_eq_ok_iff, register_eq_ok_iff, pure_eq_ok_iff]
  grind

theorem store_eq_ok_iff {address : Byte} : c.store address code = .ok e ↔ ∃ source next,
    code = source.code ∧ c.successor 3 = .ok next
      ∧ e = .silent [.memory address (c.registers.get source), .ip next] := by
  simp only [store, bind_eq_ok_iff, content_eq_ok_iff, pure_eq_ok_iff]
  grind

/-- An input instruction waits, is told to go on, or takes a byte. -/
theorem performs_of_receive (hchannel : c.channel = .ok channel)
    (h : c.receive channel datum = .ok e) : c.Performs datum .input e := by
  unfold receive at h
  split at h
  · next hnone =>
    -- what is offered on other channels does not count
    injection h with h
    subst h
    refine .wait hchannel fun content hdatum => ?_
    rw [hdatum] at hnone
    simp at hnone
  · next d hsome =>
    obtain ⟨hdatum, hd⟩ := Option.filter_eq_some_iff.1 hsome
    obtain rfl : d.channel = channel := of_decide_eq_true hd
    split at h
    · next hskip =>
      obtain ⟨next, hnext, rfl⟩ := map_eq_ok_iff.1 h
      exact .skip hchannel (by rw [hdatum, ← hskip]) hnext
    · next hskip =>
      split at h
      · exact absurd h (by simp)
      · next b hb =>
        obtain ⟨next, hnext, rfl⟩ := map_eq_ok_iff.1 h
        exact .receive hchannel hdatum hskip (Byte.ofNat?_eq_some_iff.1 hb) hnext

/-- **Inversion.**  An instruction that succeeds does so by one of the rules. -/
theorem performs_of_exec {op : Opcode} (h : c.exec datum op = .ok e) : c.Performs datum op e := by
  -- in each case the program is read from its end: every part of it succeeded
  cases op with
  | halt =>
    injection h with h
    subst h
    exact .halt
  | binaryRegister op =>
    simp only [exec, bind_eq_ok_iff, content_eq_ok_iff, calculate_eq_ok_iff] at h
    obtain ⟨_, hdest, _, hsource, _, ⟨source, rfl, rfl⟩, dest, b, flags, next, rfl, hop, hnext,
      rfl⟩ := h
    exact .binaryRegister hdest hsource hop hnext
  | binaryNumber op =>
    simp only [exec, bind_eq_ok_iff, calculate_eq_ok_iff] at h
    obtain ⟨_, hdest, operand, hoperand, dest, b, flags, next, rfl, hop, hnext, rfl⟩ := h
    exact .binaryNumber hdest hoperand hop hnext
  | unary op =>
    simp only [exec, bind_eq_ok_iff, calculate_eq_ok_iff] at h
    obtain ⟨_, hdest, dest, b, flags, next, rfl, hop, hnext, rfl⟩ := h
    exact .unary hdest hop hnext
  | compareRegister =>
    simp only [exec, bind_eq_ok_iff, content_eq_ok_iff, compare_eq_ok_iff] at h
    obtain ⟨_, hleft, _, hright, _, ⟨right, rfl, rfl⟩, left, b, flags, next, rfl, hop, hnext,
      rfl⟩ := h
    exact .compareRegister hleft hright hop hnext
  | compareNumber =>
    simp only [exec, bind_eq_ok_iff, compare_eq_ok_iff] at h
    obtain ⟨_, hleft, right, hright, left, b, flags, next, rfl, hop, hnext, rfl⟩ := h
    exact .compareNumber hleft hright hop hnext
  | compareDirect =>
    simp only [exec, bind_eq_ok_iff, compare_eq_ok_iff] at h
    obtain ⟨_, hleft, address, haddress, left, b, flags, next, rfl, hop, hnext, rfl⟩ := h
    exact .compareDirect hleft haddress hop hnext
  | jump condition =>
    obtain ⟨distance, hdistance, -⟩ := bind_eq_ok_iff.1 h
    rw [exec_jump hdistance, map_eq_ok_iff] at h
    obtain ⟨next, hnext, rfl⟩ := h
    exact .jump hdistance hnext
  | call =>
    simp only [exec, bind_eq_ok_iff, push_eq_ok_iff, pure_eq_ok_iff] at h
    obtain ⟨target, htarget, back, hback, _, ⟨hsp, rfl⟩, rfl⟩ := h
    exact .call htarget hback hsp
  | int =>
    simp only [exec, bind_eq_ok_iff, enter_eq_ok_iff, pure_eq_ok_iff] at h
    obtain ⟨vector, hvector, back, hback, _, ⟨hsp, rfl⟩, rfl⟩ := h
    exact .int hvector hback hsp
  | ret =>
    simp only [exec, bind_eq_ok_iff, pop_eq_ok_iff, pure_eq_ok_iff] at h
    obtain ⟨_, ⟨hsp, rfl⟩, rfl⟩ := h
    exact .ret hsp
  | iret =>
    simp only [exec, bind_eq_ok_iff, pop_eq_ok_iff, pure_eq_ok_iff] at h
    obtain ⟨_, ⟨hsp, rfl⟩, rfl⟩ := h
    exact .iret hsp
  | loadNumber =>
    simp only [exec, bind_eq_ok_iff, load_eq_ok_iff] at h
    obtain ⟨_, hdest, b, hb, dest, next, rfl, hnext, rfl⟩ := h
    exact .loadNumber hdest hb hnext
  | loadDirect =>
    simp only [exec, bind_eq_ok_iff, load_eq_ok_iff] at h
    obtain ⟨_, hdest, address, haddress, dest, next, rfl, hnext, rfl⟩ := h
    exact .loadDirect hdest haddress hnext
  | loadIndirect =>
    simp only [exec, bind_eq_ok_iff, content_eq_ok_iff, load_eq_ok_iff] at h
    obtain ⟨_, hdest, _, hpointer, _, ⟨pointer, rfl, rfl⟩, dest, next, rfl, hnext, rfl⟩ := h
    exact .loadIndirect hdest hpointer hnext
  | storeDirect =>
    simp only [exec, bind_eq_ok_iff, store_eq_ok_iff] at h
    obtain ⟨address, haddress, _, hsource, source, next, rfl, hnext, rfl⟩ := h
    exact .storeDirect haddress hsource hnext
  | storeIndirect =>
    simp only [exec, bind_eq_ok_iff, content_eq_ok_iff, store_eq_ok_iff] at h
    obtain ⟨_, hpointer, _, hsource, _, ⟨pointer, rfl, rfl⟩, source, next, rfl, hnext, rfl⟩ := h
    exact .storeIndirect hpointer hsource hnext
  | push =>
    simp only [exec, bind_eq_ok_iff, content_eq_ok_iff, push_eq_ok_iff, pure_eq_ok_iff] at h
    obtain ⟨_, hsource, _, ⟨source, rfl, rfl⟩, _, ⟨hsp, rfl⟩, next, hnext, rfl⟩ := h
    exact .push hsource hsp hnext
  | pop =>
    simp only [exec, bind_eq_ok_iff, register_eq_ok_iff, pop_eq_ok_iff, pure_eq_ok_iff] at h
    obtain ⟨_, hdest, dest, rfl, _, ⟨hsp, rfl⟩, next, hnext, rfl⟩ := h
    exact .pop hdest hsp hnext
  | pushf =>
    simp only [exec, bind_eq_ok_iff, push_eq_ok_iff, pure_eq_ok_iff] at h
    obtain ⟨_, ⟨hsp, rfl⟩, next, hnext, rfl⟩ := h
    exact .pushf hsp hnext
  | popf =>
    simp only [exec, bind_eq_ok_iff, pop_eq_ok_iff, pure_eq_ok_iff] at h
    obtain ⟨_, ⟨hsp, rfl⟩, next, hnext, rfl⟩ := h
    exact .popf hsp hnext
  | input =>
    obtain ⟨channel, hchannel, h⟩ := bind_eq_ok_iff.1 h
    exact performs_of_receive hchannel h
  | output =>
    simp only [exec, bind_eq_ok_iff, pure_eq_ok_iff] at h
    obtain ⟨channel, hchannel, next, hnext, rfl⟩ := h
    exact .output hchannel hnext
  | sti =>
    simp only [exec, bind_eq_ok_iff, pure_eq_ok_iff] at h
    obtain ⟨next, hnext, rfl⟩ := h
    exact .sti hnext
  | cli =>
    simp only [exec, bind_eq_ok_iff, pure_eq_ok_iff] at h
    obtain ⟨next, hnext, rfl⟩ := h
    exact .cli hnext
  | clo =>
    simp only [exec, bind_eq_ok_iff, pure_eq_ok_iff] at h
    obtain ⟨next, hnext, rfl⟩ := h
    exact .clo hnext
  | nop =>
    simp only [exec, bind_eq_ok_iff, pure_eq_ok_iff] at h
    obtain ⟨next, hnext, rfl⟩ := h
    exact .nop hnext

/-- A datum on the channel of the instruction counts. -/
theorem filter_offered (content : UInt16) (channel : Byte) :
    (some (InputDatum.mk content channel)).filter (fun d => d.channel = channel)
      = some ⟨content, channel⟩ :=
  Option.filter_eq_some_iff.2 ⟨rfl, decide_eq_true rfl⟩

theorem receive_skip (c : Core) (channel : Byte) :
    c.receive channel (some ⟨InputDatum.skip, channel⟩)
      = (c.successor 2).map fun next => .silent [.ip next] := by
  simp only [receive, filter_offered, if_true]

theorem receive_byte {content : UInt16} (hskip : content ≠ InputDatum.skip)
    (hb : b.toNat = content.toNat) (channel : Byte) :
    c.receive channel (some ⟨content, channel⟩)
      = (c.successor 2).map fun next => .silent [.register .al b, .ip next] := by
  simp only [receive, filter_offered, hskip, Byte.ofNat?_eq_some_iff.2 hb, if_false]

/-- **Adequacy.**  What a rule says happens: no rule asks for too little. -/
theorem exec_of_performs {op : Opcode} (h : c.Performs datum op e) : c.exec datum op = .ok e := by
  -- in each case what the rule asks for is what the program meets, in order
  cases h with
  | halt => rfl
  | binaryRegister hdest hsource hop hnext =>
    simp only [exec, hdest, hsource, ok_bind, content_code, calculate_eq_ok_iff]
    exact ⟨_, _, _, _, rfl, hop, hnext, rfl⟩
  | binaryNumber hdest hoperand hop hnext =>
    simp only [exec, hdest, hoperand, ok_bind, calculate_eq_ok_iff]
    exact ⟨_, _, _, _, rfl, hop, hnext, rfl⟩
  | unary hdest hop hnext =>
    simp only [exec, hdest, ok_bind, calculate_eq_ok_iff]
    exact ⟨_, _, _, _, rfl, hop, hnext, rfl⟩
  | compareRegister hleft hright hop hnext =>
    simp only [exec, hleft, hright, ok_bind, content_code, compare_eq_ok_iff]
    exact ⟨_, _, _, _, rfl, hop, hnext, rfl⟩
  | compareNumber hleft hright hop hnext =>
    simp only [exec, hleft, hright, ok_bind, compare_eq_ok_iff]
    exact ⟨_, _, _, _, rfl, hop, hnext, rfl⟩
  | compareDirect hleft haddress hop hnext =>
    simp only [exec, hleft, haddress, ok_bind, compare_eq_ok_iff]
    exact ⟨_, _, _, _, rfl, hop, hnext, rfl⟩
  | jump hdistance hnext =>
    rw [exec_jump hdistance, hnext]
    rfl
  | call htarget hback hsp =>
    simp only [exec, htarget, hback, ok_bind, bind_eq_ok_iff, push_eq_ok_iff, pure_eq_ok_iff]
    exact ⟨_, ⟨hsp, rfl⟩, rfl⟩
  | int hvector hback hsp =>
    simp only [exec, hvector, hback, ok_bind, bind_eq_ok_iff, enter_eq_ok_iff, pure_eq_ok_iff]
    exact ⟨_, ⟨hsp, rfl⟩, rfl⟩
  | ret hsp | iret hsp =>
    simp only [exec, bind_eq_ok_iff, pop_eq_ok_iff, pure_eq_ok_iff]
    exact ⟨_, ⟨hsp, rfl⟩, rfl⟩
  | loadNumber hdest hb hnext =>
    simp only [exec, hdest, hb, ok_bind, load_eq_ok_iff]
    exact ⟨_, _, rfl, hnext, rfl⟩
  | loadDirect hdest haddress hnext =>
    simp only [exec, hdest, haddress, ok_bind, load_eq_ok_iff]
    exact ⟨_, _, rfl, hnext, rfl⟩
  | loadIndirect hdest hpointer hnext =>
    simp only [exec, hdest, hpointer, ok_bind, content_code, load_eq_ok_iff]
    exact ⟨_, _, rfl, hnext, rfl⟩
  | storeDirect haddress hsource hnext =>
    simp only [exec, haddress, hsource, ok_bind, store_eq_ok_iff]
    exact ⟨_, _, rfl, hnext, rfl⟩
  | storeIndirect hpointer hsource hnext =>
    simp only [exec, hpointer, hsource, ok_bind, content_code, store_eq_ok_iff]
    exact ⟨_, _, rfl, hnext, rfl⟩
  | push hsource hsp hnext =>
    simp only [exec, hsource, ok_bind, content_code, bind_eq_ok_iff, push_eq_ok_iff,
      pure_eq_ok_iff]
    exact ⟨_, ⟨hsp, rfl⟩, _, hnext, rfl⟩
  | pop hdest hsp hnext =>
    simp only [exec, hdest, ok_bind, register_code, bind_eq_ok_iff, pop_eq_ok_iff,
      pure_eq_ok_iff]
    exact ⟨_, ⟨hsp, rfl⟩, _, hnext, rfl⟩
  | pushf hsp hnext =>
    simp only [exec, bind_eq_ok_iff, push_eq_ok_iff, pure_eq_ok_iff]
    exact ⟨_, ⟨hsp, rfl⟩, _, hnext, rfl⟩
  | popf hsp hnext =>
    simp only [exec, bind_eq_ok_iff, pop_eq_ok_iff, pure_eq_ok_iff]
    exact ⟨_, ⟨hsp, rfl⟩, _, hnext, rfl⟩
  | @wait channel hchannel hdatum =>
    have hnone : datum.filter (fun d => d.channel = channel) = none := by
      rw [Option.filter_eq_none_iff]
      rintro ⟨content, channel'⟩ rfl hd
      obtain rfl : channel' = channel := of_decide_eq_true hd
      exact hdatum content rfl
    rw [exec, hchannel, ok_bind, Core.receive, hnone]
  | skip hchannel hdatum hnext =>
    rw [exec, hchannel, ok_bind, hdatum, receive_skip, hnext]
    rfl
  | receive hchannel hdatum hskip hb hnext =>
    rw [exec, hchannel, ok_bind, hdatum, receive_byte hskip hb, hnext]
    rfl
  | output hchannel hnext =>
    rw [exec, hchannel, ok_bind, hnext]
    rfl
  | sti hnext | cli hnext | clo hnext | nop hnext =>
    rw [exec, hnext]
    rfl

end Instructions

/-! ## §4. Steps. -/

/-- The step takes no interrupt and finds the byte of the opcode. -/
def Executes (c : Core) (input : InputSignals) (op : Opcode) : Prop :=
  c.traps input = false ∧ Opcode.ofByte? (c.memory.get c.registers.ip) = some op

instance (c : Core) (input : InputSignals) (op : Opcode) : Decidable (c.Executes input op) :=
  inferInstanceAs (Decidable (_ ∧ _))

/-- **A step** under the signals has the effect: it takes the interrupt, or
executes an opcode. -/
inductive Steps (c : Core) (input : InputSignals) : Effect → Prop
  | trap (htraps : c.traps input = true) (hsp : c.registers.sp ≠ 0) :
      Steps c input (.silent [.memory c.registers.sp c.registers.ip, .sp (c.registers.sp - 1),
        .ip ((c.memory.set c.registers.sp c.registers.ip).get interruptVector)])
  | instruction {op : Opcode} {e : Effect} (hop : c.Executes input op)
      (hperforms : c.Performs input.datum op e) : Steps c input e

section Steps

variable {c : Core} {input : InputSignals} {op : Opcode} {s : Step}

theorem effect_of_traps (h : c.traps input = true) :
    c.effect input = (c.enter c.registers.ip interruptVector).map .silent := by
  rw [effect, if_pos h]

theorem Executes.effect_eq (h : c.Executes input op) :
    c.effect input = c.exec input.datum op := by
  obtain ⟨htraps, hop⟩ := h
  unfold effect
  simp only [htraps, hop]
  rfl

theorem steps_of_effect {e : Effect} (h : c.effect input = .ok e) : c.Steps input e := by
  by_cases htraps : c.traps input = true
  · rw [effect_of_traps htraps, map_eq_ok_iff] at h
    obtain ⟨ws, hws, rfl⟩ := h
    obtain ⟨hsp, rfl⟩ := enter_eq_ok_iff.1 hws
    exact .trap htraps hsp
  · have hno : c.traps input = false := by simpa using htraps
    cases hop : Opcode.ofByte? (c.memory.get c.registers.ip) with
    | none =>
      simp only [effect, hno, hop] at h
      exact absurd h (by simp)
    | some op =>
      have hexecutes : c.Executes input op := ⟨hno, hop⟩
      rw [hexecutes.effect_eq] at h
      exact .instruction hexecutes (performs_of_exec h)

theorem effect_of_steps {e : Effect} (h : c.Steps input e) : c.effect input = .ok e := by
  cases h with
  | trap htraps hsp =>
    rw [effect_of_traps htraps, enter_eq_ok_iff.2 ⟨hsp, rfl⟩]
    rfl
  | instruction hop hperforms =>
    rw [hop.effect_eq]
    exact exec_of_performs hperforms

/-- A step succeeds when there is a rule for it, and only then. -/
theorem effect_eq_ok_iff_steps {e : Effect} : c.effect input = .ok e ↔ c.Steps input e :=
  ⟨steps_of_effect, effect_of_steps⟩

/-- **Inversion of a step.** -/
theorem steps_of_step (h : c.step input = .ok s) : ∃ e, c.Steps input e
    ∧ s = ⟨c.applyAll e.writes, e.signals, e.writes.map Write.location⟩ := by
  obtain ⟨e, he, hs⟩ := step_eq_ok_iff.1 h
  exact ⟨e, steps_of_effect he, hs⟩

/-- A step that executes the opcode has an effect by one of its rules. -/
theorem Executes.performs (hop : c.Executes input op) (h : c.step input = .ok s) :
    ∃ e, c.Performs input.datum op e
      ∧ s = ⟨c.applyAll e.writes, e.signals, e.writes.map Write.location⟩ := by
  obtain ⟨e, he, hs⟩ := step_eq_ok_iff.1 h
  rw [hop.effect_eq] at he
  exact ⟨e, performs_of_exec he, hs⟩

end Steps

end Core

end EightBit
