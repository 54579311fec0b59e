/-
  EightBit.Proofs.Machine.WorkingCopy
  ───────────────────────────────────
  **A STEP IN PLACE IS THE STEP FROM THE CORE.**

  A step computes its writes from the core as it finds it, and carries them out
  at the end; on a working copy it writes as it goes, and notes each place.  At
  any moment the copy is the core with the writes so far, and what is noted is
  where these went.  That holds as long as no place is written twice, and as long as
  nothing is read that was written before, or it is read with this in mind.  So
  both steps end in the same core, with the same signals and the same list of
  changes, or fail at the same address for the same cause.

  Main results:
    • `follows_exec` — an instruction on the copy, beside its effect;
    • `step_eq`      — the two steps are one.
-/
import EightBit.Machine.WorkingCopy
import EightBit.Proofs.Machine.Effect

namespace EightBit.WorkingCopy

/-! ## §1. The copy during a step. -/

/-- The copy of the core when the writes are made and the signals given. -/
def after (c : Core) (ws : List Write) (signals : OutputSignals) : WorkingCopy where
  memory := (c.applyAll ws).memory
  registers := (c.applyAll ws).registers
  signals := signals
  changes := ws.map Write.location
  ip := c.registers.ip

theorem start_eq (c : Core) : start c = after c [] .none := rfl

/-- **A part of a step follows a computation from the core**: what both find is
related, or both fail for the same cause. -/
def Follows {α β : Type} (c : Core) (R : α → WorkingCopy → β → Prop)
    (x : Except Fault (α × WorkingCopy)) (y : Except Fault.Cause β) : Prop :=
  Parallel (fun r b => R r.1 r.2 b) (fun f cause => f = ⟨cause, c.registers.ip⟩) x y

/-- The same byte is found, and nothing is written. -/
def Found (c : Core) (b : Byte) (w : WorkingCopy) (b' : Byte) : Prop := b = b' ∧ w = start c

/-- The effect is carried out. -/
def Done (c : Core) (_ : Unit) (w : WorkingCopy) (e : Effect) : Prop :=
  w = after c e.writes e.signals

variable {α α' β β' : Type} {c : Core} {ws : List Write} {signals : OutputSignals}

theorem bind_apply (p : Working α) (f : α → Working β) (w : WorkingCopy) :
    (p >>= f) w = p w >>= fun r => f r.1 r.2 := rfl

theorem get_apply (w : WorkingCopy) : (get : Working WorkingCopy) w = .ok (w, w) := rfl

theorem modify_apply (f : WorkingCopy → WorkingCopy) (w : WorkingCopy) :
    (modify f : Working Unit) w = .ok ((), f w) := rfl

theorem Follows.bind {R : α → WorkingCopy → β → Prop} {S : α' → WorkingCopy → β' → Prop}
    {p : Working α} {f : α → Working α'} {w : WorkingCopy} {y : Except Fault.Cause β}
    {g : β → Except Fault.Cause β'} (h : Follows c R (p w) y)
    (hf : ∀ a w' b, R a w' b → Follows c S (f a w') (g b)) :
    Follows c S ((p >>= f) w) (y >>= g) :=
  Parallel.bind h fun r b hr => hf r.1 r.2 b hr

/-- A part that only reads, in front of the others. -/
theorem Follows.read {S : α' → WorkingCopy → β' → Prop} {p : Working Byte} {f : Byte → Working α'}
    {y : Except Fault.Cause Byte} {g : Byte → Except Fault.Cause β'}
    (h : Follows c (Found c) (p (start c)) y) (hf : ∀ b, Follows c S (f b (start c)) (g b)) :
    Follows c S ((p >>= f) (start c)) (y >>= g) := by
  refine h.bind ?_
  rintro b _ _ ⟨rfl, rfl⟩
  exact hf b

theorem Follows.map {R : α → WorkingCopy → β → Prop} {S : α → WorkingCopy → β' → Prop}
    {x : Except Fault (α × WorkingCopy)} {y : Except Fault.Cause β} {g : β → β'}
    (h : Follows c R x y) (hg : ∀ a w b, R a w b → S a w (g b)) : Follows c S x (y.map g) := by
  cases x <;> cases y
  · exact h
  · exact h.elim
  · exact h.elim
  · exact hg _ _ _ h

/-- The last part of a step, beside the last computation of the effect. -/
theorem Follows.last {R : α → WorkingCopy → β → Prop} {S : α → WorkingCopy → β' → Prop}
    {x : Except Fault (α × WorkingCopy)} {y : Except Fault.Cause β} {g : β → β'}
    (h : Follows c R x y) (hg : ∀ a w b, R a w b → S a w (g b)) :
    Follows c S x (y >>= fun b => pure (g b)) := by
  rw [bind_pure_comp]
  exact h.map hg

/-! ## §2. Setters. -/

section Setters

variable {w : WorkingCopy}

theorem record_of_not_mem {l : Location} (h : l ∉ w.changes) :
    w.record l = { w with changes := w.changes ++ [l] } := if_neg h

/-- A place that is written for the first time is noted last. -/
theorem after_concat (c : Core) (ws : List Write) (x : Write) (signals : OutputSignals) :
    after c (ws ++ [x]) signals =
      ⟨((c.applyAll ws).apply x).memory, ((c.applyAll ws).apply x).registers, signals,
        ws.map Write.location ++ [x.location], c.registers.ip⟩ := by
  simp [after, Core.applyAll]

theorem setRegister_after (ws : List Write) {r : Register} {b : Byte}
    (h : .register r ∉ ws.map Write.location) :
    setRegister r b (after c ws signals) = after c (ws ++ [.register r b]) signals := by
  rw [after_concat]
  exact record_of_not_mem h

theorem setMemory_after (ws : List Write) {a b : Byte}
    (h : .memory a ∉ ws.map Write.location) :
    setMemory a b (after c ws signals) = after c (ws ++ [.memory a b]) signals := by
  rw [after_concat]
  exact record_of_not_mem h

theorem setIp_after (ws : List Write) {a : Byte}
    (h : .ip ∉ ws.map Write.location) :
    setIp a (after c ws signals) = after c (ws ++ [.ip a]) signals := by
  rw [after_concat]
  exact record_of_not_mem h

theorem setSp_after (ws : List Write) {a : Byte}
    (h : .sp ∉ ws.map Write.location) :
    setSp a (after c ws signals) = after c (ws ++ [.sp a]) signals := by
  rw [after_concat]
  exact record_of_not_mem h

theorem setSr_after (ws : List Write) {f : Flags}
    (h : .sr ∉ ws.map Write.location) :
    setSr f (after c ws signals) = after c (ws ++ [.sr f]) signals := by
  rw [after_concat]
  exact record_of_not_mem h

end Setters

/-! ## §3. Parts of an instruction. -/

theorem fetch_start (c : Core) (offset : Nat) :
    Follows c (Found c) (fetch offset (start c)) (c.fetch offset) := by
  have hip : (start c).ip = c.registers.ip := rfl
  simp only [fetch, bind_apply, get_apply, ok_bind, hip]
  rw [Core.fetch]
  cases Byte.ofNat? (c.registers.ip.toNat + offset) with
  | none => rfl
  | some a => exact ⟨rfl, rfl⟩

/-- The content of a register that was looked up. -/
theorem content_register (c : Core) (code : Byte) :
    Follows c (fun b w r => b = c.registers.get r ∧ w = start c ∧ code = r.code)
      (content code (start c)) (Core.register code) := by
  rw [content, bind_apply, Core.register]
  cases hr : Register.ofCode? code with
  | none => rfl
  | some r => exact ⟨rfl, rfl, (Register.code_of_ofCode? hr).symm⟩

theorem content_start (c : Core) (code : Byte) :
    Follows c (Found c) (content code (start c)) (c.content code) := by
  rw [Core.content]
  exact (content_register c code).map fun _ _ _ h => ⟨h.1, h.2.1⟩

/-- A register is written for the first time. -/
theorem put_after {r : Register} {b : Byte} (h : .register r ∉ ws.map Write.location) :
    put r.code b (after c ws signals) = .ok ((), after c (ws ++ [.register r b]) signals) := by
  rw [← setRegister_after ws h, put, Register.ofCode?_code]
  rfl

theorem successor_after (c : Core) (ws : List Write) (signals : OutputSignals) (width : Nat) :
    Follows c (fun b w b' => b = b' ∧ w = after c ws signals)
      (successor width (after c ws signals)) (c.successor width) := by
  show Follows c _ (orFail (Byte.ofNat? (c.registers.ip.toNat + width)) .beyondMemory
    (after c ws signals)) _
  rw [Core.successor]
  cases Byte.ofNat? (c.registers.ip.toNat + width) with
  | none => rfl
  | some a => exact ⟨rfl, rfl⟩

theorem advance_after (ws : List Write) (h : .ip ∉ ws.map Write.location) (width : Nat) :
    Follows c (fun _ w next => w = after c (ws ++ [.ip next]) signals)
      (advance width (after c ws signals)) (c.successor width) := by
  rw [← bind_pure (c.successor width)]
  refine (successor_after c ws signals width).bind ?_
  rintro next _ _ ⟨rfl, rfl⟩
  exact setIp_after ws h

/-- An instruction that advances at its end is done. -/
theorem done_advance (ws : List Write) (h : .ip ∉ ws.map Write.location) (width : Nat) :
    Follows c (Done c) (advance width (after c ws signals))
      (c.successor width >>= fun next => pure ⟨ws ++ [.ip next], signals⟩) :=
  (advance_after ws h width).last fun _ _ _ hw => hw

theorem jump_start (c : Core) (distance : Byte) :
    Follows c (fun _ w next => w = after c [.ip next] .none) (jump distance (start c))
      (c.jumpTarget distance) := by
  have hip : (start c).ip = c.registers.ip := rfl
  simp only [jump, bind_apply, get_apply, ok_bind, hip]
  rw [Core.jumpTarget]
  cases Byte.ofInt? (c.registers.ip.toNat + distance.signed) with
  | none => rfl
  | some a => exact setIp_after [] (by simp)

theorem push_start (c : Core) (b : Byte) :
    Follows c (fun _ w ws => w = after c ws .none ∧ .ip ∉ ws.map Write.location) (push b (start c))
      (c.push b) := by
  have hsp : (start c).registers.sp = c.registers.sp := rfl
  simp only [push, bind_apply, get_apply, ok_bind, hsp]
  rw [Core.push]
  split
  · rfl
  · have hmemory : setMemory c.registers.sp b (start c)
        = after c [.memory c.registers.sp b] .none := setMemory_after [] (by simp)
    have hsp : setSp (c.registers.sp - 1) (after c [.memory c.registers.sp b] .none)
        = after c [.memory c.registers.sp b, .sp (c.registers.sp - 1)] .none :=
      setSp_after [.memory c.registers.sp b] (by simp [Write.location])
    rw [bind_apply, modify_apply, ok_bind, modify_apply, hmemory]
    exact ⟨hsp, by simp [Write.location]⟩

theorem pop_start (c : Core) :
    Follows c (fun b w top => ∃ sp, top = (b, .sp sp) ∧ w = after c [.sp sp] .none)
      (pop (start c)) c.pop := by
  have hsp : (start c).registers.sp = c.registers.sp := rfl
  simp only [pop, bind_apply, get_apply, ok_bind, hsp]
  rw [Core.pop]
  split
  · rfl
  · have hset : setSp (c.registers.sp + 1) (start c) = after c [.sp (c.registers.sp + 1)] .none :=
      setSp_after [] (by simp)
    rw [bind_apply, modify_apply, ok_bind, hset]
    exact ⟨c.registers.sp + 1, rfl, rfl⟩

theorem calculate_start (c : Core) (op : AluOp) (operand dest : Byte) :
    Follows c (fun b w result => b = result.1 ∧ w = after c [.sr result.2] .none)
      (calculate op operand dest (start c)) (c.operate op operand dest) := by
  have hsr : (start c).registers.sr = c.registers.sr := rfl
  simp only [calculate, bind_apply, get_apply, ok_bind, hsr]
  rw [Core.operate]
  cases op.operate? operand dest c.registers.sr with
  | none => rfl
  | some result => exact ⟨rfl, setSr_after [] (by simp)⟩

theorem channel_start (c : Core) :
    Follows c (Found c) (channel (start c)) c.channel := by
  have hchannel : c.channel = c.fetch 1 >>= fun n =>
      if maxChannel < n then .error (.invalidChannel n) else .ok n := by
    rw [Core.channel]
    cases c.fetch 1 <;> rfl
  rw [hchannel]
  refine (fetch_start c 1).read fun n => ?_
  by_cases h : maxChannel < n
  · rw [if_pos h, if_pos h]
    rfl
  · rw [if_neg h, if_neg h]
    exact ⟨rfl, rfl⟩

/-- Memory is read when the byte is pushed. -/
theorem enter_start (c : Core) (b vector : Byte) :
    Follows c (fun _ w ws => w = after c ws .none) (enter b vector (start c))
      (c.enter b vector) := by
  have henter : c.enter b vector
      = c.push b >>= fun ws => pure (ws ++ [.ip ((c.applyAll ws).memory.get vector)]) := by
    rw [bind_pure_comp]
    rfl
  rw [henter]
  refine (push_start c b).bind ?_
  rintro _ _ ws ⟨rfl, hip⟩
  exact setIp_after ws hip

/-! ## §4. Instructions. -/

theorem follows_arithmetic (c : Core) (op : AluOp) (operand dest : Byte) (width : Nat) :
    Follows c (Done c)
      (arithmetic op operand dest width (start c)) (c.calculate op operand dest width) := by
  refine (content_register c dest).bind ?_
  rintro _ _ r ⟨rfl, rfl, rfl⟩
  refine (calculate_start c op operand _).bind ?_
  rintro _ _ ⟨result, flags⟩ ⟨rfl, rfl⟩
  rw [bind_apply, put_after (by simp [Write.location]), ok_bind]
  exact done_advance _ (by simp [Write.location]) width

theorem follows_compare (c : Core) (left right : Byte) :
    Follows c (Done c) (compare left right (start c)) (c.compare left right) := by
  refine (content_start c left).read fun l => ?_
  refine (calculate_start c (.binary .sub) right _).bind ?_
  rintro _ _ ⟨_, flags⟩ ⟨rfl, rfl⟩
  exact done_advance _ (by simp [Write.location]) 3

theorem follows_load (c : Core) (dest b : Byte) :
    Follows c (Done c) (load dest b (start c)) (c.load dest b) := by
  rw [Core.load, Core.register, load, bind_apply]
  cases hr : Register.ofCode? dest with
  | none =>
    rw [put, hr]
    rfl
  | some r =>
    obtain rfl := Register.code_of_ofCode? hr
    rw [start_eq, put_after (by simp), ok_bind]
    exact done_advance _ (by simp [Write.location]) 3

theorem follows_store (c : Core) (address source : Byte) :
    Follows c (Done c) (store address source (start c)) (c.store address source) := by
  refine (content_start c source).read fun b => ?_
  rw [bind_apply, modify_apply, start_eq, setMemory_after [] (by simp), ok_bind]
  exact done_advance _ (by simp [Write.location]) 3

theorem follows_receive (c : Core) (n : Byte) (datum : Option InputDatum) :
    Follows c (Done c) (receive n datum (start c)) (c.receive n datum) := by
  rw [Core.receive, receive]
  cases datum.filter fun d => d.channel = n with
  | none => rfl
  | some d =>
    dsimp only
    by_cases hskip : d.content = InputDatum.skip
    · rw [if_pos hskip, if_pos hskip]
      exact (advance_after [] (by simp) 2).map fun _ _ _ hw => hw
    · rw [if_neg hskip, if_neg hskip, bind_apply]
      cases Byte.ofNat? d.content.toNat with
      | none => rfl
      | some b =>
        show Follows c _ ((put Register.al.code b >>= fun _ => advance 2) (start c)) _
        rw [bind_apply, start_eq, put_after (by simp), ok_bind]
        exact (advance_after [.register .al b] (by simp [Write.location]) 2).map fun _ _ _ hw => hw

/-- **An instruction on the copy follows its effect.** -/
theorem follows_exec (c : Core) (datum : Option InputDatum) (op : Opcode) :
    Follows c (Done c) (exec datum op (start c)) (c.exec datum op) := by
  cases op with
  | halt => rfl
  | binaryRegister op =>
    refine (fetch_start c 1).read fun dest => ?_
    refine (fetch_start c 2).read fun source => ?_
    refine (content_start c source).read fun operand => ?_
    exact follows_arithmetic c (.binary op) operand dest 3
  | binaryNumber op =>
    refine (fetch_start c 1).read fun dest => ?_
    refine (fetch_start c 2).read fun operand => ?_
    exact follows_arithmetic c (.binary op) operand dest 3
  | unary op =>
    refine (fetch_start c 1).read fun dest => ?_
    exact follows_arithmetic c (.unary op) 0 dest 2
  | compareRegister =>
    refine (fetch_start c 1).read fun left => ?_
    refine (fetch_start c 2).read fun right => ?_
    refine (content_start c right).read fun r => ?_
    exact follows_compare c left r
  | compareNumber =>
    refine (fetch_start c 1).read fun left => ?_
    refine (fetch_start c 2).read fun right => ?_
    exact follows_compare c left right
  | compareDirect =>
    refine (fetch_start c 1).read fun left => ?_
    refine (fetch_start c 2).read fun address => ?_
    exact follows_compare c left (c.memory.get address)
  | jump condition =>
    refine (fetch_start c 1).read fun distance => ?_
    rw [bind_apply, get_apply, ok_bind]
    have hsr : (start c).registers.sr = c.registers.sr := rfl
    dsimp only
    rw [hsr]
    split
    · exact (jump_start c distance).last fun _ _ _ hw => hw
    · exact done_advance [] (by simp) 2
  | call =>
    refine (fetch_start c 1).read fun target => ?_
    refine (successor_after c [] .none 2).read fun back => ?_
    refine (push_start c back).bind ?_
    rintro _ _ ws ⟨rfl, hip⟩
    exact setIp_after ws hip
  | int =>
    refine (fetch_start c 1).read fun vector => ?_
    refine (successor_after c [] .none 2).read fun back => ?_
    exact (enter_start c back vector).last fun _ _ _ hw => hw
  | ret | iret =>
    refine (pop_start c).bind ?_
    rintro back _ _ ⟨sp, rfl, rfl⟩
    exact setIp_after [.sp sp] (by simp [Write.location])
  | loadNumber =>
    refine (fetch_start c 1).read fun dest => ?_
    refine (fetch_start c 2).read fun b => ?_
    exact follows_load c dest b
  | loadDirect =>
    refine (fetch_start c 1).read fun dest => ?_
    refine (fetch_start c 2).read fun address => ?_
    exact follows_load c dest (c.memory.get address)
  | loadIndirect =>
    refine (fetch_start c 1).read fun dest => ?_
    refine (fetch_start c 2).read fun pointer => ?_
    refine (content_start c pointer).read fun address => ?_
    exact follows_load c dest (c.memory.get address)
  | storeDirect =>
    refine (fetch_start c 1).read fun address => ?_
    refine (fetch_start c 2).read fun source => ?_
    exact follows_store c address source
  | storeIndirect =>
    refine (fetch_start c 1).read fun pointer => ?_
    refine (fetch_start c 2).read fun source => ?_
    refine (content_start c pointer).read fun address => ?_
    exact follows_store c address source
  | push =>
    refine (fetch_start c 1).read fun source => ?_
    refine (content_start c source).read fun b => ?_
    refine (push_start c b).bind ?_
    rintro _ _ ws ⟨rfl, hip⟩
    exact done_advance ws hip 2
  | pop =>
    refine (fetch_start c 1).read fun dest => ?_
    refine (content_register c dest).bind ?_
    rintro _ _ r ⟨-, rfl, rfl⟩
    refine (pop_start c).bind ?_
    rintro b _ _ ⟨sp, rfl, rfl⟩
    rw [bind_apply, put_after (by simp [Write.location]), ok_bind]
    exact done_advance _ (by simp [Write.location]) 2
  | pushf =>
    show Follows c _ ((push c.registers.sr.toByte >>= fun _ => advance 1) (start c))
      (c.push c.registers.sr.toByte >>= _)
    refine (push_start c c.registers.sr.toByte).bind ?_
    rintro _ _ ws ⟨rfl, hip⟩
    exact done_advance ws hip 1
  | popf =>
    refine (pop_start c).bind ?_
    rintro b _ _ ⟨sp, rfl, rfl⟩
    rw [bind_apply, modify_apply, setSr_after [.sp sp] (by simp [Write.location]), ok_bind]
    exact done_advance _ (by simp [Write.location]) 1
  | input =>
    refine (channel_start c).read fun n => ?_
    exact follows_receive c n datum
  | output =>
    refine (channel_start c).read fun n => ?_
    exact done_advance [] (by simp) 2
  | sti | cli =>
    rw [exec, bind_apply, get_apply, ok_bind, bind_apply, modify_apply, start_eq,
      setSr_after [] (by simp), ok_bind]
    exact done_advance _ (by simp [Write.location]) 1
  | clo => exact done_advance [] (by simp) 1
  | nop => exact done_advance [] (by simp) 1

/-! ## §5. Steps. -/

/-- A step on the copy follows its effect. -/
theorem follows_work (c : Core) (input : InputSignals) :
    Follows c (Done c) (work input (start c)) (c.effect input) := by
  rw [work, bind_apply, get_apply, ok_bind, Core.effect, Core.traps]
  have hsr : (start c).registers.sr = c.registers.sr := rfl
  have hip : (start c).ip = c.registers.ip := rfl
  dsimp only
  rw [hsr, hip]
  split
  · exact (enter_start c c.registers.ip interruptVector).map fun _ _ _ hw => hw
  · -- the opcode itself is never outside memory
    have hfetch : fetch 0 (start c) = .ok (c.memory.get c.registers.ip, start c) := by
      have hbyte : Byte.ofNat? (c.registers.ip.toNat + 0) = some c.registers.ip :=
        Byte.ofNat?_eq_some_iff.2 rfl
      simp only [fetch, bind_apply, get_apply, ok_bind, hip, hbyte]
      rfl
    rw [bind_apply, hfetch, ok_bind, bind_apply]
    dsimp only
    cases Opcode.ofByte? (c.memory.get c.registers.ip) with
    | none => rfl
    | some op => exact follows_exec c input.datum op

/-- **The step on a working copy is the step from the core**: the same core, signals
and list of changes, or the same fault. -/
theorem step_eq (c : Core) (input : InputSignals) : step c input = c.step input := by
  have hwork := follows_work c input
  rw [step, Core.step]
  cases he : c.effect input <;> cases hw : work input (start c) <;> rw [he, hw] at hwork
  · exact congrArg _ hwork
  · exact hwork.elim
  · exact hwork.elim
  · next e r =>
    obtain ⟨_, w⟩ := r
    obtain rfl : w = after c e.writes e.signals := hwork
    rfl

end EightBit.WorkingCopy
