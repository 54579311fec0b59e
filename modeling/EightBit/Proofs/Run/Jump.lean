/-
  EightBit.Proofs.Run.Jump
  ────────────────────────
  **JUMPS ARRIVE AT THEIR LABELS.**

  A label is turned into an address when the program is laid out, the address
  into a signed distance when it is emitted, the distance into a byte, and the
  machine turns the byte into an address again.  The two addresses are the
  same.

  Main result:
    • `step_jump_of_assemble` — an assembled jump leads to its label if its
                                condition holds, and behind itself if not.
-/
import EightBit.Proofs.Program.Assembly
import EightBit.Proofs.Program.Decoding

namespace EightBit

/-- **Jumps.**  A jump that is executed where the program has it, under signals
that raise no interrupt, does not fail: it leads to the address of its label if
its condition holds, and behind its two bytes if not. -/
theorem step_jump_of_assemble {source : Text} {p : Assembled} {a : Byte} {i : Instruction}
    {condition : Condition} {o : Operand} {name : Text} {distance : Option Byte}
    (h : assemble source = .ok p) (hi : p.instructions.get? a = some i)
    (hjump : i.mnemonic = .jump condition) (ho : o ∈ i.operands)
    (hname : o.value = .label name distance) :
    ∃ target b₀ b₁, p.labels.address? name = some target ∧ i.encode = .ok [b₀, b₁]
      ∧ a.toNat + 2 < 256
      ∧ ∀ (c : Core) (input : InputSignals), c.registers.ip = a → c.memory.get a = b₀ →
        c.memory.get (a + 1) = b₁ → c.traps input = false →
        ∃ s, c.step input = .ok s
          ∧ s.core.registers.ip = if condition.holds c.registers.sr then target else a + 2 := by
  obtain ⟨ss, hparse, hss⟩ := assemble_eq_ok_iff.1 h
  have hread := wellRead_of_parse hparse
  have hno := (noFault_of_assembleStatements hss).1
  obtain ⟨k, bytes, henc, hstart⟩ := exists_encodes_of_get?_instructions hss hi
  have hop : i.opcode = some (.jump condition) :=
    (henc.formed hread).opcode_eq (by rw [hjump]; rfl)
  obtain ⟨label, span, target, htarget, hops, hlo, hhi, rfl⟩ := jump_of_encodes hread henc hop
  -- the distance is taken from where the jump stands
  rw [hstart, UInt8.ofNat_toNat] at hops hlo hhi henc
  have hlabel : label = name := by
    rw [hops, List.mem_singleton] at ho
    rw [ho] at hname
    injection hname
  have hroom : a.toNat + 2 < 256 := by
    have hlt := (room_of_encodes hread hno henc).2 (by rw [hop]; simp)
    rwa [hstart] at hlt
  refine ⟨target, (Opcode.jump condition).byte, Byte.ofInt (target.toNat - a.toNat),
    by rw [← hlabel, htarget], ?_, hroom, ?_⟩
  · obtain ⟨-, -, -, hbytes⟩ := henc.parts
    exact hbytes
  · intro c input hip hopcode hdistance htraps
    subst hip
    have hfits : List.Forall₂ OperandKind.Fits (Opcode.jump condition).operands
        [Byte.ofInt (target.toNat - c.registers.ip.toNat)] := by
      rw [Opcode.operands_jump]
      exact .cons (fun hkind => by simp at hkind) .nil
    have hholds := Core.holds_of_hasAt (Memory.hasAt_pair hopcode hdistance) hfits
      (by rw [Opcode.width_jump]; exact hroom.le)
    exact Core.step_jump hholds hlo hhi hroom htraps

/-- Five times down, and then the end. -/
def countdown : Text := "MOV AL, 05\nL: DEC AL\nJNZ L\nEND".toList

/-- The state in front of the jump of the program, with the flags. -/
def beforeJump (p : Assembled) (sr : Flags) : Core :=
  ⟨p.memory, { Registers.initial with ip := 5, sr := sr }⟩

/-- With a clear zero flag the program goes back to the label at 3, and with a
set one on to 7. -/
theorem step_jump_countdown : ∃ p, assemble countdown = .ok p
    ∧ (∃ s, (beforeJump p .clear).step .none = .ok s ∧ s.core.registers.ip = 3)
    ∧ ∃ s, (beforeJump p { Flags.clear with zero := true }).step .none = .ok s
      ∧ s.core.registers.ip = 7 := by
  have hmap : ((assemble countdown).toOption.map fun p =>
      (p.instructions.get? 5, p.labels.address? ['L'], p.memory.get 5, p.memory.get 6))
      = some (some ⟨.jump .notZero, some (.jump .notZero), [⟨.label ['L'] (some 0xFE), ⟨25, 26⟩⟩],
          ⟨21, 26⟩⟩, some 3, 0xC2, 0xFE) := by decide +kernel
  obtain ⟨p, hp, hvalues⟩ := exists_of_toOption_map hmap
  simp only [Prod.mk.injEq] at hvalues
  obtain ⟨hi, hlabel, hopcode, hdistance⟩ := hvalues
  obtain ⟨target, b₀, b₁, htarget, henc, -, hstep⟩ :=
    step_jump_of_assemble hp hi rfl (List.mem_singleton_self _) rfl
  obtain rfl : 3 = target := Option.some.inj (hlabel.symm.trans htarget)
  obtain ⟨rfl, rfl⟩ : (0xC2 : Byte) = b₀ ∧ (0xFE : Byte) = b₁ := by
    injection henc with hbytes
    injection hbytes with h₀ hrest
    injection hrest with h₁ hnil
    exact ⟨h₀, h₁⟩
  exact ⟨p, hp, hstep (beforeJump p _) .none rfl hopcode hdistance rfl,
    hstep (beforeJump p _) .none rfl hopcode hdistance rfl⟩

end EightBit
