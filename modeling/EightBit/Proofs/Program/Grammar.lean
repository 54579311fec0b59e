/-
  EightBit.Proofs.Program.Grammar
  ───────────────────────────────
  **WHAT THE READER OF A SOURCE GUARANTEES.**

  Operands are read one at a time, each of a kind that some form still admits
  after the kinds before it.  Read to the end they are the operands of a form,
  and the opcode is the one that the form selects.  A program ends with its
  first END.

  Main results:
    • `readOperands_spec`  — as many operands are read as the mnemonic takes,
                             and their kinds stay the beginning of a form;
    • `wellRead_of_parse`  — instructions have forms, and END comes last.
-/
import EightBit.Program.Assembly
import EightBit.Proofs.Sequence

namespace EightBit

/-! ## §1. Kinds along a form. -/

/-- The kinds begin a form of the mnemonic. -/
def Mnemonic.Begins (m : Mnemonic) (kinds : List OperandKind) : Prop :=
  ∃ f ∈ m.forms, f.operands.take kinds.length = kinds

/-- An admitted kind is what a form has next. -/
theorem Mnemonic.begins_of_mem_admitted {m : Mnemonic} {kinds : List OperandKind}
    {kind : OperandKind} (h : kind ∈ m.admitted kinds.length kinds) : m.Begins (kinds ++ [kind]) := by
  rw [admitted, List.mem_eraseDups, List.mem_filterMap] at h
  obtain ⟨f, hf, hnext⟩ := h
  split at hnext
  · next hkinds =>
    refine ⟨f, hf, ?_⟩
    rw [List.length_append, List.length_singleton, List.take_add_one, hkinds, hnext]
    rfl
  · exact absurd hnext (by simp)

theorem Mnemonic.begins_nil (m : Mnemonic) : m.Begins [] := by
  have hne : m.forms ≠ [] := by cases m <;> simp [forms]
  obtain ⟨f, hf⟩ := List.exists_mem_of_ne_nil _ hne
  exact ⟨f, hf, rfl⟩

/-- As many kinds as the mnemonic takes operands, if they begin a form, are
those of the form. -/
theorem Mnemonic.Begins.eq_operands {m : Mnemonic} {kinds : List OperandKind} (h : m.Begins kinds)
    (hlen : kinds.length = m.arity) : ∃ f ∈ m.forms, kinds = f.operands := by
  obtain ⟨f, hf, hkinds⟩ := h
  have hlen' : f.operands.length = kinds.length := by rw [m.length_operands f hf, hlen]
  refine ⟨f, hf, ?_⟩
  rw [← hkinds, List.take_of_length_le (Nat.le_of_eq hlen')]

/-! ## §2. Operands. -/

/-- An operand is of an admitted kind. -/
theorem Operand.kind_mem_of_read {admitted : List OperandKind} {t : Token} {o : Operand}
    (h : read admitted t = .ok o) : o.value.kind ∈ admitted := by
  unfold read at h
  split at h
  · exact absurd h (by simp)
  · next value hvalue =>
    split at h
    · next hmem =>
      injection h with h
      subst h
      simpa using hmem
    · exact absurd h (by simp)

namespace Instruction

/-- **Reading operands.**  As many are read as were to come, and their kinds
still begin a form. -/
theorem readOperands_spec {m : Mnemonic} {ending : SourceError} {count : Nat}
    {before operands : List Operand} {ts rest : List Token}
    (h : readOperands m ending count before ts = .ok (operands, rest))
    (hbefore : m.Begins (before.map fun o => o.value.kind)) :
    operands.length = before.length + count ∧ m.Begins (operands.map fun o => o.value.kind) := by
  induction count generalizing before ts with
  | zero =>
    simp only [readOperands, Except.ok.injEq, Prod.mk.injEq] at h
    obtain ⟨rfl, -⟩ := h
    exact ⟨rfl, hbefore⟩
  | succ count ih =>
    simp only [readOperands] at h
    split at h
    · exact absurd h (by simp)
    · exact absurd h (by simp)
    · next t rest' _ =>
      split at h
      · exact absurd h (by simp)
      · next o ho =>
        have hkind := Operand.kind_mem_of_read ho
        have hbegins : m.Begins ((before ++ [o]).map fun o => o.value.kind) := by
          rw [List.map_append, List.map_singleton]
          apply Mnemonic.begins_of_mem_admitted
          rw [List.length_map]
          exact hkind
        obtain ⟨hlen, hall⟩ := ih h hbegins
        refine ⟨?_, hall⟩
        rw [hlen, List.length_append, List.length_singleton]
        omega

/-- The kinds of the operands are those of a form of the mnemonic, and the
opcode is the one that this form selects. -/
def Formed (i : Instruction) : Prop :=
  ∃ f ∈ i.mnemonic.forms, i.kinds = f.operands ∧ i.opcode = f.opcode

/-- What is read after a mnemonic makes an instruction of one of its forms. -/
theorem formed_ofOperands {m : Mnemonic} {ending : SourceError} {head : Span}
    {operands : List Operand} {ts rest : List Token}
    (h : readOperands m ending m.arity [] ts = .ok (operands, rest)) :
    (ofOperands m head operands).Formed := by
  obtain ⟨hlen, hbegins⟩ := readOperands_spec h m.begins_nil
  obtain ⟨f, hf, hkinds⟩ := hbegins.eq_operands (by rw [List.length_map, hlen]; simp)
  -- some form has these kinds, so one is selected
  cases hselect : m.select (operands.map fun o => o.value.kind) with
  | none =>
    have hnone := List.find?_eq_none.1 hselect f hf
    simp [hkinds] at hnone
  | some g =>
    have hg : g.operands = operands.map fun o => o.value.kind := by
      simpa using List.find?_some hselect
    refine ⟨g, List.mem_of_find?_eq_some hselect, hg.symm, ?_⟩
    simp only [ofOperands, hselect]
    rfl

end Instruction

/-! ## §3. Programs. -/

/-- What is known of a program that was read: its instructions have forms, and
it ends with its first END. -/
structure WellRead (ss : List Statement) : Prop where
  formed : ∀ i, .instruction i ∈ ss → i.Formed
  ends : ∃ before last, ss = before ++ [.instruction last] ∧ last.mnemonic = .finish
    ∧ ∀ s ∈ before, s.isEnd = false

theorem Statement.formed_of_read {ending : SourceError} {ts rest : List Token} {i : Instruction}
    (h : read ending ts = .ok (.instruction i, rest)) : i.Formed := by
  unfold read at h
  split at h
  · exact absurd h (by simp)
  · split at h
    · split at h
      · obtain ⟨name, -, heq⟩ := map_eq_ok_iff.1 h
        simp at heq
      · split at h
        · exact absurd h (by simp)
        · obtain ⟨⟨operands, after⟩, hops, heq⟩ := map_eq_ok_iff.1 h
          simp only [Prod.mk.injEq, Statement.instruction.injEq] at heq
          obtain ⟨rfl, -⟩ := heq
          exact Instruction.formed_ofOperands hops
    · exact absurd h (by simp)

/-- **What is read is well read.** -/
theorem wellRead_of_statements {ending : SourceError} {ts : List Token} {ss : List Statement}
    (h : statements ending ts = .ok ss) : WellRead ss := by
  fun_induction statements ending ts generalizing ss with
  | case1 => exact absurd h (by simp)
  | case2 ts s rest hread hend =>
    -- the statement is END, and nothing after it is read
    injection h with h
    subst h
    cases s with
    | label name span => exact absurd hend (by simp [Statement.isEnd])
    | instruction i =>
      refine ⟨fun j hj => ?_, [], i, rfl, by simpa [Statement.isEnd] using hend, by simp⟩
      obtain rfl : j = i := by simpa using hj
      exact Statement.formed_of_read hread
  | case3 ts s rest hread hend ih =>
    obtain ⟨tail, htail, rfl⟩ := map_eq_ok_iff.1 h
    obtain ⟨hformed, before, last, rfl, hlast, hbefore⟩ := ih htail
    refine ⟨fun j hj => ?_, s :: before, last, rfl, hlast, fun t ht => ?_⟩
    · rcases List.mem_cons.1 hj with rfl | hj
      · exact Statement.formed_of_read hread
      · exact hformed j hj
    · rcases List.mem_cons.1 ht with rfl | ht
      · simpa using hend
      · exact hbefore t ht

theorem wellRead_of_parse {source : Text} {ss : List Statement} (h : parse source = .ok ss) :
    WellRead ss := wellRead_of_statements h

end EightBit
