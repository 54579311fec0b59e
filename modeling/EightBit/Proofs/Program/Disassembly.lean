/-
  EightBit.Proofs.Program.Disassembly
  ───────────────────────────────────
  **A DISASSEMBLY IS A SOURCE.**

  The lines that are shown for instructions, without their colours and with END
  behind them, are a source: a mnemonic, though it may look like a number, is the
  first word of its line, and the operands are written as a source has them.  So
  the source is assembled, and its bytes are those that were shown.  A jump does
  not belong here, because its line shows a distance and a source has a label.

  Main results:
    • `withoutEscapes_render`   — without its escapes a text is what is visible;
    • `HasByte.writesValue`     — a byte is shown as an operand is written;
    • `writes_line`             — a line is how its instruction is written;
    • `assemble_disassembly`    — the bytes come back.
-/
import EightBit.Isa.Disassembly
import EightBit.Proofs.Program.InRow
import EightBit.Proofs.Program.Printing

namespace EightBit

/-! ## §1. Text without its escapes. -/

section Escapes

variable {t code rest : Text}

theorem withoutEscapes_visible (h : '\x1b' ∉ t) :
    Text.withoutEscapes.go false (t ++ rest) = t ++ Text.withoutEscapes.go false rest := by
  induction t with
  | nil => rfl
  | cons c t ih =>
    rw [List.mem_cons, not_or] at h
    rw [List.cons_append, Text.withoutEscapes.go, if_neg (Ne.symm h.1), ih h.2, List.cons_append]

theorem withoutEscapes_code (h : 'm' ∉ code) :
    Text.withoutEscapes.go true (code ++ 'm' :: rest) = Text.withoutEscapes.go false rest := by
  induction code with
  | nil => rfl
  | cons c code ih =>
    rw [List.mem_cons, not_or] at h
    have hmore : (c != 'm') = true := bne_iff_ne.2 (Ne.symm h.1)
    rw [List.cons_append, Text.withoutEscapes.go, hmore, ih h.2]

end Escapes

/-- The piece cannot be mistaken for another: visible text does not begin an
escape, and a code does not end one. -/
def Piece.Clean : Piece → Prop
  | .visible t => '\x1b' ∉ t
  | .escape code => 'm' ∉ code

namespace Styled

variable {x y : Styled}

/-- All pieces are clean. -/
def Clean (x : Styled) : Prop := ∀ p ∈ x, p.Clean

/-- **Without its escapes a text is what is visible of it.** -/
theorem withoutEscapes_render (h : x.Clean) : x.render.withoutEscapes = x.plain := by
  unfold Text.withoutEscapes
  induction x with
  | nil => rfl
  | cons p x ih =>
    obtain ⟨hp, hx⟩ := List.forall_mem_cons.1 h
    have ih := ih hx
    cases p with
    | visible t =>
      show Text.withoutEscapes.go false (t ++ render x) = t ++ plain x
      rw [withoutEscapes_visible hp, ih]
    | escape code =>
      -- the bracket behind the escape character is no `m` either
      have hbracket : 'm' ∉ '[' :: code := by
        rw [List.mem_cons, not_or]
        exact ⟨by decide, hp⟩
      show Text.withoutEscapes.go false ('\x1b' :: ('[' :: code ++ ['m']) ++ render x) = plain x
      rw [List.cons_append, List.append_assoc, Text.withoutEscapes.go, if_pos rfl]
      rw [List.singleton_append, withoutEscapes_code hbracket, ih]

theorem clean_append : Clean (x ++ y) ↔ Clean x ∧ Clean y := List.forall_mem_append

theorem clean_ofText {t : Text} (h : '\x1b' ∉ t) : Clean (ofText t) := by
  intro p hp
  obtain rfl := List.mem_singleton.1 hp
  exact h

theorem clean_color (c : Color) : (Piece.escape c.code).Clean := by
  cases c <;> simp [Piece.Clean, Color.code]

theorem clean_paint (c : Color) (h : Clean x) : Clean (paint (.colored c) x) := by
  intro p hp
  have hp : p ∈ Piece.escape c.code :: (x ++ [.escape "39".toList]) := hp
  rw [List.mem_cons, List.mem_append, List.mem_singleton] at hp
  rcases hp with rfl | hp | rfl
  · exact clean_color c
  · exact h p hp
  · simp [Piece.Clean]

/-- The first, and each other behind a separator. -/
theorem joinWith_cons (separator : Text) (x : Styled) (xs : List Styled) :
    joinWith separator (x :: xs) = x ++ xs.flatMap fun y => ofText separator ++ y := by
  unfold joinWith
  induction xs generalizing x with
  | nil => simp
  | cons y xs ih =>
    rw [List.intersperse_cons_cons, List.flatten_cons, List.flatten_cons, ih, List.flatMap_cons,
      List.append_assoc]

end Styled

/-! ## §2. Operands. -/

theorem escape_not_mem_name (r : Register) : '\x1b' ∉ r.name := by cases r <;> decide

theorem registerText_code (r : Register) : Disassembly.registerText r.code = r.name := by
  rw [Disassembly.registerText, Register.ofCode?_code]

namespace Operand.Value.HasByte

variable {v : Operand.Value} {b : Byte}

theorem clean (h : v.HasByte b) : (Disassembly.operand v.kind b).Clean := by
  cases h with
  | number => exact Styled.clean_paint _ (Styled.clean_ofText (Text.Hex.not_mem_ofByte (by decide) b))
  | address =>
    refine Styled.clean_append.2 ⟨Styled.clean_append.2 ⟨Styled.clean_ofText (by decide), ?_⟩,
      Styled.clean_ofText (by decide)⟩
    exact Styled.clean_paint _ (Styled.clean_ofText (Text.Hex.not_mem_ofByte (by decide) b))
  | register r =>
    refine Styled.clean_ofText ?_
    rw [registerText_code]
    exact escape_not_mem_name r
  | registerAddress r =>
    refine Styled.clean_ofText ?_
    rw [registerText_code]
    cases r <;> decide

/-- **A byte is shown as the operand is written.** -/
theorem writesValue (h : v.HasByte b) : WritesValue v (Disassembly.operand v.kind b).plain := by
  cases h with
  | number =>
    have hplain : (Disassembly.operand .number b).plain = Text.Hex.ofByte b := by
      rw [Disassembly.operand, Styled.plain_paint, Styled.plain_ofText]
    rw [kind, hplain]
    exact .number (hexRun_ofByte b)
  | address =>
    have hplain : (Disassembly.operand .address b).plain = '[' :: Text.Hex.ofByte b ++ [']'] := by
      rw [Disassembly.operand, Styled.plain_append, Styled.plain_append, Styled.plain_paint,
        Styled.plain_ofText, Styled.plain_ofText, Styled.plain_ofText]
      rfl
    have hwrites := WritesValue.address (hexRun_ofByte b) padding_nil padding_nil
    rw [List.nil_append, List.append_nil] at hwrites
    rwa [kind, hplain]
  | register r =>
    rw [kind, Disassembly.operand, Styled.plain_ofText, registerText_code]
    exact .register r.upper_name
  | registerAddress r =>
    have hwrites := WritesValue.registerAddress r.upper_name padding_nil padding_nil
    rw [List.nil_append, List.append_nil] at hwrites
    rwa [kind, Disassembly.operand, Styled.plain_ofText, registerText_code]

end Operand.Value.HasByte

section Operands

variable {os : List Operand} {args : List Byte}

theorem clean_operandList (h : List.Forall₂ (fun o b => o.value.HasByte b) os args) :
    ∀ x ∈ Disassembly.operandList (os.map fun o => o.value.kind) args, x.Clean := by
  induction h with
  | nil =>
    intro x hx
    exact absurd hx (by simp [Disassembly.operandList])
  | cons ho _ ih => exact List.forall_mem_cons.2 ⟨ho.clean, ih⟩

/-- Bytes behind others are shown as operands behind others are written. -/
theorem writesFollowing_operandList
    (h : List.Forall₂ (fun o b => o.value.HasByte b) os args) :
    WritesFollowing (os.map Operand.value)
      (Styled.plain ((Disassembly.operandList (os.map fun o => o.value.kind) args).flatMap
        fun x => Styled.ofText ", ".toList ++ x)) := by
  have hblank : Gap [' '] := .blank (by decide) .nil
  induction h with
  | nil => exact .nil
  | cons ho _ ih =>
    have hwrites := WritesFollowing.cons .nil hblank ho.writesValue ih
    simpa [Disassembly.operandList, Styled.plain_append, Styled.plain_ofText] using hwrites

end Operands

/-! ## §3. Lines. -/

/-- What a line begins with: a mnemonic in lower case, with blanks behind it. -/
theorem Mnemonic.shown_name (m : Mnemonic) :
    m.name.lower.upper = m.name ∧ m.name.length < 6 ∧ '\x1b' ∉ m.name.lower.padRight 6 := by
  revert m
  decide

/-- The blanks behind a mnemonic. -/
def blanksBehind (m : Mnemonic) : Text := List.replicate (6 - m.name.lower.length) ' '

theorem gap_blanksBehind (m : Mnemonic) : Gap (blanksBehind m) ∧ blanksBehind m ≠ [] := by
  have hgap : ∀ n, Gap (List.replicate n ' ') := by
    intro n
    induction n with
    | zero => exact .nil
    | succ n ih => exact .blank (by decide) ih
  refine ⟨hgap _, ?_⟩
  have hlength : m.name.lower.length = m.name.length := List.length_map _
  have hshort := m.shown_name.2.1
  rw [blanksBehind, Ne, List.replicate_eq_nil_iff]
  omega

namespace Instruction.MadeOf

variable {i : Instruction} {op : Opcode} {args : List Byte}

theorem formed (h : i.MadeOf op args) : i.Formed := by
  obtain ⟨f, hselect, hopcode⟩ := Option.bind_eq_some_iff.1 op.opcode?_select_operands
  have hoperands : f.operands = op.operands := by simpa using List.find?_some hselect
  refine ⟨f, ?_, ?_, ?_⟩
  · rw [h.mnemonic]
    exact List.mem_of_find?_eq_some hselect
  · rw [h.kinds, hoperands]
  · rw [h.opcode, hopcode]

theorem canonical (h : i.MadeOf op args) : (Statement.instruction i).Canonical := by
  refine ⟨h.formed, fun o ho name distance hvalue => ?_⟩
  obtain ⟨b, -, hb⟩ := exists_mem_of_forall₂ h.values.flip ho
  have hb : o.value.HasByte b := hb
  rw [hvalue] at hb
  cases hb

/-- The line for the instruction: its mnemonic, blanks, and its operands. -/
theorem line_eq (h : i.MadeOf op args) : Disassembly.line (op.byte :: args)
    = .twoTone .red .blue (.ofText (i.mnemonic.name.lower.padRight 6)) (.joinWith ", ".toList
      (Disassembly.operandList (i.operands.map fun o => o.value.kind) args)) := by
  rw [Disassembly.line, Opcode.ofByte?_byte]
  show Disassembly.instruction op args = _
  rw [Disassembly.instruction, h.mnemonic, ← h.kinds]
  rfl

theorem clean_line (h : i.MadeOf op args) : (Disassembly.line (op.byte :: args)).Clean := by
  have hargs := clean_operandList h.values
  have hjoined : (Styled.joinWith ", ".toList
      (Disassembly.operandList (i.operands.map fun o => o.value.kind) args)).Clean := by
    generalize Disassembly.operandList (i.operands.map fun o => o.value.kind) args = xs at hargs
    cases xs with
    | nil =>
      intro p hp
      exact absurd hp (by simp [Styled.joinWith])
    | cons x xs =>
      rw [Styled.joinWith_cons, Styled.clean_append]
      obtain ⟨hx, hxs⟩ := List.forall_mem_cons.1 hargs
      refine ⟨hx, ?_⟩
      intro p hp
      obtain ⟨y, hy, hp⟩ := List.mem_flatMap.1 hp
      exact Styled.clean_append.2 ⟨Styled.clean_ofText (by decide), hxs y hy⟩ p hp
  rw [h.line_eq]
  refine List.forall_mem_cons.2 ⟨Styled.clean_color .red, ?_⟩
  exact Styled.clean_append.2
    ⟨Styled.clean_ofText i.mnemonic.shown_name.2.2, Styled.clean_paint .blue hjoined⟩

/-- What is visible of the line. -/
theorem plain_line (h : i.MadeOf op args) : (Disassembly.line (op.byte :: args)).plain
    = i.mnemonic.name.lower ++ (blanksBehind i.mnemonic ++ (Styled.joinWith ", ".toList
      (Disassembly.operandList (i.operands.map fun o => o.value.kind) args)).plain) := by
  have hword : Styled.plain (.escape Color.red.code :: Styled.ofText
      (i.mnemonic.name.lower.padRight 6)) = i.mnemonic.name.lower ++ blanksBehind i.mnemonic :=
    Styled.plain_ofText _
  rw [h.line_eq, Styled.twoTone, Styled.plain_append, hword, Styled.plain_paint,
    List.append_assoc]

/-- **A line is how its instruction is written**, up to blanks behind it. -/
theorem writes_line (h : i.MadeOf op args) : ∃ t gap,
    (Disassembly.line (op.byte :: args)).render.withoutEscapes = t ++ gap
      ∧ Writes (.instruction i) t ∧ Gap gap := by
  obtain ⟨hgap, hne⟩ := gap_blanksBehind i.mnemonic
  have hname := i.mnemonic.shown_name.1
  have hvalues := h.values
  rw [Styled.withoutEscapes_render h.clean_line, h.plain_line]
  cases hoperands : i.operands with
  | nil =>
    -- the blanks are all that follows the mnemonic
    rw [hoperands] at hvalues
    cases hvalues
    exact ⟨_, _, rfl, .bare hname hoperands, by simpa [Disassembly.operandList, Styled.joinWith,
      Styled.plain] using hgap⟩
  | cons o os =>
    rw [hoperands] at hvalues
    cases hvalues with
    | @cons _ b _ args ho hos =>
      refine ⟨_, [], (List.append_nil _).symm, ?_, .nil⟩
      rw [List.map_cons, Disassembly.operandList, Styled.joinWith_cons, Styled.plain_append]
      exact .code hname hgap hne (by rw [hoperands, List.map_cons]) ho.writesValue
        (writesFollowing_operandList hos)

end Instruction.MadeOf

/-! ## §4. Instructions that can be listed. -/

/-- **An encoded instruction that can be listed**: its opcode neither ends the
program nor jumps, it has a byte for each operand, and where a register is
wanted this is at most 3. -/
def Listable (code : List Byte) : Prop :=
  ∃ (op : Opcode) (args : List Byte), code = op.byte :: args
    ∧ op ≠ .halt ∧ (∀ c, op ≠ .jump c)
    ∧ args.length = op.operands.length
    ∧ ∀ e ∈ op.operands.zip args, e.1 = .register ∨ e.1 = .registerAddress → e.2 ≤ 3

/-- Only a jump takes a label, and no opcode a string. -/
theorem Opcode.operands_of_ne_jump (op : Opcode) (h : ∀ c, op ≠ .jump c) :
    .label ∉ op.operands ∧ .string ∉ op.operands := by
  cases op with
  | unary op => cases op <;> decide
  | binaryRegister op => cases op <;> decide
  | binaryNumber op => cases op <;> decide
  | jump c => exact absurd rfl (h c)
  | _ => decide

theorem Opcode.mnemonic_ne_finish (op : Opcode) (h : op ≠ .halt) : op.mnemonic ≠ .finish := by
  cases op with
  | halt => exact absurd rfl h
  | _ => simp [mnemonic]

/-- A byte of a kind is that of an operand of the kind. -/
theorem exists_hasByte {kind : OperandKind} {b : Byte} (hlabel : kind ≠ .label)
    (hstring : kind ≠ .string) (hregister : kind = .register ∨ kind = .registerAddress → b ≤ 3) :
    ∃ v : Operand.Value, v.kind = kind ∧ v.HasByte b := by
  have hcode : b ≤ 3 → ∃ r : Register, r.code = b := by
    intro hle
    obtain ⟨r, hr⟩ := Option.isSome_iff_exists.1 ((Register.ofCode?_isSome_iff b).2 hle)
    exact ⟨r, Register.code_of_ofCode? hr⟩
  cases kind with
  | number => exact ⟨_, rfl, .number b⟩
  | address => exact ⟨_, rfl, .address b⟩
  | register =>
    obtain ⟨r, rfl⟩ := hcode (hregister (.inl rfl))
    exact ⟨_, rfl, .register r⟩
  | registerAddress =>
    obtain ⟨r, rfl⟩ := hcode (hregister (.inr rfl))
    exact ⟨_, rfl, .registerAddress r⟩
  | label => exact absurd rfl hlabel
  | string => exact absurd rfl hstring

theorem exists_operands {kinds : List OperandKind} {args : List Byte} (hlabel : .label ∉ kinds)
    (hstring : .string ∉ kinds) (hlength : args.length = kinds.length)
    (hregisters : ∀ e ∈ kinds.zip args, e.1 = .register ∨ e.1 = .registerAddress → e.2 ≤ 3) :
    ∃ os : List Operand, (os.map fun o => o.value.kind) = kinds
      ∧ List.Forall₂ (fun o b => o.value.HasByte b) os args := by
  induction kinds generalizing args with
  | nil =>
    obtain rfl := List.eq_nil_of_length_eq_zero hlength
    exact ⟨[], rfl, .nil⟩
  | cons kind kinds ih =>
    obtain ⟨b, args, rfl⟩ := List.exists_cons_of_length_eq_add_one hlength
    rw [List.mem_cons, not_or] at hlabel hstring
    rw [List.zip_cons_cons, List.forall_mem_cons] at hregisters
    obtain ⟨v, rfl, hv⟩ :=
      exists_hasByte (Ne.symm hlabel.1) (Ne.symm hstring.1) hregisters.1
    obtain ⟨os, rfl, hos⟩ := ih hlabel.2 hstring.2 (Nat.succ.inj hlength) hregisters.2
    exact ⟨⟨v, ⟨0, 0⟩⟩ :: os, rfl, .cons hv hos⟩

/-- What can be listed is the code of an instruction, which is not END. -/
theorem Listable.exists_madeOf {code : List Byte} (h : Listable code) :
    ∃ i op args, code = op.byte :: args ∧ i.MadeOf op args
      ∧ (Statement.instruction i).isEnd = false := by
  obtain ⟨op, args, rfl, hhalt, hjump, hlength, hregisters⟩ := h
  obtain ⟨hlabel, hstring⟩ := op.operands_of_ne_jump hjump
  obtain ⟨os, hkinds, hvalues⟩ := exists_operands hlabel hstring hlength hregisters
  refine ⟨⟨op.mnemonic, some op, os, ⟨0, 0⟩⟩, op, args, rfl, ⟨rfl, rfl, hkinds, hvalues⟩, ?_⟩
  exact decide_eq_false (op.mnemonic_ne_finish hhalt)

/-! ## §5. Listings. -/

/-- **The disassembly** of the codes without its colours: a line for each, and a
line END. -/
def disassembly (codes : List (List Byte)) : Text :=
  (codes.flatMap fun code => (Disassembly.line code).render.withoutEscapes ++ ['\n'])
    ++ "END\n".toList

/-- The instruction of the line END. -/
def endInstruction : Instruction := ⟨.finish, some .halt, [], ⟨0, 0⟩⟩

theorem madeOf_endInstruction : endInstruction.MadeOf .halt [] := ⟨rfl, rfl, rfl, .nil⟩

/-- A disassembly is how some statements are written, and these have the codes. -/
theorem exists_writesAll {codes : List (List Byte)} (h : ∀ code ∈ codes, Listable code) :
    ∃ before : List Statement, (∀ s ∈ before, s.isEnd = false ∧ s.Canonical)
      ∧ List.Forall₂ Statement.HasCode before codes
      ∧ WritesAll (before ++ [.instruction endInstruction]) (disassembly codes) := by
  have hline : Gap ['\n'] := .blank (by decide) .nil
  induction codes with
  | nil =>
    have hend : Writes (.instruction endInstruction) "END".toList := .bare rfl rfl
    have hlast : WritesAll [.instruction endInstruction] ("END".toList ++ ['\n']) :=
      .last hend (.gap hline)
    refine ⟨[], ?_, .nil, hlast⟩
    intro s hs
    exact absurd hs (by simp)
  | cons code codes ih =>
    obtain ⟨hcode, hcodes⟩ := List.forall_mem_cons.1 h
    obtain ⟨i, op, args, rfl, hmade, hend⟩ := hcode.exists_madeOf
    obtain ⟨t, gap, htext, hwrites, hgap⟩ := hmade.writes_line
    obtain ⟨before, hbefore, hhas, hall⟩ := ih hcodes
    refine ⟨.instruction i :: before, List.forall_mem_cons.2 ⟨⟨hend, hmade.canonical⟩, hbefore⟩,
      .cons ⟨i, rfl, op, args, rfl, hmade⟩ hhas, ?_⟩
    have hwritten := WritesAll.cons hwrites (hgap.append hline) (by simp) hall
    have hsplit : disassembly ((op.byte :: args) :: codes)
        = t ++ (gap ++ ['\n'] ++ disassembly codes) := by
      simp only [disassembly, List.flatMap_cons, htext, List.append_assoc]
    rw [hsplit]
    exact hwritten

/-- Where a statement stands in the source does not matter for its code. -/
theorem hasCode_unplaced {s : Statement} {code : List Byte} :
    s.unplaced.HasCode code ↔ s.HasCode code := by
  have hmade : ∀ (i : Instruction) op args, i.unplaced.MadeOf op args ↔ i.MadeOf op args := by
    intro i op args
    have hkinds : i.unplaced.kinds = i.kinds := by
      rw [Instruction.kinds, Instruction.unplaced, List.map_map]
      rfl
    have hvalues : List.Forall₂ (fun o b => o.value.HasByte b) i.unplaced.operands args
        ↔ List.Forall₂ (fun o b => o.value.HasByte b) i.operands args := by
      rw [Instruction.unplaced, List.forall₂_map_left_iff]
      rfl
    exact ⟨fun h => ⟨h.mnemonic, h.opcode, hkinds.symm.trans h.kinds, hvalues.1 h.values⟩,
      fun h => ⟨h.mnemonic, h.opcode, hkinds.trans h.kinds, hvalues.2 h.values⟩⟩
  cases s with
  | label name span => simp [Statement.HasCode, Statement.unplaced]
  | instruction i =>
    simp only [Statement.HasCode, Statement.unplaced, Statement.instruction.injEq,
      exists_eq_left', Instruction.HasCode, hmade]

/-- **A disassembly is a source**, and it is assembled to the bytes that were
shown, with END behind them; each instruction stands where it stood. -/
theorem assemble_disassembly {codes : List (List Byte)} (h : ∀ code ∈ codes, Listable code)
    (hlength : codes.flatten.length ≤ 255) :
    ∃ p, assemble (disassembly codes) = .ok p ∧ p.bytes = codes.flatten ++ [0]
      ∧ List.Forall₂ (fun e e' => Stands e e' ∧ e.2.encode = .ok e'.2) p.instructions.entries
        (codesFrom 0 (codes ++ [[0]])) := by
  obtain ⟨before, hbefore, hhas, hall⟩ := exists_writesAll h
  have hcanonical : Canonical (before ++ [.instruction endInstruction]) := by
    refine ⟨⟨before, _, rfl, rfl, fun s hs => (hbefore s hs).1⟩, ?_⟩
    intro s hs
    rw [List.mem_append, List.mem_singleton] at hs
    rcases hs with hs | rfl
    · exact (hbefore s hs).2
    · exact madeOf_endInstruction.canonical
  -- what is read has the codes, because places do not matter for them
  have hprints : Prints _ (disassembly codes) := ⟨[], _, rfl, .nil, hall⟩
  obtain ⟨ss, hparse, hsame⟩ := parse_of_prints hcanonical hprints
  have hcodes : List.Forall₂ Statement.HasCode (before ++ [.instruction endInstruction])
      (codes ++ [[0]]) :=
    List.rel_append hhas (.cons ⟨_, rfl, _, _, rfl, madeOf_endInstruction⟩ .nil)
  have hread : List.Forall₂ Statement.HasCode ss (codes ++ [[0]]) := by
    have hmapped := List.forall₂_map_left_iff.2 (hcodes.imp fun _ _ => hasCode_unplaced.2)
    rw [← hsame, List.forall₂_map_left_iff] at hmapped
    exact hmapped.imp fun _ _ => hasCode_unplaced.1
  have hflatten : (codes ++ [[0]]).flatten = codes.flatten ++ [0] := by simp
  have hfits : (codes ++ [[0]]).flatten.length ≤ memorySize := by
    rw [hflatten, List.length_append]
    exact Nat.succ_le_succ hlength
  obtain ⟨p, hp, hbytes, hstand⟩ := assembleStatements_inRow hread hfits
  refine ⟨p, ?_, hbytes.trans hflatten, hstand.imp fun e e' he => ⟨he, he.code.encode_eq⟩⟩
  rw [assemble, hparse]
  exact hp

/-- Mnemonics that look like numbers, a register in brackets and an address, and
an instruction without operands. -/
def awkwardCodes : List (List Byte) :=
  [[0xA5, 0x00], [0xB0, 0x03, 0xAD], [0xD4, 0x02, 0x01], [0xDC, 0x02, 0xDD], [0xEA]]

theorem assemble_disassembly_awkward :
    disassembly awkwardCodes
        = "dec   AL\nadd   DL, AD\nmov   [CL], BL\ncmp   CL, [DD]\npushf \nEND\n".toList
      ∧ ∃ p, assemble (disassembly awkwardCodes) = .ok p
        ∧ p.bytes = [0xA5, 0, 0xB0, 3, 0xAD, 0xD4, 2, 1, 0xDC, 2, 0xDD, 0xEA, 0]
        ∧ p.instructions.keys = [0, 2, 5, 8, 11, 12] := by
  have hlistable : ∀ code ∈ awkwardCodes, Listable code := by
    intro code hcode
    simp only [awkwardCodes, List.mem_cons, List.not_mem_nil, or_false] at hcode
    rcases hcode with rfl | rfl | rfl | rfl | rfl
    · exact ⟨.unary .dec, [0], rfl, by decide, by simp, by decide, by decide⟩
    · exact ⟨.binaryNumber .add, [3, 0xAD], rfl, by decide, by simp, by decide, by decide⟩
    · exact ⟨.storeIndirect, [2, 1], rfl, by decide, by simp, by decide, by decide⟩
    · exact ⟨.compareDirect, [2, 0xDD], rfl, by decide, by simp, by decide, by decide⟩
    · exact ⟨.pushf, [], rfl, by decide, by simp, by decide, by decide⟩
  obtain ⟨p, hp, hbytes, hstand⟩ := assemble_disassembly hlistable (by decide)
  refine ⟨by decide +kernel, p, hp, hbytes, ?_⟩
  exact (map_eq_of_forall₂ hstand fun e e' he => he.1.address.symm).symm

end EightBit
