/-
  EightBit.Proofs.Program.Places
  ──────────────────────────────
  **WHAT IS SAID OF A SOURCE IS SAID OF A PLACE IN IT.**

  Spans are made with the tokens, joined by the reader, kept in the label table and
  in the program, and cut out of the source again when something is shown.  Along
  this way every span goes on marking a part of the source, and a span that is kept
  with the name of a label marks that name.  So each error, wherever it comes from,
  is about a place that can be shown, and so is everything in a program.

  Main results:
    • `outcome_statements` — the statements that are read, or the error;
    • `outcome_assemble`   — the program that is assembled, or the error;
    • `places_of_assemble` — what can be shown of either.
-/
import EightBit.Program.Diagnostic
import EightBit.Program.Listing
import EightBit.Proofs.Program.Marking

namespace EightBit

/-! ## §1. What statements say of their places. -/

/-- The operand marks a part of the source, and that is its name if it is a label. -/
def Operand.Points (source : Text) (o : Operand) : Prop :=
  ∃ part, o.span.Marks source part ∧ ∀ name distance, o.value = .label name distance →
    part.upper = name

/-- The instruction and its operands mark parts of the source. -/
structure Instruction.Points (source : Text) (i : Instruction) : Prop where
  marks : ∃ part, i.span.Marks source part
  operands : ∀ o ∈ i.operands, o.Points source

def Statement.Points (source : Text) : Statement → Prop
  | .label name span => ∃ part, span.Marks source part ∧ Declares name part
  | .instruction i => i.Points source

/-! ## §2. Reading. -/

section Reading

variable {source : Text} {t : Token} {ts : List Token} {admitted : List OperandKind}
  {ending : SourceError}

theorem outcome_labelName (h : t.Marked source) (hword : t.isWord = true) :
    Outcome (fun name => name = t.text) (SourceError.Points source) (labelName t) := by
  unfold labelName
  split
  · exact rfl
  · obtain ⟨part, hmarks, hpart⟩ := h.word hword
    exact ⟨part, hmarks, hpart⟩

theorem outcome_numberByte (h : t.Marked source) :
    Outcome (fun _ => True) (SourceError.Points source) (numberByte t) := by
  unfold numberByte
  split
  · trivial
  · exact h.points fun _ => trivial

theorem Operand.outcome_addressValue (h : t.Marked source) :
    Outcome (fun v => v.kind ≠ .label) (SourceError.Points source) (addressValue t) := by
  unfold addressValue
  split
  · exact fun hkind => absurd hkind (by simp [Value.kind])
  · split
    · exact (outcome_numberByte h).map fun _ _ => by simp [Value.kind]
    · exact h.points fun _ => trivial

/-- Only a word is read as a label. -/
theorem Operand.outcome_readValue (h : t.Marked source) (admitted : List OperandKind) :
    Outcome (fun v => v.kind ≠ .label ∨ t.isWord = true ∧ v = .label t.text none)
      (SourceError.Points source) (readValue admitted t) := by
  have hlabel : t.isWord = true → Outcome
      (fun v => v.kind ≠ .label ∨ t.isWord = true ∧ v = .label t.text none)
      (SourceError.Points source) ((labelName t).map (Value.label · none)) := by
    intro hword
    refine (outcome_labelName h hword).map fun name hname => Or.inr ⟨hword, ?_⟩
    rw [hname]
  have htype : SourceError.Points source ⟨.operandType admitted t.describe, t.span⟩ :=
    h.points fun _ => trivial
  unfold readValue
  cases hkind : t.kind with
  | number =>
    have hword : t.isWord = true := by simp [Token.isWord, hkind]
    simp only
    split
    · exact hlabel hword
    · exact (outcome_numberByte h).map fun _ _ => Or.inl (by simp [Value.kind])
  | ident =>
    have hword : t.isWord = true := by simp [Token.isWord, hkind]
    simp only
    split
    · exact hlabel hword
    · exact htype
  | register r => exact Or.inl (by simp [Value.kind])
  | address => exact (outcome_addressValue h).mono (fun _ hv => Or.inl hv) fun _ he => he
  | string => exact Or.inl (by simp [Value.kind])
  | colon | comma => exact htype

/-- **One operand** stands where its token does. -/
theorem Operand.outcome_read (h : t.Marked source) (admitted : List OperandKind) :
    Outcome (fun o => o.Points source ∧ o.span = t.span) (SourceError.Points source)
      (read admitted t) := by
  have hvalue := outcome_readValue h admitted
  unfold read
  cases hread : readValue admitted t with
  | error e => exact hvalue.of_error hread
  | ok v =>
    simp only
    split
    · refine ⟨?_, rfl⟩
      rcases hvalue.of_ok hread with hkind | ⟨hword, rfl⟩
      · obtain ⟨spelling, -, hmarks, -⟩ := h
        refine ⟨spelling, hmarks, fun name distance hv => absurd ?_ hkind⟩
        rw [show v = .label name distance from hv]
        rfl
      · obtain ⟨part, hmarks, hpart⟩ := h.word hword
        refine ⟨part, hmarks, fun name distance hv => ?_⟩
        injection hv with hname
        rw [hpart, hname]
    · exact h.points fun _ => trivial

/-- Behind a comma fewer tokens are left. -/
theorem outcome_skipComma (h : Located source ts) (hending : ending.Points source) :
    Outcome (fun rest => rest.Sublist ts) (SourceError.Points source) (skipComma ending ts) := by
  cases ts with
  | nil => exact hending
  | cons t rest =>
    unfold skipComma
    simp only
    split
    · exact List.sublist_cons_self t rest
    · exact (h.marked t List.mem_cons_self).points fun _ => trivial

/-- **Operands** stand where the tokens do, none in front of `start`. -/
theorem Instruction.outcome_readOperands {m : Mnemonic} {count start : Nat} {before : List Operand}
    (h : Located source ts) (hending : ending.Points source)
    (hstart : ∀ t ∈ ts, start ≤ t.span.start)
    (hbefore : ∀ o ∈ before, o.Points source ∧ start ≤ o.span.start) :
    Outcome (fun result => (∀ o ∈ result.1, o.Points source ∧ start ≤ o.span.start)
        ∧ result.2.Sublist ts)
      (SourceError.Points source) (readOperands m ending count before ts) := by
  induction count generalizing before ts with
  | zero => exact ⟨hbefore, List.Sublist.refl ts⟩
  | succ count ih =>
    have hcomma : Outcome (fun rest => rest.Sublist ts) (SourceError.Points source)
        (if before.isEmpty then .ok ts else skipComma ending ts) := by
      split
      · exact List.Sublist.refl ts
      · exact outcome_skipComma h hending
    unfold readOperands
    split
    · next e he => exact hcomma.of_error he
    · exact hending
    · next t rest hrest =>
      have hsub : (t :: rest).Sublist ts := hcomma.of_ok hrest
      have ht : t ∈ ts := hsub.subset List.mem_cons_self
      have hread := Operand.outcome_read (h.marked t ht)
        (m.admitted before.length (before.map fun o => o.value.kind))
      split
      · next e he => exact hread.of_error he
      · next o ho =>
        obtain ⟨hpoints, hspan⟩ := hread.of_ok ho
        have hmore : rest.Sublist ts := (List.sublist_cons_self t rest).trans hsub
        refine (ih (h.sublist hmore) (fun u hu => hstart u (hmore.subset hu)) ?_).mono
          (fun _ hresult => ⟨hresult.1, hresult.2.trans hmore⟩) fun _ he => he
        intro o' ho'
        rcases List.mem_append.1 ho' with ho' | ho'
        · exact hbefore o' ho'
        · obtain rfl := List.mem_singleton.1 ho'
          exact ⟨hpoints, hspan ▸ hstart t ht⟩

/-- A name and a colon are the ends of a declaration. -/
theorem declares_of_label {head colon : Token} (hhead : head.Marked source)
    (hcolon : colon.Marked source) (hword : head.isWord = true) (hkind : colon.kind = .colon)
    (hle : head.span.stop ≤ colon.span.start) :
    ∃ part, (head.span.join colon.span).Marks source part ∧ Declares head.text part := by
  obtain ⟨part, hmarks, hpart⟩ := hhead.word hword
  obtain ⟨gap, hjoin⟩ := hmarks.join (hcolon.colon hkind) hle
  refine ⟨_, hjoin, ?_, ?_⟩
  · rw [Text.upper_append, hpart]
    exact List.prefix_append _ _
  · rw [← List.append_assoc, List.getLast?_concat]

/-- An instruction goes from its mnemonic to its last operand. -/
theorem Instruction.points_ofOperands {m : Mnemonic} {head : Token} {operands : List Operand}
    (hhead : head.Marked source)
    (h : ∀ o ∈ operands, o.Points source ∧ head.span.stop ≤ o.span.start) :
    (ofOperands m head.span operands).Points source where
  marks := by
    obtain ⟨spelling, -, hmarks, -⟩ := hhead
    rw [span_ofOperands]
    cases hlast : operands.getLast? with
    | none => exact ⟨spelling, hmarks⟩
    | some o =>
      obtain ⟨⟨part, hpart, -⟩, hle⟩ := h o (List.mem_of_getLast? hlast)
      obtain ⟨gap, hjoin⟩ := hmarks.join hpart hle
      exact ⟨_, hjoin⟩
  operands o ho := (h o ho).1

/-- **One statement** stands where its tokens do. -/
theorem Statement.outcome_read (h : Located source ts) (hending : ending.Points source) :
    Outcome (fun result => result.1.Points source ∧ result.2.Sublist ts)
      (SourceError.Points source) (read ending ts) := by
  cases ts with
  | nil => exact hending
  | cons head rest =>
    have hhead : head.Marked source := h.marked head List.mem_cons_self
    obtain ⟨hfront, -⟩ := List.pairwise_cons.1 h.ordered
    have hrest : Located source rest := h.sublist (List.sublist_cons_self head rest)
    have hstatement : SourceError.Points source ⟨.statement head.describe, head.span⟩ :=
      hhead.points fun _ => trivial
    by_cases hword : head.isWord = true
    · by_cases hlabel : ∃ colon rest', rest = colon :: rest' ∧ colon.kind = .colon
      · obtain ⟨colon, rest', rfl, hkind⟩ := hlabel
        rw [read_label hword hkind]
        refine (outcome_labelName hhead hword).map fun name hname => ⟨?_, ?_⟩
        · subst hname
          exact declares_of_label hhead (hrest.marked colon List.mem_cons_self) hword hkind
            (hfront colon List.mem_cons_self)
        · exact ((List.sublist_cons_self colon rest').trans (List.sublist_cons_self head _))
      · have hnext : ∀ t, rest.head? = some t → t.kind ≠ .colon := by
          intro t ht hkind
          obtain ⟨rest', rfl⟩ := List.head?_eq_some_iff.1 ht
          exact hlabel ⟨t, rest', rfl, hkind⟩
        rw [read_code hword hnext]
        split
        · exact hstatement
        · next m hm =>
          refine (Instruction.outcome_readOperands hrest hending hfront (by simp)).map ?_
          intro result hresult
          exact ⟨Instruction.points_ofOperands hhead hresult.1,
            hresult.2.trans (List.sublist_cons_self head rest)⟩
    · rw [read_of_not_isWord hword]
      exact hstatement

/-- **A program** is read as statements that mark parts of the source, or the error
is about one. -/
theorem outcome_statements (h : Located source ts) (hending : ending.Points source) :
    Outcome (fun ss => ∀ s ∈ ss, s.Points source) (SourceError.Points source)
      (statements ending ts) := by
  fun_induction statements ending ts with
  | case1 ts e hread => exact (Statement.outcome_read h hending).of_error hread
  | case2 ts s rest hread hend =>
    obtain ⟨hpoints, -⟩ := (Statement.outcome_read h hending).of_ok hread
    exact List.forall_mem_singleton.2 hpoints
  | case3 ts s rest hread hend ih =>
    obtain ⟨hpoints, hsub⟩ := (Statement.outcome_read h hending).of_ok hread
    exact (ih (h.sublist hsub)).map fun ss hss => List.forall_mem_cons.2 ⟨hpoints, hss⟩

theorem outcome_parse (source : Text) : Outcome (fun ss => ∀ s ∈ ss, s.Points source)
    (SourceError.Points source) (parse source) := by
  refine outcome_statements (located_lex source) ?_
  cases hfailure : (lex source).failure with
  | none => exact points_missingEnd source
  | some e => exact points_lex hfailure

end Reading

/-! ## §3. Labels. -/

/-- What is known of a label is about its name: the declaration begins with it, and
it stands wherever it is used. -/
structure LabelEntry.Points (source name : Text) (e : LabelEntry) : Prop where
  declared : ∀ span, e.declared = some span → ∃ part, span.Marks source part ∧ Declares name part
  references : ∀ span ∈ e.references, ∃ part, span.Marks source part ∧ part.upper = name

def LabelTable.Points (source : Text) (t : LabelTable) : Prop :=
  ∀ entry ∈ t.entries, entry.2.Points source entry.1

/-- What holds of all entries holds after a change that keeps it. -/
theorem Entries.forall_alter {κ ν : Type} [DecidableEq κ] {P : κ × ν → Prop} {k : κ}
    {f : Option ν → ν} {es : List (κ × ν)} (h : ∀ e ∈ es, P e)
    (hf : ∀ old, (∀ v, old = some v → P (k, v)) → P (k, f old)) : ∀ e ∈ alter k f es, P e := by
  induction es with
  | nil => exact List.forall_mem_singleton.2 (hf none (by simp))
  | cons e es ih =>
    obtain ⟨hfirst, hrest⟩ := List.forall_mem_cons.1 h
    obtain ⟨key, value⟩ := e
    rw [alter]
    split
    · next hkey =>
      subst hkey
      refine List.forall_mem_cons.2 ⟨hf (some value) fun v hv => ?_, hrest⟩
      exact Option.some.inj hv ▸ hfirst
    · exact List.forall_mem_cons.2 ⟨hfirst, ih hrest⟩

section Labels

variable {source name : Text} {span : Span} {t : LabelTable}

theorem LabelEntry.points_getD {old : Option LabelEntry}
    (h : ∀ e, old = some e → e.Points source name) : (old.getD .unknown).Points source name := by
  cases old with
  | none => exact ⟨fun _ hspan => absurd hspan (by simp [unknown]), by simp [unknown]⟩
  | some e => exact h e rfl

theorem LabelTable.Points.outcome_declare (h : t.Points source) (address : Byte)
    (hspan : ∃ part, span.Marks source part ∧ Declares name part) :
    Outcome (LabelTable.Points source) (SourceError.Points source)
      (t.declare name address span) := by
  unfold declare
  split
  · exact hspan
  · refine Entries.forall_alter h fun old hold => ?_
    refine ⟨fun span' hspan' => ?_, (LabelEntry.points_getD hold).references⟩
    obtain rfl := Option.some.inj hspan'
    exact hspan

theorem LabelTable.Points.reference (h : t.Points source)
    (hspan : ∃ part, span.Marks source part ∧ part.upper = name) :
    (t.reference name span).Points source := by
  refine Entries.forall_alter h fun old hold => ?_
  have hentry := LabelEntry.points_getD hold
  refine ⟨hentry.declared, fun span' hspan' => ?_⟩
  rcases List.mem_append.1 hspan' with hspan' | hspan'
  · exact hentry.references span' hspan'
  · obtain rfl := List.mem_singleton.1 hspan'
    exact hspan

theorem LabelTable.Points.referenceAll {uses : List (Text × Span)} (h : t.Points source)
    (huses : ∀ use ∈ uses, ∃ part, use.2.Marks source part ∧ part.upper = use.1) :
    (t.referenceAll uses).Points source := by
  induction uses generalizing t with
  | nil => exact h
  | cons use uses ih =>
    obtain ⟨hfirst, hrest⟩ := List.forall_mem_cons.1 huses
    exact ih (h.reference hfirst) hrest

/-- The uses of labels in an instruction stand where their operands do. -/
theorem Instruction.Points.references {i : Instruction} (h : i.Points source) :
    ∀ use ∈ i.references, ∃ part, use.2.Marks source part ∧ part.upper = use.1 := by
  intro use huse
  rw [references_eq] at huse
  obtain ⟨o, ho, hsome⟩ := List.mem_filterMap.1 huse
  obtain ⟨part, hmarks, hpart⟩ := h.operands o ho
  unfold Operand.use? at hsome
  split at hsome
  · next name distance hvalue =>
    obtain rfl := Option.some.inj hsome
    exact ⟨part, hmarks, hpart name distance hvalue⟩
  · exact absurd hsome (by simp)

/-! ## §4. The program. -/

/-- **Layout** keeps the labels, and every instruction that it places. -/
theorem outcome_ofStatements {ss : List Statement} (ht : t.Points source)
    (hss : ∀ s ∈ ss, s.Points source) (cursor : Nat) :
    Outcome (fun layout => layout.labels.Points source
        ∧ ∀ entry ∈ layout.placed, entry.2.Points source)
      (SourceError.Points source) (Layout.ofStatements cursor t ss) := by
  induction ss generalizing cursor t with
  | nil => exact ⟨ht, by simp⟩
  | cons s ss ih =>
    obtain ⟨hs, hrest⟩ := List.forall_mem_cons.1 hss
    cases s with
    | label name span =>
      have hdeclare := ht.outcome_declare (UInt8.ofNat cursor) hs
      unfold Layout.ofStatements
      simp only
      split
      · next e he => exact hdeclare.of_error he
      · next t' ht' => exact ih (hdeclare.of_ok ht') hrest _
    | instruction i =>
      unfold Layout.ofStatements
      simp only
      split
      · exact ih ht hrest _
      · split
        · obtain ⟨part, hmarks⟩ := hs.marks
          exact ⟨part, hmarks, trivial⟩
        · refine (ih (ht.referenceAll hs.references) hrest _).map fun layout hlayout => ?_
          exact ⟨hlayout.1, List.forall_mem_cons.2 ⟨hs, hlayout.2⟩⟩

end Labels

section Emission

variable {source : Text} {p : Assembled} {labels : LabelTable} {address : Byte}

/-- An operand stays where it is when its distance is found. -/
theorem Operand.Points.outcome_resolve {o : Operand} (h : o.Points source) :
    Outcome (Operand.Points source) (SourceError.Points source) (o.resolve labels address) := by
  obtain ⟨part, hmarks, hpart⟩ := h
  unfold resolve
  split
  · next name distance hvalue =>
    have hname := hpart name distance hvalue
    split
    · exact ⟨part, hmarks, hname⟩
    · simp only
      split
      · refine ⟨part, hmarks, fun name' distance' hv => ?_⟩
        injection hv with hsame
        rw [hname, hsame]
      · exact ⟨part, hmarks, hname⟩
  · exact ⟨part, hmarks, hpart⟩

/-- An error in the bytes of an operand is about the operand. -/
theorem Operand.Points.outcome_encode {o : Operand} (h : o.Points source) :
    Outcome (fun _ => True) (SourceError.Points source) o.encode := by
  obtain ⟨part, hmarks, hpart⟩ := h
  unfold encode
  cases hvalue : o.value with
  | number | address | register | registerAddress => trivial
  | label name distance =>
    cases distance with
    | none => exact ⟨part, hmarks, hpart name none hvalue⟩
    | some distance => trivial
  | string text =>
    have hchars : ∀ c ∈ text, Outcome (fun _ => True) (SourceError.Points source)
        (charByte o.span c) := by
      intro c _
      unfold charByte
      split
      · trivial
      · exact ⟨part, hmarks, trivial⟩
    exact (Outcome.mapM hchars).mono (fun _ _ => trivial) fun _ he => he

theorem Instruction.Points.outcome_resolve {i : Instruction} (h : i.Points source) :
    Outcome (Instruction.Points source) (SourceError.Points source) (i.resolve labels address) :=
  (Outcome.mapM fun o ho => (h.operands o ho).outcome_resolve).map
    fun _ hoperands => ⟨h.marks, hoperands⟩

theorem Instruction.Points.outcome_encode {i : Instruction} (h : i.Points source) :
    Outcome (fun _ => True) (SourceError.Points source) i.encode :=
  (Outcome.mapM fun o ho => (h.operands o ho).outcome_encode).map fun _ _ => trivial

/-- The labels and the instructions of a program mark parts of the source. -/
structure Assembled.Points (source : Text) (p : Assembled) : Prop where
  labels : p.labels.Points source
  instructions : ∀ entry ∈ p.instructions.entries, entry.2.Points source

theorem Assembled.Points.place {i : Instruction} {bytes : List Byte} (h : p.Points source)
    (hi : i.Points source) : (p.place address i bytes).Points source := by
  unfold Assembled.place
  split
  · exact h
  · exact ⟨h.labels, Entries.forall_alter h.instructions fun _ _ => hi⟩

/-- **Emission** leaves them where they are. -/
theorem outcome_emit_points {placed : List (Byte × Instruction)} (h : p.Points source)
    (hplaced : ∀ entry ∈ placed, entry.2.Points source) :
    Outcome (Assembled.Points source) (SourceError.Points source) (p.emit placed) := by
  induction placed generalizing p with
  | nil => exact h
  | cons entry placed ih =>
    obtain ⟨address, i⟩ := entry
    obtain ⟨hi, hrest⟩ := List.forall_mem_cons.1 hplaced
    have hresolve : Outcome (Instruction.Points source) (SourceError.Points source)
        (i.resolve p.labels address) := hi.outcome_resolve
    unfold Assembled.emit
    split
    · next e he => exact hresolve.of_error he
    · next i' hi' =>
      have hmarked : i'.Points source := hresolve.of_ok hi'
      split
      · next e he => exact hmarked.outcome_encode.of_error he
      · exact ih (h.place hmarked) hrest

/-- **A source** is assembled to a program that marks parts of it, or the error is
about one. -/
theorem outcome_assemble (source : Text) :
    Outcome (Assembled.Points source) (SourceError.Points source) (assemble source) := by
  have hparse := outcome_parse source
  unfold assemble
  split
  · next e he => exact hparse.of_error he
  · next ss hss =>
    have hempty : LabelTable.Points source .empty :=
      fun entry hentry => absurd hentry (by simp [OrderedMap.empty])
    have hlayout := outcome_ofStatements hempty (hparse.of_ok hss) 0
    unfold assembleStatements
    split
    · next e he => exact hlayout.of_error he
    · next layout hl =>
      obtain ⟨hlabels, hplaced⟩ := hlayout.of_ok hl
      exact outcome_emit_points ⟨hlabels, by simp [OrderedMap.empty]⟩ hplaced

end Emission

/-! ## §5. What can be shown. -/

/-- **An error that can be shown**: it is about a place in the source, which has a
line and a column, and says what stands there. -/
structure SourceError.WellPlaced (source : Text) (e : SourceError) : Prop where
  within : e.span.Within source
  shows : e.cause.Shows (e.span.slice source)
  position : ∃ position, e.span.position? source = some position
  diagnostic : ∀ file, ∃ d, Diagnostic.ofError? file source e = some d

/-- **A program that can be listed**: its statements, and the declarations and the uses
of its labels, are places in the source, with the labels where they say; and every
instruction is listed with the line on which it starts. -/
structure Assembled.WellPlaced (source : Text) (p : Assembled) : Prop where
  statements : ∀ ss, parse source = .ok ss → ∀ s ∈ ss, s.span.Within source
  instructions : ∀ entry ∈ p.instructions.entries, entry.2.span.Within source
  declared : ∀ entry ∈ p.labels.entries, ∀ span, entry.2.declared = some span →
    span.Within source ∧ Declares entry.1 (span.slice source)
  references : ∀ entry ∈ p.labels.entries, ∀ span ∈ entry.2.references,
    span.Within source ∧ (span.slice source).upper = entry.1
  listed : ∀ entry ∈ p.instructions.entries, ∃ position,
    entry.2.span.position? source = some position
      ∧ entry ∈ Listing.startingOn source p position.line

section Shown

variable {source : Text}

theorem Span.Marks.exists_position {s : Span} {part : Text} (h : s.Marks source part) :
    ∃ position, s.position? source = some position :=
  Option.isSome_iff_exists.1 h.within.isSome_position?

theorem SourceError.Points.wellPlaced {e : SourceError} (h : e.Points source) :
    e.WellPlaced source := by
  obtain ⟨part, hmarks, hshows⟩ := h
  obtain ⟨position, hposition⟩ := hmarks.exists_position
  refine ⟨hmarks.within, ?_, ⟨position, hposition⟩, fun file => ?_⟩
  · rw [hmarks.slice_eq]
    exact hshows
  · rw [← Option.isSome_iff_exists, Diagnostic.ofError?, hposition]
    rfl

theorem Statement.Points.within {s : Statement} (h : s.Points source) : s.span.Within source := by
  cases s with
  | label name span =>
    obtain ⟨part, hmarks, -⟩ := h
    exact hmarks.within
  | instruction i =>
    obtain ⟨part, hmarks⟩ := h.marks
    exact hmarks.within

theorem Assembled.Points.wellPlaced {p : Assembled} (h : p.Points source) :
    p.WellPlaced source where
  statements _ hss s hs := ((outcome_parse source).of_ok hss s hs).within
  instructions entry hentry := by
    obtain ⟨part, hmarks⟩ := (h.instructions entry hentry).marks
    exact hmarks.within
  declared entry hentry span hspan := by
    obtain ⟨part, hmarks, hdeclares⟩ := (h.labels entry hentry).declared span hspan
    rw [hmarks.slice_eq]
    exact ⟨hmarks.within, hdeclares⟩
  references entry hentry span hspan := by
    obtain ⟨part, hmarks, hpart⟩ := (h.labels entry hentry).references span hspan
    rw [hmarks.slice_eq]
    exact ⟨hmarks.within, hpart⟩
  listed entry hentry := by
    obtain ⟨part, hmarks⟩ := (h.instructions entry hentry).marks
    obtain ⟨position, hposition⟩ := hmarks.exists_position
    refine ⟨position, hposition, List.mem_filter.2 ⟨hentry, ?_⟩⟩
    simp [hposition]

end Shown

/-- **Places.**  Whatever is wrong with a source, the error is about a place in it that
can be shown, and says what stands there; and if nothing is wrong, everything in the
program has such a place. -/
theorem places_of_assemble (source : Text) :
    (∀ e, assemble source = .error e → e.WellPlaced source)
      ∧ ∀ p, assemble source = .ok p → p.WellPlaced source := by
  have h := outcome_assemble source
  constructor
  · intro e he
    have hpoints : e.Points source := h.of_error he
    exact hpoints.wellPlaced
  · intro p hp
    have hpoints : p.Points source := h.of_ok hp
    exact hpoints.wellPlaced

/-- A label that is declared twice, the second time across a comment. -/
def declaredTwice : Text := "; \u00e9\nLoop: nop\nLOOP ; \u00fc\n: end".toList

/-- A jump behind a comment that is wider than long. -/
def wideComment : Text := "x: nop ; \u20ac\njmp X end".toList

theorem places_of_assemble_declaredTwice : ∃ e p, assemble declaredTwice = .error e
    ∧ e.cause = .duplicateLabel "LOOP".toList ∧ e.WellPlaced declaredTwice
    ∧ e.span.slice declaredTwice = "LOOP ; \u00fc\n:".toList
    ∧ assemble wideComment = .ok p ∧ p.WellPlaced wideComment
    ∧ p.labels.entries.map (fun entry => entry.2.references) = [[⟨17, 18⟩]] := by
  have herror : (assemble declaredTwice).map (fun _ => ())
      = .error ⟨.duplicateLabel "LOOP".toList, ⟨15, 26⟩⟩ := by decide +kernel
  have hslice : (Span.mk 15 26).slice declaredTwice = "LOOP ; \u00fc\n:".toList := by
    decide +kernel
  have hprogram : (assemble wideComment).toOption.map (fun p =>
      p.labels.entries.map fun entry => entry.2.references) = some [[⟨17, 18⟩]] := by
    decide +kernel
  have he := map_eq_error_iff.1 herror
  obtain ⟨p, hp, hreferences⟩ := exists_of_toOption_map hprogram
  exact ⟨_, p, he, rfl, (places_of_assemble declaredTwice).1 _ he, hslice, hp,
    (places_of_assemble wideComment).2 p hp, hreferences⟩

end EightBit
