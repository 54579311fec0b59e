/-
  EightBit.Proofs.Program.Encoding
  ────────────────────────────────
  **FROM PLACED INSTRUCTIONS TO BYTES.**

  Once a program is laid out, its instructions get their distances and are
  encoded.  What can go wrong is again a function of the program and an index:
  all labels of the instruction come first, from left to right, and then the
  characters of its strings.

  Main results:
    • `length_encode`           — an encoding has as many bytes as its size says;
    • `encode_by_operands`      — which instructions have an encoding, and what
                                  the others are refused with;
    • `resolve_eq_error_iff`    — a label is refused for its own fault;
    • `encode_eq_error_iff`     — the first faulty character is reported;
    • `encodeAt_eq_error_iff`   — both, for an instruction of the program.
-/
import EightBit.Program.Assembly
import EightBit.Proofs.Program.Placement

namespace EightBit

/-! ## §1. Faults by index. -/

/-- What is wrong with a label operand of the statement with index `i`: no
statement declares the label, or the declaration is too far away. -/
def labelFault? (ss : List Statement) (i : Nat) (o : Operand) : Option SourceError :=
  match o.value with
  | .label name _ =>
    match ss.findIdx? (Statement.declares name) with
    | none => some ⟨.unknownLabel name, o.span⟩
    | some j =>
      let distance : Int := cursorAt ss j - cursorAt ss i
      if -128 ≤ distance ∧ distance ≤ 127 then none
      else some ⟨.jumpDistance distance name, o.span⟩
  | _ => none

/-- What is wrong with a character of a string: it is above U+00FF. -/
def charFault? (span : Span) (c : Char) : Option SourceError :=
  if c.toNat ≤ 0xFF then none else some ⟨.invalidNumber (Text.Hex.ofNat c.toNat), span⟩

/-- What is wrong with a string operand: its first character above U+00FF. -/
def stringFault? (o : Operand) : Option SourceError :=
  match o.value with
  | .string text => text.findSome? (charFault? o.span)
  | _ => none

/-- What is wrong with the operands of the statement with index `i`: labels
before strings, each from left to right. -/
def encodingFault? (ss : List Statement) (i : Nat) : Option SourceError :=
  match ss[i]? with
  | some (.instruction code) =>
    if code.mnemonic = .org then none
    else (code.operands.findSome? (labelFault? ss i)).or (code.operands.findSome? stringFault?)
  | _ => none

theorem encodingFault?_of_placesAt {ss : List Statement} {i : Nat} {code : Instruction}
    (h : PlacesAt ss i code) : encodingFault? ss i
      = (code.operands.findSome? (labelFault? ss i)).or (code.operands.findSome? stringFault?) := by
  rw [encodingFault?, h.1]
  exact if_neg h.2

theorem encodingFault?_of_not_placesAt {ss : List Statement} {i : Nat}
    (h : ∀ code, ¬ PlacesAt ss i code) : encodingFault? ss i = none := by
  unfold encodingFault?
  split
  · next code hs =>
    by_cases horg : code.mnemonic = .org
    · rw [if_pos horg]
    · exact absurd ⟨hs, horg⟩ (h code)
  · rfl

/-! ## §2. Bytes of an instruction. -/

theorem charByte_eq_error_iff (span : Span) (c : Char) (e : SourceError) :
    Operand.charByte span c = .error e ↔ charFault? span c = some e := by
  unfold Operand.charByte charFault?
  by_cases h : c.toNat < 256
  · simp [h, show c.toNat ≤ 0xFF by omega]
  · simp [h, show ¬ c.toNat ≤ 0xFF by omega]

/-- An operand takes as many bytes as its width says. -/
theorem Operand.length_encode {o : Operand} {bytes : List Byte} (h : o.encode = .ok bytes) :
    bytes.length = o.value.width := by
  unfold Operand.encode at h
  split at h
  case h_7 text hvalue =>
    rw [hvalue]
    exact (mapM_eq_ok_iff.1 h).length_eq.symm
  case h_6 => exact absurd h (by simp)
  all_goals
    next hvalue =>
    injection h with h
    subst h
    rw [hvalue]
    rfl

/-- What is wrong with an operand on its own: it is a label without its distance,
or a string with a character above U+00FF. -/
def Operand.fault? (o : Operand) : Option SourceError :=
  match o.value with
  | .label name none => some ⟨.unknownLabel name, o.span⟩
  | .string text => text.findSome? (charFault? o.span)
  | _ => none

/-- An operand fails to encode for its own fault. -/
theorem Operand.encode_eq_error_iff (o : Operand) (e : SourceError) :
    o.encode = .error e ↔ o.fault? = some e := by
  unfold Operand.encode Operand.fault?
  cases o.value with
  | string text => exact mapM_eq_error_iff fun c _ e => charByte_eq_error_iff o.span c e
  | label name distance => cases distance <;> simp
  | number n | address a | register r | registerAddress r => simp

/-- Where labels have their distances, only the characters of strings are left to
be at fault. -/
theorem Operand.fault?_eq_stringFault? {o : Operand} (h : ∀ name, o.value ≠ .label name none) :
    o.fault? = stringFault? o := by
  unfold Operand.fault? stringFault?
  cases hvalue : o.value with
  | label name distance =>
    cases distance with
    | none => exact absurd hvalue (h name)
    | some distance => rfl
  | number n | address a | register r | registerAddress r | string text => rfl

namespace Instruction

/-- An encoding has as many bytes as the size of its instruction says. -/
theorem length_encode {i : Instruction} {bytes : List Byte} (horg : i.mnemonic ≠ .org)
    (h : i.encode = .ok bytes) : bytes.length = i.size := by
  obtain ⟨parts, hparts, rfl⟩ := map_eq_ok_iff.1 h
  have hwidths : parts.map List.length = i.operands.map fun o => o.value.width :=
    map_eq_of_mapM hparts fun o bytes => Operand.length_encode
  rw [size, if_neg horg, ← hwidths, List.length_append, List.length_map, List.length_flatten]
  rfl

/-- An instruction fails to encode as its first faulty operand does. -/
theorem encode_eq_error_iff (i : Instruction) (e : SourceError) :
    i.encode = .error e ↔ i.operands.findSome? Operand.fault? = some e := by
  rw [encode, map_eq_error_iff]
  exact mapM_eq_error_iff fun o _ e => Operand.encode_eq_error_iff o e

end Instruction

/-! ## §3. Any instruction, read from a source or not. -/

namespace Operand

/-- The operand has an encoding: a label has its distance, and no character of a
string is above U+00FF. -/
structure Encodable (o : Operand) : Prop where
  distance : ∀ name distance, o.value = .label name distance → distance.isSome = true
  characters : ∀ text, o.value = .string text → ∀ c ∈ text, c.toNat ≤ 0xFF

/-- What an operand without an encoding is refused with, at its own place. -/
inductive Refused : Operand → SourceError → Prop where
  /-- A label without its distance is unknown. -/
  | label (name : Text) (span : Span) :
    Refused ⟨.label name none, span⟩ ⟨.unknownLabel name, span⟩
  /-- The first character of a string above U+00FF is no byte. -/
  | character (front : Text) (c : Char) (back : Text) (span : Span) :
    (∀ d ∈ front, d.toNat ≤ 0xFF) → 0xFF < c.toNat →
    Refused ⟨.string (front ++ c :: back), span⟩ ⟨.invalidNumber (Text.Hex.ofNat c.toNat), span⟩

theorem charFault?_eq_none_iff {span : Span} {c : Char} :
    charFault? span c = none ↔ c.toNat ≤ 0xFF := by
  unfold charFault?
  split <;> simp [*]

/-- An operand has an encoding when nothing is wrong with it. -/
theorem encodable_iff {o : Operand} : o.Encodable ↔ o.fault? = none := by
  obtain ⟨value, span⟩ := o
  constructor
  · intro h
    cases value with
    | label name distance =>
      cases distance with
      | none => exact absurd (h.distance name none rfl) (by simp)
      | some distance => rfl
    | string text =>
      show text.findSome? (charFault? span) = none
      rw [List.findSome?_eq_none_iff]
      exact fun c hc => charFault?_eq_none_iff.2 (h.characters text rfl c hc)
    | number n | address a | register r | registerAddress r => rfl
  · intro h
    cases value with
    | label name distance =>
      cases distance with
      | none => exact absurd h (by simp [fault?])
      | some distance =>
        refine ⟨fun _ _ heq => ?_, fun _ heq => (nomatch heq)⟩
        obtain ⟨-, rfl⟩ := Operand.Value.label.inj heq
        rfl
    | string text =>
      refine ⟨fun _ _ heq => (nomatch heq), fun _ heq c hc => ?_⟩
      cases heq
      exact charFault?_eq_none_iff.1 (List.findSome?_eq_none_iff.1 h c hc)
    | number n | address a | register r | registerAddress r =>
      exact ⟨fun _ _ heq => (nomatch heq), fun _ heq => (nomatch heq)⟩

/-- An operand is refused for what is wrong with it. -/
theorem refused_iff {o : Operand} {e : SourceError} : o.Refused e ↔ o.fault? = some e := by
  constructor
  · intro h
    cases h with
    | label name span => rfl
    | character front c back span hfront hc =>
      refine List.findSome?_eq_some_iff.2 ⟨front, c, back, rfl, ?_, fun d hd => ?_⟩
      · exact if_neg (by omega)
      · exact charFault?_eq_none_iff.2 (hfront d hd)
  · obtain ⟨value, span⟩ := o
    intro h
    cases value with
    | label name distance =>
      cases distance with
      | none =>
        obtain rfl := Option.some.inj h
        exact .label name span
      | some distance => exact nomatch h
    | string text =>
      obtain ⟨front, c, back, rfl, hc, hfront⟩ := List.findSome?_eq_some_iff.1 h
      have hbig : ¬ c.toNat ≤ 0xFF := fun hle => by
        rw [charFault?_eq_none_iff.2 hle] at hc
        exact nomatch hc
      rw [charFault?, if_neg hbig] at hc
      obtain rfl := Option.some.inj hc
      exact .character front c back span (fun d hd => charFault?_eq_none_iff.1 (hfront d hd)) (by omega)
    | number n | address a | register r | registerAddress r => exact nomatch h

end Operand

/-- **Size and encoding agree.**  An instruction has an encoding when each of its
operands has one, which is then as long as its size says; otherwise it is refused
for the first operand without one.  Nothing is asked of the form of the
instruction. -/
theorem Instruction.encode_by_operands (i : Instruction) (horg : i.mnemonic ≠ .org) :
    ((∃ bytes, i.encode = .ok bytes) ↔ ∀ o ∈ i.operands, o.Encodable)
      ∧ (∀ bytes, i.encode = .ok bytes → bytes.length = i.size)
      ∧ ∀ e, i.encode = .error e ↔ ∃ before o after, i.operands = before ++ o :: after
          ∧ (∀ o' ∈ before, o'.Encodable) ∧ o.Refused e := by
  have hfault := encode_eq_error_iff i
  refine ⟨?_, fun bytes h => length_encode horg h, fun e => ?_⟩
  · have hall : (∀ o ∈ i.operands, o.Encodable) ↔ i.operands.findSome? Operand.fault? = none := by
      rw [List.findSome?_eq_none_iff]
      exact forall₂_congr fun o _ => Operand.encodable_iff
    rw [hall]
    cases henc : i.encode with
    | ok bytes => exact ⟨fun _ => eq_none_of_ok henc hfault, fun _ => ⟨bytes, rfl⟩⟩
    | error e => simp [(hfault e).1 henc]
  · rw [hfault, List.findSome?_eq_some_iff]
    simp only [Operand.encodable_iff, Operand.refused_iff]
    exact exists₃_congr fun before o after => and_congr_right fun _ => and_comm

/-- No source gives it: a directive that has an opcode, and behind a string with an
accent operands of every other kind. -/
def patchwork : Instruction :=
  ⟨.db, some .ret,
    [⟨.string ['h', '\u00e9'], ⟨3, 8⟩⟩, ⟨.label "L".toList (some 0xFD), ⟨9, 10⟩⟩,
      ⟨.registerAddress .cl, ⟨11, 15⟩⟩, ⟨.string [], ⟨16, 18⟩⟩, ⟨.number 7, ⟨19, 20⟩⟩], ⟨0, 20⟩⟩

/-- A label without its distance stands in front of a string with a Greek letter, and
behind one with two. -/
def patchworkTorn : Instruction :=
  { patchwork with operands :=
    [⟨.string ['\u00e9', '\u03c0', '\u03a9'], ⟨3, 11⟩⟩, ⟨.label "L".toList none, ⟨12, 13⟩⟩,
      ⟨.string ['\u03c0'], ⟨14, 18⟩⟩] }

theorem Instruction.encode_by_operands_patchwork :
    (∃ bytes, patchwork.encode = .ok bytes ∧ bytes.length = patchwork.size)
      ∧ patchworkTorn.encode = .error ⟨.invalidNumber "3C0".toList, ⟨3, 11⟩⟩ := by
  obtain ⟨hok, hlength, -⟩ := encode_by_operands patchwork (by decide)
  obtain ⟨-, -, herror⟩ := encode_by_operands patchworkTorn (by decide)
  have hall : ∀ o ∈ patchwork.operands, o.Encodable := by
    simp only [Operand.encodable_iff]
    decide
  obtain ⟨bytes, hbytes⟩ := hok.2 hall
  refine ⟨⟨bytes, hbytes, hlength bytes hbytes⟩, (herror _).2 ⟨[], _, _, rfl, by simp, ?_⟩⟩
  exact .character ['\u00e9'] _ _ _ (List.forall_mem_singleton.2 (by decide)) (by decide)

/-! ## §4. Distances. -/

section Resolve

variable {labels : LabelTable} {address : Byte} {o r : Operand}

/-- An operand that is no label is its own resolution, and a label gets its
distance. -/
theorem Operand.resolve_eq_ok_iff : o.resolve labels address = .ok r ↔
    ((∀ name distance, o.value ≠ .label name distance) ∧ r = o)
    ∨ ∃ name distance target, o.value = .label name distance
      ∧ labels.address? name = some target
      ∧ -128 ≤ (target.toNat : Int) - address.toNat ∧ (target.toNat : Int) - address.toNat ≤ 127
      ∧ r = { o with value := .label name (some (Byte.ofInt (target.toNat - address.toNat))) } := by
  unfold Operand.resolve
  constructor
  · intro h
    split at h
    · next name distance hvalue =>
      split at h
      · exact absurd h (by simp)
      · next target ht =>
        by_cases hnear : -128 ≤ (target.toNat : Int) - address.toNat
            ∧ (target.toNat : Int) - address.toNat ≤ 127
        · rw [if_pos hnear, Except.ok.injEq] at h
          exact Or.inr ⟨name, distance, target, hvalue, ht, hnear.1, hnear.2, h.symm⟩
        · rw [if_neg hnear] at h
          exact absurd h (by simp)
    · next hne =>
      injection h with h
      exact Or.inl ⟨hne, h.symm⟩
  · intro h
    rcases h with ⟨hne, rfl⟩ | ⟨name, distance, target, hvalue, ht, hlo, hhi, rfl⟩
    · split
      · next name distance hvalue => exact absurd hvalue (hne name distance)
      · rfl
    · simp only [hvalue, ht]
      exact if_pos ⟨hlo, hhi⟩

/-- A resolution keeps the kind, the width and the characters of its operand. -/
theorem Operand.of_resolve (h : o.resolve labels address = .ok r) :
    r.value.kind = o.value.kind ∧ r.value.width = o.value.width
      ∧ stringFault? r = stringFault? o ∧ ∀ name, r.value ≠ .label name none := by
  rcases Operand.resolve_eq_ok_iff.1 h with ⟨hne, rfl⟩ | ⟨name, distance, target, hvalue, -, -, -, rfl⟩
  · exact ⟨rfl, rfl, rfl, fun name => hne name none⟩
  · simp [stringFault?, hvalue, Operand.Value.kind, Operand.Value.width]

namespace Instruction

variable {i j : Instruction}

/-- A resolution changes the operands only. -/
theorem of_resolve (h : i.resolve labels address = .ok j) :
    i.operands.mapM (Operand.resolve labels address) = .ok j.operands
      ∧ j = { i with operands := j.operands } := by
  obtain ⟨operands, hops, rfl⟩ := map_eq_ok_iff.1 h
  exact ⟨hops, rfl⟩

@[simp] theorem mnemonic_of_resolve (h : i.resolve labels address = .ok j) :
    j.mnemonic = i.mnemonic := by
  rw [(of_resolve h).2]

theorem opcode_of_resolve (h : i.resolve labels address = .ok j) : j.opcode = i.opcode := by
  rw [(of_resolve h).2]

/-- A resolution keeps the kinds of the operands. -/
theorem kinds_of_resolve (h : i.resolve labels address = .ok j) : j.kinds = i.kinds :=
  map_eq_of_mapM (of_resolve h).1 fun _ _ ho => (Operand.of_resolve ho).1

/-- A resolution keeps the size. -/
theorem size_of_resolve (h : i.resolve labels address = .ok j) : j.size = i.size := by
  have hwidths : (j.operands.map fun o => o.value.width) = i.operands.map fun o => o.value.width :=
    map_eq_of_mapM (of_resolve h).1 fun _ _ ho => (Operand.of_resolve ho).2.1
  unfold size
  rw [hwidths, mnemonic_of_resolve h, opcode_of_resolve h]

/-- In a resolved instruction every label has its distance. -/
theorem distances_of_resolve (h : i.resolve labels address = .ok j) :
    ∀ o ∈ j.operands, ∀ name, o.value ≠ .label name none := by
  intro o ho
  obtain ⟨o', -, ho'⟩ := exists_of_mem_mapM (of_resolve h).1 ho
  exact (Operand.of_resolve ho').2.2.2

end Instruction

end Resolve

/-! ## §5. Instructions of a program. -/

/-- The instruction with its distances from the address, and its bytes. -/
def Instruction.encodeAt (labels : LabelTable) (address : Byte) (i : Instruction) :
    Except SourceError (Instruction × List Byte) :=
  i.resolve labels address >>= fun j => j.encode.map fun bytes => (j, bytes)

section Program

variable {ss : List Statement} {labels : LabelTable}

theorem findIdx?_declares_eq_none {name : Text}
    (h : ss.findIdx? (Statement.declares name) = none) (j : Nat) : ¬ DeclaresAt ss j name := by
  intro hdecl
  obtain ⟨span, hs⟩ := hdecl
  have hno := List.findIdx?_eq_none_iff.1 h _ (List.mem_of_getElem? hs)
  simp [Statement.declares] at hno

theorem declaresAt_of_findIdx? {name : Text} {j : Nat}
    (h : ss.findIdx? (Statement.declares name) = some j) : DeclaresAt ss j name := by
  obtain ⟨hlt, hdeclares, -⟩ := List.findIdx?_eq_some_iff_getElem.1 h
  have hs : ss[j]? = some ss[j] := List.getElem?_eq_getElem hlt
  cases hsj : ss[j] with
  | label other span =>
    rw [hsj] at hs hdeclares
    obtain rfl : other = name := by simpa [Statement.declares] using hdeclares
    exact ⟨span, hs⟩
  | instruction code => simp [hsj, Statement.declares] at hdeclares

/-- A label has the address of its first declaration. -/
theorem LaidOut.address?_eq (h : LaidOut ss ss.length labels) (name : Text) :
    labels.address? name
      = (ss.findIdx? (Statement.declares name)).map fun j => UInt8.ofNat (cursorAt ss j) := by
  cases hj : ss.findIdx? (Statement.declares name) with
  | none =>
    rw [Option.map_none, Option.eq_none_iff_forall_ne_some]
    intro a ha
    obtain ⟨j, -, hdecl, -⟩ := (h.address?_iff name a).1 ha
    exact findIdx?_declares_eq_none hj j hdecl
  | some j =>
    have hdecl := declaresAt_of_findIdx? hj
    rw [Option.map_some, h.address?_iff]
    exact ⟨j, hdecl.lt_length, hdecl, rfl⟩

theorem toNat_ofNat_cursorAt (hno : NoFault (placementFault? ss) 0) {i : Nat} (hi : i < ss.length) :
    (UInt8.ofNat (cursorAt ss i)).toNat = cursorAt ss i :=
  toNat_ofNat_address (cursorAt_lt hno hi)

/-- A label operand is refused for its own fault. -/
theorem Operand.resolve_eq_error_iff (hno : NoFault (placementFault? ss) 0)
    (hlaid : LaidOut ss ss.length labels) {i : Nat} (hi : i < ss.length) (o : Operand)
    (e : SourceError) : o.resolve labels (UInt8.ofNat (cursorAt ss i)) = .error e
      ↔ labelFault? ss i o = some e := by
  unfold Operand.resolve labelFault?
  cases hvalue : o.value with
  | label name distance =>
    cases hj : ss.findIdx? (Statement.declares name) with
    | none => simp [hlaid.address?_eq, hj]
    | some j =>
      have hlt : j < ss.length := (declaresAt_of_findIdx? hj).lt_length
      have hi' := toNat_ofNat_cursorAt hno hi
      have hj' := toNat_ofNat_cursorAt hno hlt
      simp only [hlaid.address?_eq, hj, Option.map_some, hi', hj']
      split <;> simp
  | number n | address a | register r | registerAddress r | string text => simp

/-- **Encoding an instruction of the program.**  It fails with the fault of its
index, if there is one. -/
theorem encodeAt_eq_error_iff (hno : NoFault (placementFault? ss) 0)
    (hlaid : LaidOut ss ss.length labels) {i : Nat} {code : Instruction} (h : PlacesAt ss i code)
    (e : SourceError) : code.encodeAt labels (UInt8.ofNat (cursorAt ss i)) = .error e
      ↔ encodingFault? ss i = some e := by
  have hlabels : ∀ e, code.resolve labels (UInt8.ofNat (cursorAt ss i)) = .error e
      ↔ code.operands.findSome? (labelFault? ss i) = some e := by
    intro e
    rw [Instruction.resolve, map_eq_error_iff]
    exact mapM_eq_error_iff fun o _ e =>
      Operand.resolve_eq_error_iff hno hlaid h.lt_length o e
  rw [encodingFault?_of_placesAt h, Instruction.encodeAt]
  -- labels are resolved before anything is encoded, so their faults come first
  cases hres : code.resolve labels (UInt8.ofNat (cursorAt ss i)) with
  | error e' =>
    rw [(hlabels e').1 hres]
    simp [bind, Except.bind]
  | ok j =>
    have hnone : code.operands.findSome? (labelFault? ss i) = none := eq_none_of_ok hres hlabels
    -- the strings of the resolved operands are those of the program
    have hstrings : j.operands.map stringFault? = code.operands.map stringFault? :=
      map_eq_of_mapM (Instruction.of_resolve hres).1 fun _ _ ho => (Operand.of_resolve ho).2.2.1
    have hfind : j.operands.findSome? Operand.fault? = code.operands.findSome? stringFault? := by
      have hfaults : j.operands.map Operand.fault? = j.operands.map stringFault? :=
        List.map_congr_left fun o ho =>
          Operand.fault?_eq_stringFault? (Instruction.distances_of_resolve hres o ho)
      have := congrArg (List.findSome? id) (hfaults.trans hstrings)
      simpa only [List.findSome?_map, Function.id_comp] using this
    show (j.encode.map _ = _) ↔ _
    rw [map_eq_error_iff, Instruction.encode_eq_error_iff, hfind, hnone, Option.none_or]

end Program

end EightBit
