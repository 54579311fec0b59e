/-
  EightBit.Proofs.Program.Listing
  ───────────────────────────────
  **A LISTING SHOWS EVERYTHING ONCE.**

  The rows of a listing are made line by line, and the instructions of a line are
  found by counting newlines.  So the rows are right only if both count the same
  lines, and if no instruction is on a line that is not shown.  They are: every line
  has its rows, the line stands in the first of them, and every instruction of the
  program has one row, on the line on which it starts, with the first of its bytes
  as they are in the image.  And what a row holds can be read off the page.

  Main results:
    • `shows_shown`        — what is shown of an instruction;
    • `lineRows_of_shows`  — the rows of a line;
    • `perm_startingOn`    — each instruction starts on one of the lines;
    • `listed_of_assemble` — the three together, for a program of a source.
-/
import EightBit.Proofs.Program.Extents
import EightBit.Proofs.Program.Page
import EightBit.Proofs.Program.Places
import EightBit.Proofs.Source.Lines

namespace EightBit

/-! ## §1. Instructions of a program. -/

/-- An entry has its value at its key. -/
theorem Entries.get?_of_mem {κ ν : Type} [DecidableEq κ] {k : κ} {v : ν} {es : List (κ × ν)}
    (hnodup : (es.map Prod.fst).Nodup) (h : (k, v) ∈ es) : get? k es = some v := by
  induction es with
  | nil => exact absurd h (by simp)
  | cons e es ih =>
    obtain ⟨key, value⟩ := e
    rw [List.map_cons, List.nodup_cons] at hnodup
    rw [get?]
    rcases List.mem_cons.1 h with heq | hmem
    · obtain ⟨rfl, rfl⟩ := Prod.mk.inj heq
      exact if_pos rfl
    · have hkey : k ∈ es.map Prod.fst := List.mem_map.2 ⟨(k, v), hmem, rfl⟩
      have hne : key ≠ k := fun heq => hnodup.1 (heq ▸ hkey)
      rw [if_neg hne, ih hnodup.2 hmem]

section Entry

variable {source : Text} {p : Assembled} {address : Byte} {i : Instruction}

/-- An instruction of a program stands where a statement of the source does, and has
a byte at each of its addresses. -/
theorem exists_statement_of_mem_instructions {ss : List Statement}
    (h : assembleStatements ss = .ok p) (hmem : (address, i) ∈ p.instructions.entries) :
    ∃ code, .instruction code ∈ ss ∧ i.span = code.span ∧ address.toNat + i.size ≤ 256
      ∧ ∀ offset < i.size, (p.image.get? (UInt8.ofNat (address.toNat + offset))).isSome = true := by
  have hfaithful := faithful_of_assembleStatements h
  have hget : p.instructions.get? address = some i := Entries.get?_of_mem p.instructions.nodup hmem
  obtain ⟨j, bytes, ⟨code, hcode, henc⟩, hstart⟩ := exists_encodes_of_get?_instructions h hget
  obtain ⟨i', hres, henc⟩ := bind_eq_ok_iff.1 henc
  obtain ⟨bytes', -, heq⟩ := map_eq_ok_iff.1 henc
  obtain ⟨rfl, rfl⟩ := Prod.mk.inj heq
  have hsize := Instruction.size_of_resolve hres
  have hfits := hfaithful.fits j code hcode
  refine ⟨code, List.mem_of_getElem? hcode.1, by rw [(Instruction.of_resolve hres).2], by omega, ?_⟩
  intro offset hoffset
  have haddress : (UInt8.ofNat (address.toNat + offset)).toNat = address.toNat + offset :=
    toNat_ofNat_address (show _ < 256 by omega)
  rw [← OrderedMap.mem_keys_iff, hfaithful.mem_keys_iff]
  exact ⟨j, code, hcode, by rw [haddress]; omega, by rw [haddress]; omega⟩

/-- An instruction of a program starts on a line of the source. -/
theorem exists_line_of_mem_instructions (h : assemble source = .ok p)
    (hmem : (address, i) ∈ p.instructions.entries) : ∃ position,
      i.span.position? source = some position ∧ position.line < (Text.lines source).length := by
  obtain ⟨ss, hparse, hassemble⟩ := assemble_eq_ok_iff.1 h
  obtain ⟨code, hcode, hspan, -⟩ := exists_statement_of_mem_instructions hassemble hmem
  have hpoints : code.Points source := (outcome_parse source).of_ok hparse _ hcode
  have hpos : code.span.start < code.span.stop := (extents_of_parse hparse).nonempty _ hcode
  obtain ⟨part, before, after, rfl, hplace, -⟩ := hpoints.marks
  rw [hspan]
  rw [hplace] at hpos ⊢
  -- something stands there, so there is a line
  have hne : part ≠ [] := by
    intro hnil
    rw [hnil] at hpos
    exact Nat.lt_irrefl _ hpos
  obtain ⟨c, cs, rfl⟩ := List.exists_cons_of_ne_nil hne
  exact ⟨_, Span.position?_append .., Text.lt_length_lines before c (cs ++ after)⟩

end Entry

namespace Listing

variable {source : Text} {p : Assembled}

/-! ## §2. One row. -/

/-- **What is shown of an instruction**: its address, and the bytes of the image at its
first addresses, four at most, which lie in memory. -/
structure Shows (p : Assembled) (a : Byte) (i : Instruction) (s : Shown) : Prop where
  address : s.address = a
  fits : a.toNat + min i.size 4 ≤ 256
  bytes : s.bytes.map some
    = (List.range (min i.size 4)).map fun offset => p.image.get? (UInt8.ofNat (a.toNat + offset))
  more : s.more = true ↔ 4 < i.size

theorem Shows.length_bytes {a : Byte} {i : Instruction} {s : Shown} (h : Shows p a i s) :
    s.bytes.length ≤ 4 := by
  have hlength := congrArg List.length h.bytes
  rw [List.length_map, List.length_map, List.length_range] at hlength
  omega

theorem filterMap_map_some {α β : Type} {f : α → Option β} {l : List α}
    (h : ∀ a ∈ l, (f a).isSome = true) : (l.filterMap f).map some = l.map f := by
  induction l with
  | nil => rfl
  | cons a l ih =>
    obtain ⟨ha, hl⟩ := List.forall_mem_cons.1 h
    obtain ⟨b, hb⟩ := Option.isSome_iff_exists.1 ha
    rw [List.filterMap_cons_some hb, List.map_cons, List.map_cons, ih hl, hb]

/-- **Every instruction of a program is shown with its bytes.** -/
theorem shows_shown (h : assemble source = .ok p) {address : Byte} {i : Instruction}
    (hmem : (address, i) ∈ p.instructions.entries) : Shows p address i (shown p address i) := by
  obtain ⟨ss, -, hassemble⟩ := assemble_eq_ok_iff.1 h
  obtain ⟨-, -, -, hfits, himage⟩ := exists_statement_of_mem_instructions hassemble hmem
  refine ⟨rfl, by omega, ?_, by simp [shown]⟩
  have hadd : ∀ offset, address + UInt8.ofNat offset = UInt8.ofNat (address.toNat + offset) := by
    intro offset
    rw [UInt8.ofNat_add, UInt8.ofNat_toNat]
  have hbytes : (shown p address i).bytes = (List.range (min i.size 4)).filterMap
      fun offset => p.image.get? (UInt8.ofNat (address.toNat + offset)) := by
    simp only [shown, hadd]
  rw [hbytes]
  refine filterMap_map_some fun offset hoffset => himage offset ?_
  have hlt := List.mem_range.1 hoffset
  omega

/-! ## §3. The rows of a line. -/

/-- **The rows of a line** on which these instructions start: one for each, of which
the first has the text, or one without an instruction. -/
inductive LineRows (p : Assembled) (number : Nat) (text : Text) :
    List (Byte × Instruction) → List Row → Prop where
  | blank : LineRows p number text [] [⟨none, number, text⟩]
  | shown {address : Byte} {i : Instruction} {s : Shown} {more : List (Byte × Instruction)}
    {rows : List Row} : Shows p address i s →
    List.Forall₂ (fun entry row => ∃ s, Shows p entry.1 entry.2 s ∧ row = ⟨some s, number, []⟩)
      more rows →
    LineRows p number text ((address, i) :: more) (⟨some s, number, text⟩ :: rows)

theorem mem_startingOn_iff {index : Nat} {entry : Byte × Instruction} :
    entry ∈ startingOn source p index ↔ entry ∈ p.instructions.entries
      ∧ (entry.2.span.position? source).map Position.line = some index := by
  rw [startingOn, List.mem_filter, decide_eq_true_eq]

/-- The rows of a line are as they should be if the instructions are shown so. -/
theorem lineRows_of_shows (h : ∀ entry ∈ p.instructions.entries,
      Shows p entry.1 entry.2 (Listing.shown p entry.1 entry.2)) (index : Nat) (text : Text) :
    LineRows p (index + 1) text (startingOn source p index) (lineRows source p index text) := by
  have hstarting : ∀ entry ∈ startingOn source p index,
      Shows p entry.1 entry.2 (Listing.shown p entry.1 entry.2) :=
    fun entry hentry => h entry (mem_startingOn_iff.1 hentry).1
  unfold lineRows
  cases hentries : startingOn source p index with
  | nil => exact .blank
  | cons entry more =>
    rw [hentries] at hstarting
    obtain ⟨hfirst, hmore⟩ := List.forall_mem_cons.1 hstarting
    refine .shown hfirst (List.forall₂_map_right_iff.2 (List.forall₂_same.2 fun e he => ?_))
    exact ⟨_, hmore e he, rfl⟩

/-! ## §4. Every instruction once. -/

theorem flatMap_filter_perm {α : Type} (f : α → Option Nat) (l : List α) (n : Nat) :
    ((List.range n).flatMap fun k => l.filter fun a => f a = some k).Perm
      (l.filter fun a => (f a).any (· < n)) := by
  induction n with
  | zero => simp
  | succ n ih =>
    rw [List.range_succ, List.flatMap_append, List.flatMap_singleton]
    refine (ih.append_right _).trans ?_
    -- those below `n + 1` are those below `n` and the others
    have hsplit := List.filter_append_perm (fun a => (f a).any (· < n))
      (l.filter fun a => (f a).any (· < n + 1))
    rw [List.filter_filter, List.filter_filter] at hsplit
    have hbelow : (l.filter fun a => (f a).any (· < n) && (f a).any (· < n + 1))
        = l.filter fun a => (f a).any (· < n) := by
      refine List.filter_congr fun a _ => ?_
      cases f a with
      | none => rfl
      | some k => simp only [Option.any_some]; grind
    have hothers : (l.filter fun a => !(f a).any (· < n) && (f a).any (· < n + 1))
        = l.filter fun a => f a = some n := by
      refine List.filter_congr fun a _ => ?_
      cases f a with
      | none => rfl
      | some k => simp only [Option.any_some, Option.some.injEq]; grind
    rw [hbelow, hothers] at hsplit
    exact hsplit

/-- **Each instruction starts on one of the lines.** -/
theorem perm_startingOn (h : assemble source = .ok p) :
    ((List.range (Text.lines source).length).flatMap (startingOn source p)).Perm
      p.instructions.entries := by
  have hall : (p.instructions.entries.filter fun entry =>
      ((entry.2.span.position? source).map Position.line).any (· < (Text.lines source).length))
      = p.instructions.entries := by
    refine List.filter_eq_self.2 fun entry hentry => ?_
    obtain ⟨position, hposition, hlt⟩ := exists_line_of_mem_instructions h hentry
    simp [hposition, hlt]
  have hperm := flatMap_filter_perm
    (fun entry : Byte × Instruction => (entry.2.span.position? source).map Position.line)
    p.instructions.entries (Text.lines source).length
  rw [hall] at hperm
  exact hperm

/-- The addresses in the rows, from above. -/
def addresses (rows : List Row) : List Byte := (rows.filterMap Row.shown).map Shown.address

namespace LineRows

variable {number : Nat} {text : Text} {entries : List (Byte × Instruction)} {rows : List Row}

theorem addresses_eq (h : LineRows p number text entries rows) :
    addresses rows = entries.map Prod.fst := by
  cases h with
  | blank => rfl
  | @shown address i s more rows hs hmore =>
    have hlater : addresses rows = more.map Prod.fst := by
      induction hmore with
      | nil => rfl
      | @cons entry row more rows hrow _ ih =>
        obtain ⟨s, hs, rfl⟩ := hrow
        show s.address :: addresses rows = entry.1 :: more.map Prod.fst
        rw [hs.address, ih]
    show s.address :: addresses rows = address :: more.map Prod.fst
    rw [hs.address, hlater]

theorem exists_row (h : LineRows p number text entries rows) {entry : Byte × Instruction}
    (hentry : entry ∈ entries) :
    ∃ r ∈ rows, r.number = number ∧ ∃ s, r.shown = some s ∧ Shows p entry.1 entry.2 s := by
  cases h with
  | blank => exact absurd hentry (by simp)
  | @shown address i s more rows hs hmore =>
    rcases List.mem_cons.1 hentry with rfl | hentry
    · exact ⟨_, List.mem_cons_self, rfl, s, rfl, hs⟩
    · obtain ⟨r, hr, s', hs', rfl⟩ := exists_mem_of_forall₂ hmore.flip hentry
      exact ⟨_, List.mem_cons_of_mem _ hr, rfl, s', rfl, hs'⟩

/-- Four bytes at most are shown in a row. -/
theorem length_bytes (h : LineRows p number text entries rows) {r : Row} (hr : r ∈ rows) :
    ∀ s ∈ r.shown, s.bytes.length ≤ 4 := by
  intro s hs
  cases h with
  | blank =>
    obtain rfl := List.mem_singleton.1 hr
    exact absurd hs (by simp)
  | shown hfirst hmore =>
    rcases List.mem_cons.1 hr with rfl | hr
    · obtain rfl := Option.some.inj hs
      exact hfirst.length_bytes
    · obtain ⟨entry, -, s', hs', rfl⟩ := exists_mem_of_forall₂ hmore hr
      obtain rfl := Option.some.inj hs
      exact hs'.length_bytes

end LineRows

/-! ## §5. The whole listing. -/

/-- **A listing**: between two rules the rows, and behind them the labels. -/
structure Listed (source : Text) (p : Assembled) (rows : List Row) : Prop where
  /-- What is seen of it, column by column. -/
  page : (Listing.lines source p).map Styled.plain = rule :: rows.map Row.printed
    ++ rule :: p.labels.entries.map fun (name, entry) => labelPrinted name entry.address
  /-- The address, the bytes, the number and the text are read off each row. -/
  readable : ∀ r ∈ rows, Row.read? r.printed = some r
  /-- The name and the address are read off the row of each label. -/
  labels : ∀ name entry, (name, entry) ∈ p.labels.entries →
    readLabel? (labelPrinted name entry.address) = some (name, entry.address)
  /-- Line by line, with the instructions that start on the line in the order of the
  program. -/
  byLine : ∃ groups, rows = groups.flatten ∧ List.Forall₂ (fun line group =>
    LineRows p (line.2 + 1) line.1 (startingOn source p line.2) group)
    (Text.lines source).zipIdx groups
  /-- Each instruction of the program has one row, on its line. -/
  once : ∀ address i, (address, i) ∈ p.instructions.entries → ∃ before r after position s,
    rows = before ++ r :: after ∧ i.span.position? source = some position
      ∧ r.number = position.line + 1 ∧ r.shown = some s ∧ Shows p address i s
      ∧ address ∉ addresses before ∧ address ∉ addresses after

theorem addresses_append (rows rows' : List Row) :
    addresses (rows ++ rows') = addresses rows ++ addresses rows' := by
  rw [addresses, List.filterMap_append, List.map_append]
  rfl

theorem addresses_flatten (groups : List (List Row)) :
    addresses groups.flatten = (groups.map addresses).flatten := by
  rw [addresses, List.filterMap_flatten, List.map_flatten, List.map_map]
  rfl

/-- No address is in two rows. -/
theorem nodup_addresses (h : assemble source = .ok p) {groups : List (List Row)}
    (hgroups : List.Forall₂ (fun line group =>
      LineRows p (line.2 + 1) line.1 (startingOn source p line.2) group)
      (Text.lines source).zipIdx groups) : (addresses groups.flatten).Nodup := by
  have hmap : groups.map addresses
      = (Text.lines source).zipIdx.map fun line => (startingOn source p line.2).map Prod.fst :=
    map_eq_of_forall₂ hgroups fun _ _ hgroup => hgroup.addresses_eq
  have hflat : addresses groups.flatten
      = ((List.range (Text.lines source).length).flatMap (startingOn source p)).map Prod.fst := by
    have hindices : (Text.lines source).zipIdx.map Prod.snd
        = List.range (Text.lines source).length := by
      rw [List.zipIdx_map_snd, ← List.range_eq_range']
    rw [addresses_flatten, hmap, ← hindices, List.flatMap_map, List.map_flatMap]
    rfl
  rw [hflat, ((perm_startingOn h).map Prod.fst).nodup_iff]
  exact p.instructions.nodup

/-- What is seen of a listing. -/
theorem map_plain_lines (source : Text) (p : Assembled) :
    (Listing.lines source p).map Styled.plain = rule :: (rows source p).map Row.printed
      ++ rule :: p.labels.entries.map fun (name, entry) => labelPrinted name entry.address := by
  simp [Listing.lines, plain_ruler, plain_styled, plain_labelRow, Function.comp_def]

/-- **Every line and every instruction is listed once.** -/
theorem listed_of_assemble (h : assemble source = .ok p) : Listed source p (rows source p) := by
  have hgroups : List.Forall₂ (fun line group =>
      LineRows p (line.2 + 1) line.1 (startingOn source p line.2) group)
      (Text.lines source).zipIdx
      ((Text.lines source).zipIdx.map fun line => lineRows source p line.2 line.1) :=
    List.forall₂_map_right_iff.2 (List.forall₂_same.2 fun line _ =>
      lineRows_of_shows (fun _ hentry => shows_shown h hentry) line.2 line.1)
  have hnodup : (addresses (rows source p)).Nodup := nodup_addresses h hgroups
  have hreadable : ∀ r ∈ rows source p, Row.read? r.printed = some r := by
    intro r hr
    obtain ⟨group, hgroup, hr⟩ := List.mem_flatten.1 hr
    obtain ⟨line, -, hrows⟩ := exists_mem_of_forall₂ hgroups hgroup
    exact read?_printed (hrows.length_bytes hr)
  refine ⟨map_plain_lines source p, hreadable,
    fun name entry _ => readLabel?_printed name entry.address, ⟨_, rfl, hgroups⟩,
    fun address i hentry => ?_⟩
  obtain ⟨position, hposition, hlt⟩ := exists_line_of_mem_instructions h hentry
  have hline :
      ((Text.lines source)[position.line], position.line) ∈ (Text.lines source).zipIdx := by
    rw [List.mem_zipIdx_iff_getElem?]
    exact List.getElem?_eq_getElem hlt
  obtain ⟨group, hgroup, hrows⟩ := exists_mem_of_forall₂ hgroups.flip hline
  have hstarting : (address, i) ∈ startingOn source p position.line :=
    mem_startingOn_iff.2 ⟨hentry, by rw [hposition]; rfl⟩
  obtain ⟨r, hr, hnumber, s, hs, hshows⟩ := hrows.exists_row hstarting
  obtain ⟨before, after, hsplit⟩ := List.append_of_mem (List.mem_flatten.2 ⟨group, hgroup, hr⟩)
  refine ⟨before, r, after, position, s, hsplit, hposition, hnumber, hs, hshows, ?_⟩
  have hrow : addresses (r :: after) = address :: addresses after := by
    rw [addresses, List.filterMap_cons_some hs, List.map_cons, hshows.address]
    rfl
  have hall : rows source p = before ++ r :: after := hsplit
  rw [hall, addresses_append, hrow, List.nodup_middle, List.nodup_cons, List.mem_append,
    not_or] at hnodup
  exact hnodup.1

/-- Two statements on a line, an instruction across two lines, a string of five bytes,
code that is written over, and carriage returns in front of a newline and at the end. -/
def crowded : Text :=
  "; \u00e9\r\nA: mov al, 01 jmp A\r\n\ndb\n\x22five!\x22 nop\norg 0 nop end\r".toList

theorem listed_of_assemble_crowded : ∃ p, assemble crowded = .ok p
    ∧ Listed crowded p (rows crowded p)
    ∧ (rows crowded p).map (fun r => (r.number, r.shown)) =
      [ (1, none), (2, some ⟨3, [0xC0, 0xFD], false⟩), (3, none),
        (4, some ⟨5, [0x66, 0x69, 0x76, 0x65], true⟩), (5, some ⟨10, [0xFF], false⟩),
        (6, some ⟨0, [0xFF], false⟩), (6, some ⟨1, [0x00], false⟩) ]
    ∧ (Listing.lines crowded p).map Styled.plain =
      [ rule, "                 |    1: ; \u00e9".toList,
        "[03] C0 FD        |    2: A: mov al, 01 jmp A".toList,
        "                 |    3: ".toList,
        "[05] 66 69 76 65..|    4: db".toList,
        "[0A] FF           |    5: \x22five!\x22 nop".toList,
        "[00] FF           |    6: org 0 nop end\r".toList,
        "[01] 00           |    6: ".toList, rule, "A: 00".toList ] := by
  have hpage : (assemble crowded).toOption.map (fun p =>
        ((rows crowded p).map fun r => (r.number, r.shown),
          (Listing.lines crowded p).map Styled.plain)) = some
      ([ (1, none), (2, some ⟨3, [0xC0, 0xFD], false⟩), (3, none),
        (4, some ⟨5, [0x66, 0x69, 0x76, 0x65], true⟩), (5, some ⟨10, [0xFF], false⟩),
        (6, some ⟨0, [0xFF], false⟩), (6, some ⟨1, [0x00], false⟩) ],
      [ rule, "                 |    1: ; \u00e9".toList,
        "[03] C0 FD        |    2: A: mov al, 01 jmp A".toList,
        "                 |    3: ".toList,
        "[05] 66 69 76 65..|    4: db".toList,
        "[0A] FF           |    5: \x22five!\x22 nop".toList,
        "[00] FF           |    6: org 0 nop end\r".toList,
        "[01] 00           |    6: ".toList, rule, "A: 00".toList ]) := by decide +kernel
  obtain ⟨p, hp, heq⟩ := exists_of_toOption_map hpage
  obtain ⟨hrows, hlines⟩ := Prod.mk.inj heq
  exact ⟨p, hp, listed_of_assemble hp, hrows, hlines⟩

end Listing

end EightBit
