/-
  EightBit.Proofs.Program.Relocation
  ──────────────────────────────────
  **THE SAME PROGRAM FURTHER ON.**

  A program without ORG stands wherever an ORG in front of it says.  The cursor
  is then always as many bytes further on, and so is every label; what a jump
  needs is only how far it is from its label, and that stays.  The end of memory
  is looked at too, but a program that ends inside memory never meets it.

  Main results:
    • `Operand.resolve_moved`     — distances stay;
    • `Layout.moves_ofStatements` — the layout from a cursor further on;
    • `Assembled.Moves.emit`      — the same bytes at addresses further on;
    • `assembleStatements_moved`  — so for the whole program, and for its fault.
-/
import EightBit.Proofs.Program.Encoding
import EightBit.Proofs.Program.Grammar
import EightBit.Proofs.Program.Renaming

namespace EightBit

/-! ## §1. Entries further on. -/

namespace Entries

variable {ν : Type} {k : Nat} {es es' : List (Byte × ν)} {a a' : Byte}

/-- The same values in the same order, at addresses `k` bytes further on. -/
def Moved (k : Nat) (es es' : List (Byte × ν)) : Prop :=
  List.Forall₂ (fun e e' => e'.1.toNat = e.1.toNat + k ∧ e'.2 = e.2) es es'

/-- A change at an address is the change at the address further on. -/
theorem alter_moved (h : Moved k es es') (ha : a'.toNat = a.toNat + k) (f : Option ν → ν) :
    Moved k (alter a f es) (alter a' f es') := by
  induction h with
  | nil => exact .cons ⟨ha, rfl⟩ .nil
  | @cons e e' es es' he hes ih =>
    obtain ⟨key, value⟩ := e
    obtain ⟨key', value'⟩ := e'
    obtain ⟨hkey, rfl⟩ := he
    have hsame : key' = a' ↔ key = a := by
      rw [← UInt8.toNat_inj, ← UInt8.toNat_inj, ha]
      show key'.toNat = a.toNat + k ↔ key.toNat = a.toNat
      have : key'.toNat = key.toNat + k := hkey
      omega
    by_cases hfound : key = a
    · simp only [alter, hfound, hsame.2 hfound, if_true]
      exact .cons ⟨ha, rfl⟩ hes
    · have hfound' : ¬ key' = a' := fun heq => hfound (hsame.1 heq)
      simp only [alter, hfound, hfound', if_false]
      exact .cons ⟨hkey, rfl⟩ ih

end Entries

/-- Bytes written further on. -/
theorem Image.write_moved {k address : Nat} {image image' : Image} {bytes : List Byte}
    (h : Entries.Moved k image.entries image'.entries)
    (hfits : address + k + bytes.length ≤ memorySize) :
    Entries.Moved k (image.write address bytes).entries
      (image'.write (address + k) bytes).entries := by
  induction bytes generalizing image image' address with
  | nil => exact h
  | cons b bytes ih =>
    rw [List.length_cons] at hfits
    have hsize : memorySize = 256 := rfl
    have ha : (UInt8.ofNat (address + k)).toNat = (UInt8.ofNat address).toNat + k := by
      rw [toNat_ofNat_address (by omega), toNat_ofNat_address (by omega)]
    rw [write, write, show address + k + 1 = address + 1 + k by omega]
    exact ih (Entries.alter_moved h ha _) (by omega)

/-! ## §2. Labels further on. -/

/-- The same label, declared `k` bytes further on. -/
structure LabelEntry.Moves (k : Nat) (e e' : LabelEntry) : Prop where
  declared : e'.declared = e.declared
  references : e'.references = e.references
  /-- A label that is not declared has no address that could move. -/
  address : e.declared.isSome = true → e'.address.toNat = e.address.toNat + k

/-- The same labels in the same order, `k` bytes further on. -/
def LabelTable.Moves (k : Nat) (t t' : LabelTable) : Prop :=
  Entries.Carried id (LabelEntry.Moves k) t.entries t'.entries

namespace LabelTable.Moves

variable {k : Nat} {t t' : LabelTable} {name : Text} {span : Span} {a a' : Byte}

theorem empty (k : Nat) : Moves k .empty .empty := .nil

/-- A label is known with an address further on, or it is not known. -/
theorem address? (h : t.Moves k t') (name : Text) :
    Option.Rel (fun a a' => a'.toNat = a.toNat + k) (t.address? name) (t'.address? name) := by
  have hget : Option.Rel _ (Entries.get? name t.entries) (Entries.get? (id name) t'.entries) :=
    Entries.get?_carried h fun _ _ heq => heq
  unfold LabelTable.address? OrderedMap.get?
  rw [id] at hget
  generalize Entries.get? name t.entries = entry, Entries.get? name t'.entries = entry' at hget
  cases hget with
  | none => exact .none
  | @some e e' he =>
    simp only [Option.bind_some, LabelEntry.address?, he.declared]
    cases hdeclared : e.declared with
    | none => exact .none
    | some span => exact .some (he.address (by rw [hdeclared]; rfl))

theorem declare (h : t.Moves k t') (ha : a'.toNat = a.toNat + k) (name : Text) (span : Span) :
    Parallel (LabelTable.Moves k) Eq (t.declare name a span) (t'.declare name a' span) := by
  have hknown : (t'.address? name).isSome = (t.address? name).isSome := by
    have hrel := h.address? name
    generalize t.address? name = target, t'.address? name = target' at hrel
    cases hrel <;> rfl
  unfold LabelTable.declare
  rw [hknown]
  split
  · rfl
  · refine Entries.alter_carried h (fun _ _ heq => heq) fun e e' he => ?_
    cases he with
    | none => exact ⟨rfl, rfl, fun _ => ha⟩
    | some he => exact ⟨rfl, he.references, fun _ => ha⟩

theorem reference (h : t.Moves k t') :
    LabelTable.Moves k (t.reference name span) (t'.reference name span) := by
  refine Entries.alter_carried h (fun _ _ heq => heq) fun e e' he => ?_
  cases he with
  | none => exact ⟨rfl, rfl, fun hdeclared => absurd hdeclared (by simp [LabelEntry.unknown])⟩
  | some he =>
    refine ⟨he.declared, ?_, he.address⟩
    simp only [Option.getD_some, he.references]

theorem referenceAll (h : t.Moves k t') (uses : List (Text × Span)) :
    LabelTable.Moves k (t.referenceAll uses) (t'.referenceAll uses) := by
  induction uses generalizing t t' with
  | nil => exact h
  | cons use uses ih => exact ih h.reference

end LabelTable.Moves

/-! ## §3. Layouts further on. -/

/-- Number of bytes of the statement in memory. -/
def Statement.size : Statement → Nat
  | .label .. => 0
  | .instruction i => i.size

/-- The statement stands where the one before it ends: it is no ORG. -/
def Statement.IsMovable : Statement → Prop
  | .label .. => True
  | .instruction i => i.mnemonic ≠ .org

instance : DecidablePred Statement.IsMovable
  | .label .. => isTrue trivial
  | .instruction i => inferInstanceAs (Decidable (i.mnemonic ≠ .org))

/-- Number of bytes of all statements together. -/
def totalSize : List Statement → Nat
  | [] => 0
  | s :: ss => s.size + totalSize ss

theorem totalSize_append (ss ss' : List Statement) :
    totalSize (ss ++ ss') = totalSize ss + totalSize ss' := by
  induction ss with
  | nil => exact (Nat.zero_add _).symm
  | cons s ss ih =>
    show s.size + totalSize (ss ++ ss') = s.size + totalSize ss + totalSize ss'
    omega

/-- A program that ends with a statement of some bytes has some bytes. -/
theorem totalSize_pos {ss : List Statement} (hne : ss ≠ [])
    (h : ∀ last ∈ ss.getLast?, 0 < last.size) : 0 < totalSize ss := by
  have hlast := h _ (List.getLast?_eq_some_getLast hne)
  rw [← List.dropLast_append_getLast hne, totalSize_append, totalSize]
  omega

/-- The same layout, `k` bytes further on and inside memory. -/
structure Layout.Moves (k : Nat) (l l' : Layout) : Prop where
  labels : l.labels.Moves k l'.labels
  placed : Entries.Moved k l.placed l'.placed
  fits : ∀ e ∈ l.placed, e.2.mnemonic ≠ .org ∧ e.1.toNat + k + e.2.size ≤ memorySize

/-- **The layout from a cursor further on.** -/
theorem Layout.moves_ofStatements {k : Nat} {ss : List Statement}
    (hmovable : ∀ s ∈ ss, s.IsMovable)
    (hlast : ∀ last ∈ ss.getLast?, 0 < last.size) {cursor : Nat}
    (hfits : cursor + k + totalSize ss ≤ memorySize) {t t' : LabelTable} (ht : t.Moves k t') :
    Parallel (Layout.Moves k) Eq (Layout.ofStatements cursor t ss)
      (Layout.ofStatements (cursor + k) t' ss) := by
  -- along the statements: the cursors stay `k` apart, and room is left for the rest
  induction ss generalizing cursor t t' with
  | nil =>
    refine ⟨ht, .nil, ?_⟩
    intro e he
    exact absurd he (by simp)
  | cons s rest ih =>
    have hpos : 0 < totalSize (s :: rest) := totalSize_pos (by simp) hlast
    have hlast' : ∀ last ∈ rest.getLast?, 0 < last.size := by
      intro last hmem
      cases rest with
      | nil => exact absurd hmem (by simp)
      | cons next rest => exact hlast last (by rwa [List.getLast?_cons_cons])
    have hmovable' : ∀ s ∈ rest, s.IsMovable :=
      fun s hs => hmovable s (List.mem_cons_of_mem _ hs)
    have hsize : memorySize = 256 := rfl
    have hcursor : (UInt8.ofNat cursor).toNat = cursor := toNat_ofNat_address (by omega)
    have ha : (UInt8.ofNat (cursor + k)).toNat = (UInt8.ofNat cursor).toNat + k := by
      rw [toNat_ofNat_address (by omega), hcursor]
    rw [totalSize] at hfits
    cases s with
    | label name span =>
      rw [Statement.size, Nat.zero_add] at hfits
      simp only [Layout.ofStatements, Statement.advance]
      rcases (ht.declare ha name span).cases with
        ⟨e, e', he, he', rfl⟩ | ⟨u, u', hu, hu', hmoves⟩
      · rw [he, he']
        rfl
      · rw [hu, hu']
        exact ih hmovable' hlast' hfits hmoves
    | instruction i =>
      rw [Statement.size] at hfits
      have hne : i.mnemonic ≠ .org := hmovable _ List.mem_cons_self
      -- neither cursor meets the end of memory before the last statement
      have hroom : ∀ n ≤ cursor + k + i.size,
          ¬ (n > memorySize ∨ n = memorySize ∧ rest ≠ []) := by
        rintro n hn (hover | ⟨hend, hmore⟩)
        · omega
        · have := totalSize_pos hmore hlast'
          omega
      simp only [Layout.ofStatements, Statement.advance, if_neg hne]
      rw [if_neg (hroom _ (by omega)), if_neg (hroom _ (by omega)),
        show cursor + k + i.size = cursor + i.size + k by omega]
      refine (ih hmovable' hlast' (by omega) (ht.referenceAll i.references)).map fun l l' hl => ?_
      refine ⟨hl.labels, .cons ⟨ha, rfl⟩ hl.placed, fun e he => ?_⟩
      rcases List.mem_cons.1 he with rfl | he
      · have hend : (UInt8.ofNat cursor).toNat + k + i.size ≤ memorySize := by
          rw [hcursor]
          omega
        exact ⟨hne, hend⟩
      · exact hl.fits e he

/-! ## §4. Bytes further on. -/

/-- **Distances stay.**  A label and what jumps to it move together. -/
theorem Operand.resolve_moved {k : Nat} {t t' : LabelTable} {a a' : Byte} (ht : t.Moves k t')
    (ha : a'.toNat = a.toNat + k) (o : Operand) : o.resolve t' a' = o.resolve t a := by
  unfold Operand.resolve
  split
  · next name _ _ =>
    have hrel := ht.address? name
    generalize t.address? name = target, t'.address? name = target' at hrel
    cases hrel with
    | none => rfl
    | @some target target' htarget =>
      have hdistance : (target'.toNat : Int) - a'.toNat = target.toNat - a.toNat := by
        rw [ha, htarget]
        omega
      simp only [hdistance]
  · rfl

theorem Instruction.resolve_moved {k : Nat} {t t' : LabelTable} {a a' : Byte} (ht : t.Moves k t')
    (ha : a'.toNat = a.toNat + k) (i : Instruction) : i.resolve t' a' = i.resolve t a := by
  have hsame : Operand.resolve t' a' = Operand.resolve t a :=
    funext fun o => Operand.resolve_moved ht ha o
  unfold Instruction.resolve
  rw [hsame]

/-- **The same program**, `k` bytes further on: every byte, every instruction and
every label at an address that is `k` more. -/
structure Assembled.Moves (k : Nat) (p p' : Assembled) : Prop where
  image : Entries.Moved k p.image.entries p'.image.entries
  instructions : Entries.Moved k p.instructions.entries p'.instructions.entries
  labels : p.labels.Moves k p'.labels

namespace Assembled.Moves

variable {k : Nat} {p p' : Assembled}

theorem place (h : p.Moves k p') {a a' : Byte} (ha : a'.toNat = a.toNat + k) {bytes : List Byte}
    (hfits : a.toNat + k + bytes.length ≤ memorySize) (i : Instruction) :
    (p.place a i bytes).Moves k (p'.place a' i bytes) := by
  unfold Assembled.place
  split
  · exact h
  · refine ⟨?_, Entries.alter_moved h.instructions ha _, h.labels⟩
    rw [ha]
    exact Image.write_moved h.image hfits

/-- **The bytes of a layout further on.** -/
theorem emit (h : p.Moves k p') {placed placed' : List (Byte × Instruction)}
    (hplaced : Entries.Moved k placed placed')
    (hfits : ∀ e ∈ placed, e.2.mnemonic ≠ .org ∧ e.1.toNat + k + e.2.size ≤ memorySize) :
    Parallel (Assembled.Moves k) Eq (p.emit placed) (p'.emit placed') := by
  induction hplaced generalizing p p' with
  | nil => exact h
  | @cons e e' placed placed' he _ ih =>
    obtain ⟨a, i⟩ := e
    obtain ⟨a', i'⟩ := e'
    obtain ⟨ha, rfl⟩ := he
    obtain ⟨⟨hne, hroom⟩, hfits⟩ := List.forall_mem_cons.1 hfits
    simp only [Assembled.emit, Instruction.resolve_moved h.labels ha]
    cases hres : i'.resolve p.labels a with
    | error e => rfl
    | ok j =>
      cases henc : j.encode with
      | error e => simp only [henc]; rfl
      | ok bytes =>
        have hlen : bytes.length = i'.size := by
          rw [Instruction.length_encode (by rwa [Instruction.mnemonic_of_resolve hres]) henc,
            Instruction.size_of_resolve hres]
        simp only [henc]
        exact ih (h.place ha (by rw [hlen]; exact hroom) j) hfits

end Assembled.Moves

/-! ## §5. Programs behind an ORG. -/

/-- What is read ends with END, which has a byte. -/
theorem WellRead.size_getLast_pos {ss : List Statement} (h : WellRead ss) :
    ∀ last ∈ ss.getLast?, 0 < last.size := by
  obtain ⟨before, last, rfl, hend, -⟩ := h.ends
  intro s hs
  rw [List.getLast?_append, List.getLast?_singleton, Option.some_or, Option.mem_some_iff] at hs
  subst hs
  have hformed := h.formed last (List.mem_append_right _ (List.mem_singleton_self _))
  obtain ⟨f, hf, -, hopcode⟩ := hformed
  rw [hend] at hf
  obtain rfl := List.mem_singleton.1 hf
  show 0 < last.size
  rw [Instruction.size, if_neg (by rw [hend]; decide), hopcode]
  show 0 < 1 + _
  omega

/-- **Code is position independent.**  A program that was read and has no ORG is
put behind an ORG that leaves it room in memory.  Either both programs are
assembled, and the second is the first at addresses that are so much more; or
both are refused, with the same error. -/
theorem assembleStatements_moved {ending : SourceError} {ts : List Token} {ss : List Statement}
    {origin : Instruction} {k : Byte} (hread : statements ending ts = .ok ss)
    (hmovable : ∀ s ∈ ss, s.IsMovable) (horigin : origin.mnemonic = .org)
    (hk : origin.origin? = some k) (hfits : k.toNat + totalSize ss ≤ memorySize) :
    Parallel (Assembled.Moves k.toNat) Eq (assembleStatements ss)
      (assembleStatements (.instruction origin :: ss)) := by
  have hlast := (wellRead_of_statements hread).size_getLast_pos
  have hlayout : Parallel (Layout.Moves k.toNat) Eq (Layout.ofStatements 0 .empty ss)
      (Layout.ofStatements (0 + k.toNat) .empty ss) :=
    Layout.moves_ofStatements hmovable hlast (by rwa [Nat.zero_add]) (.empty k.toNat)
  -- ORG only moves the cursor
  have hbehind : Layout.ofStatements 0 .empty (.instruction origin :: ss)
      = Layout.ofStatements k.toNat .empty ss := by
    simp only [Layout.ofStatements, Statement.advance, if_pos horigin, hk]
  rw [Nat.zero_add] at hlayout
  unfold assembleStatements
  rw [hbehind]
  rcases hlayout.cases with ⟨e, e', he, he', rfl⟩ | ⟨l, l', hl, hl', hmoves⟩
  · rw [he, he']
    rfl
  · rw [hl, hl']
    have hempty : Assembled.Moves k.toNat ⟨.empty, .empty, l.labels⟩ ⟨.empty, .empty, l'.labels⟩ :=
      ⟨.nil, .nil, hmoves.labels⟩
    exact hempty.emit hmoves.placed hmoves.fits

/-- A jump as far forward as a jump goes, and one as far back. -/
def longJumps : Text :=
  "back: jmp out\ndb \"".toList ++ List.replicate 125 'x' ++ "\"\nout: nop\njmp back\nend".toList

/-- The ORG behind which the program with the long jumps ends where memory does. -/
def longJumpsOrigin : Instruction := ⟨.org, none, [⟨.number 125, ⟨4, 6⟩⟩], ⟨0, 6⟩⟩

theorem assembleStatements_moved_longJumps : ∃ ss p p', parse longJumps = .ok ss
    ∧ (∀ s ∈ ss, s.IsMovable)
    ∧ longJumpsOrigin.mnemonic = .org ∧ longJumpsOrigin.origin? = some 125
    ∧ (125 : Byte).toNat + totalSize ss = memorySize
    ∧ assembleStatements ss = .ok p
    ∧ assembleStatements (.instruction longJumpsOrigin :: ss) = .ok p'
    ∧ p'.image.get? 255 = some 0
    ∧ p.Moves (125 : Byte).toNat p' := by
  have hsource : ((parse longJumps).toOption.bind fun ss => (assembleStatements ss).toOption.bind
      fun _ => (assembleStatements (.instruction longJumpsOrigin :: ss)).toOption.map fun p' =>
        (decide (∀ s ∈ ss, s.IsMovable), totalSize ss, p'.image.get? 255))
      = some (true, 131, some 0) := by decide +kernel
  obtain ⟨ss, hparse, hrest⟩ := Option.bind_eq_some_iff.1 hsource
  obtain ⟨p, hp, hrest⟩ := Option.bind_eq_some_iff.1 hrest
  obtain ⟨p', hp', hvalues⟩ := exists_of_toOption_map hrest
  rw [toOption_eq_some_iff] at hparse hp
  simp only [Prod.mk.injEq, decide_eq_true_eq] at hvalues
  obtain ⟨hmovable, hsize, hlast⟩ := hvalues
  have hend : (125 : Byte).toNat + totalSize ss = memorySize := by
    rw [hsize]
    rfl
  have hmoves : Parallel _ _ _ (assembleStatements (.instruction longJumpsOrigin :: ss)) :=
    assembleStatements_moved hparse hmovable rfl rfl hend.le
  rw [hp, hp'] at hmoves
  exact ⟨ss, p, p', hparse, hmovable, rfl, rfl, hend, hp, hp', hlast, hmoves⟩

end EightBit
