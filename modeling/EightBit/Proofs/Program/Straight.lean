/-
  EightBit.Proofs.Program.Straight
  ────────────────────────────────
  **PROGRAMS WITHOUT GAPS.**

  Without ORG addresses only grow, and without DB every instruction has an
  opcode.  So the instructions of such a program stand one behind another from
  address 0 on, none is overwritten, and every address up to the last is either
  that of an instruction or inside one.

  Main results:
    • `lt_size_image`         — the image has the addresses up to its size;
    • `image_of_encodes`      — every instruction has its bytes in the image;
    • `exists_placesAt_from`  — an instruction stands at every address of a
                                statement.
-/
import EightBit.Proofs.Program.Assembly
import EightBit.Proofs.Program.Decoding

namespace EightBit

/-! ## §1. Straight code. -/

/-- The statement moves the cursor by its size only, places no data, and leads
to another statement by falling through or by a jump. -/
def Statement.IsStraight : Statement → Prop
  | .label .. => True
  | .instruction i => i.mnemonic ∉ [.org, .db, .call, .int, .ret, .iret]

instance : DecidablePred Statement.IsStraight
  | .label .. => inferInstanceAs (Decidable True)
  | .instruction i => inferInstanceAs (Decidable (i.mnemonic ∉ _))

theorem Mnemonic.opcode_of_straight (m : Mnemonic)
    (hm : m ∉ [.org, .db, .call, .int, .ret, .iret]) :
    ∀ f ∈ m.forms, ∃ op, f.opcode = some op ∧ op.IsLocal := by
  cases m with
  | org | db | call | int | ret | iret => exact absurd (by decide) hm
  | _ => simp [forms, Opcode.IsLocal]

/-- A program that was read and assembled and consists of straight code. -/
structure Straight (ss : List Statement) (p : Assembled) : Prop where
  read : WellRead ss
  assembled : assembleStatements ss = .ok p
  straight : ∀ s ∈ ss, s.IsStraight

namespace Straight

variable {ss : List Statement} {p : Assembled} {i j : Nat} {code : Instruction}

theorem noFault (h : Straight ss p) : NoFault (placementFault? ss) 0 :=
  (noFault_of_assembleStatements h.assembled).1

/-- Every instruction places bytes. -/
theorem placesAt (h : Straight ss p) (hs : ss[i]? = some (.instruction code)) :
    PlacesAt ss i code := by
  have hstraight := h.straight _ (List.mem_of_getElem? hs)
  refine ⟨hs, fun horg => hstraight ?_⟩
  rw [horg]
  decide

/-- Every instruction has an opcode, and so at least one byte. -/
theorem exists_opcode (h : Straight ss p) (hcode : PlacesAt ss i code) :
    ∃ op, code.opcode = some op ∧ op.IsLocal := by
  have hmem := List.mem_of_getElem? hcode.1
  obtain ⟨f, hf, -, hopcode⟩ := h.read.formed code hmem
  rw [hopcode]
  exact code.mnemonic.opcode_of_straight (h.straight _ hmem) f hf

theorem size_pos (h : Straight ss p) (hcode : PlacesAt ss i code) : 0 < code.size := by
  obtain ⟨op, hop, -⟩ := h.exists_opcode hcode
  rw [Instruction.size, if_neg hcode.2, hop]
  show 0 < 1 + _
  omega

/-! ## §2. Addresses grow. -/

theorem cursorAt_le_succ (h : Straight ss p) (i : Nat) : cursorAt ss i ≤ cursorAt ss (i + 1) := by
  cases hs : ss[i]? with
  | none =>
    have hlen : ss.length ≤ i := List.getElem?_eq_none_iff.1 hs
    unfold cursorAt
    rw [List.take_of_length_le hlen, List.take_of_length_le (by omega)]
  | some s =>
    cases s with
    | label name span => rw [cursorAt_succ_of_declaresAt ⟨span, hs⟩]
    | instruction code =>
      rw [cursorAt_succ_of_placesAt (h.placesAt hs)]
      omega

theorem cursorAt_mono (h : Straight ss p) (hij : i ≤ j) : cursorAt ss i ≤ cursorAt ss j := by
  induction hij with
  | refl => exact Nat.le_refl _
  | step _ ih => exact Nat.le_trans ih (h.cursorAt_le_succ _)

/-- No byte is placed twice. -/
theorem covers_unique (h : Straight ss p) {x : Byte} (hi : Covers ss i x) (hj : Covers ss j x) :
    i = j := by
  -- of two statements the later one starts behind the earlier one
  have hbehind : ∀ {i j : Nat}, Covers ss i x → Covers ss j x → ¬ i < j := by
    intro i j hi hj hlt
    obtain ⟨code, hcode, -, hhi⟩ := hi
    obtain ⟨code', -, hlo, -⟩ := hj
    have hmono := h.cursorAt_mono (show i + 1 ≤ j from hlt)
    rw [cursorAt_succ_of_placesAt hcode] at hmono
    omega
  have hij := hbehind hi hj
  have hji := hbehind hj hi
  omega

/-! ## §3. The image. -/

theorem written_eq (h : Straight ss p) {k : Nat} (hk : k ≤ ss.length) :
    written ss k = addressesFrom 0 (cursorAt ss k) := by
  induction k with
  | zero => rfl
  | succ k ih =>
    rw [written_succ, ih (by omega)]
    have hs : ss[k]? = some ss[k] := List.getElem?_eq_getElem hk
    cases hsk : ss[k] with
    | label name span =>
      rw [hsk] at hs
      rw [addressesAt, hs, cursorAt_succ_of_declaresAt ⟨span, hs⟩, List.append_nil]
    | instruction code =>
      rw [hsk] at hs
      have hcode := h.placesAt hs
      rw [addressesAt_of_placesAt hcode, cursorAt_succ_of_placesAt hcode, addressesFrom_add,
        Nat.zero_add]

/-- The program ends inside memory. -/
theorem cursorAt_length_le (h : Straight ss p) : cursorAt ss ss.length ≤ memorySize := by
  obtain ⟨before, last, hss, -, -⟩ := h.read.ends
  have hlen : ss.length = before.length + 1 := by rw [hss, List.length_append, List.length_singleton]
  have hs : ss[before.length]? = some (.instruction last) := by
    rw [hss, List.getElem?_concat_length]
  have hcode := h.placesAt hs
  rw [hlen, cursorAt_succ_of_placesAt hcode]
  exact (hcode.fits (h.noFault _ (Nat.zero_le _))).1

theorem keys_image (h : Straight ss p) : p.image.keys = addressesFrom 0 (cursorAt ss ss.length) := by
  have hnodup := nodup_addressesFrom (show 0 + cursorAt ss ss.length ≤ memorySize by
    rw [Nat.zero_add]
    exact h.cursorAt_length_le)
  rw [(emitted_of_assembleStatements h.assembled).keys_eq, h.written_eq (Nat.le_refl _),
    eraseDups_eq_self hnodup]

/-- **The image has the addresses up to its size.** -/
theorem lt_size_image (h : Straight ss p) {x b : Byte} (hx : p.image.get? x = some b) :
    x.toNat < p.image.size := by
  have hmem : x ∈ p.image.keys := by rw [OrderedMap.mem_keys_iff, hx]; rfl
  have hsize : p.image.size = p.image.keys.length := by rw [OrderedMap.keys, List.length_map]; rfl
  rw [h.keys_image, mem_addressesFrom (by rw [Nat.zero_add]; exact h.cursorAt_length_le)] at hmem
  rw [hsize, h.keys_image, addressesFrom, List.length_map, List.length_range]
  omega

/-- **Every instruction has its bytes in the image.** -/
theorem image_of_encodes (h : Straight ss p) {code : Instruction} {bytes : List Byte}
    (henc : Encodes ss p.labels i code bytes) {offset : Nat} {b : Byte}
    (hb : bytes[offset]? = some b) :
    p.image.get? (UInt8.ofNat (cursorAt ss i + offset)) = some b := by
  obtain ⟨source, hsource, -, -⟩ := henc.parts
  have hlen := henc.length_eq hsource
  have hoffset : offset < bytes.length := (List.getElem?_eq_some_iff.1 hb).1
  have hfits := (hsource.fits (h.noFault i (Nat.zero_le i))).1
  have hx : (UInt8.ofNat (cursorAt ss i + offset)).toNat = cursorAt ss i + offset :=
    toNat_ofNat_address (by omega)
  have hcovers : Covers ss i (UInt8.ofNat (cursorAt ss i + offset)) :=
    ⟨source, hsource, by omega, by omega⟩
  -- the only instruction that covers the address is the last that does
  have hlast : IsGreatest {j | Covers ss j (UInt8.ofNat (cursorAt ss i + offset))} i :=
    ⟨hcovers, fun j hj => (h.covers_unique hj hcovers).le⟩
  obtain ⟨code', bytes', b', henc', hb', hget⟩ :=
    byte_of_last_of_assembleStatements h.assembled hlast
  obtain ⟨-, rfl⟩ := henc.unique henc'
  rw [hx, Nat.add_sub_cancel_left, hb] at hb'
  rw [hget, hb']

/-! ## §4. Where instructions start. -/

theorem exists_instruction (h : Straight ss p) {a : Byte} (hcode : PlacesAt ss i code)
    (ha : cursorAt ss i = a.toNat) : ∃ j, p.instructions.get? a = some j := by
  have hsize := h.size_pos hcode
  have hcovers : ∀ j, StartsAt ss j a → Covers ss j a := by
    intro j hj
    obtain ⟨code', hcode', hsize', hstart⟩ := hj
    exact ⟨code', hcode', by omega, by omega⟩
  have hstarts : StartsAt ss i a := ⟨code, hcode, hsize, ha⟩
  have hlast : IsGreatest {j | StartsAt ss j a} i :=
    ⟨hstarts, fun j hj => (h.covers_unique (hcovers j hj) (hcovers i hstarts)).le⟩
  obtain ⟨j, bytes, henc⟩ := exists_encodes_of_assembleStatements h.assembled hcode
  exact ⟨j, (instruction_iff_of_assembleStatements h.assembled a j).2 ⟨i, bytes, hlast, henc⟩⟩

/-- **An instruction stands at the address of every statement.**  Only labels
can be between the statement and the instruction, because END comes last. -/
theorem exists_placesAt_from (h : Straight ss p) {k : Nat} (hk : k < ss.length) :
    ∃ i code, PlacesAt ss i code ∧ cursorAt ss i = cursorAt ss k := by
  induction hn : ss.length - k generalizing k with
  | zero => omega
  | succ n ih =>
    have hs : ss[k]? = some ss[k] := List.getElem?_eq_getElem hk
    cases hsk : ss[k] with
    | instruction code =>
      rw [hsk] at hs
      exact ⟨k, code, h.placesAt hs, rfl⟩
    | label name span =>
      rw [hsk] at hs
      have hlt : k + 1 < ss.length := h.read.succ_lt_length hs rfl
      obtain ⟨i, code, hcode, hcursor⟩ := ih hlt (by omega)
      refine ⟨i, code, hcode, ?_⟩
      rw [hcursor, cursorAt_succ_of_declaresAt ⟨span, hs⟩]

end Straight

end EightBit
