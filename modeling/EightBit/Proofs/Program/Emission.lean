/-
  EightBit.Proofs.Program.Emission
  ────────────────────────────────
  **WHERE THE BYTES OF A PROGRAM GO.**

  The emission pass writes the bytes of one instruction after another into the
  image.  ORG may lead back, so bytes may be written twice: the later byte
  stays, at the place that its address got when it was first written.

  Main results:
    • `get?_write`, `keys_write` — the bytes and the addresses of an image after
                                   some bytes are written;
    • `Emitted.place`            — one instruction keeps the invariant;
    • `outcome_emit`             — the emission pass ends with the first fault,
                                   or the invariant holds of the whole program.
-/
import EightBit.Proofs.Program.Encoding
import Mathlib.Data.List.Nodup
import Mathlib.Order.Bounds.Basic

namespace EightBit

/-! ## §1. Keys in the order of first insertion. -/

section EraseDups

variable {α : Type} [BEq α] [LawfulBEq α]

theorem nodup_eraseDups (l : List α) : l.eraseDups.Nodup := by
  -- on the length, because the tail is filtered before it goes on
  induction hn : l.length using Nat.strong_induction_on generalizing l with
  | _ n ih =>
    cases l with
    | nil => simp
    | cons a l =>
      rw [List.eraseDups_cons, List.nodup_cons]
      refine ⟨by simp [List.mem_eraseDups], ih _ ?_ _ rfl⟩
      have := List.length_filter_le (fun b => !b == a) l
      simp only [List.length_cons] at hn
      omega

theorem eraseDups_eq_self {l : List α} (h : l.Nodup) : l.eraseDups = l := by
  induction l with
  | nil => rfl
  | cons a l ih =>
    rw [List.nodup_cons] at h
    have hfilter : l.filter (fun b => !b == a) = l := by
      rw [List.filter_eq_self]
      intro b hb
      have hne : b ≠ a := fun heq => h.1 (heq ▸ hb)
      simp [hne]
    rw [List.eraseDups_cons, hfilter, ih h.2]

/-- What is dropped twice may be dropped once. -/
theorem eraseDups_eraseDups_append (l r : List α) :
    (l.eraseDups ++ r).eraseDups = (l ++ r).eraseDups := by
  have hremove : r.removeAll l.eraseDups = r.removeAll l := by
    unfold List.removeAll
    refine List.filter_congr fun a _ => ?_
    by_cases ha : a ∈ l <;> simp [ha, List.mem_eraseDups]
  rw [List.eraseDups_append, List.eraseDups_append, hremove,
    eraseDups_eq_self (nodup_eraseDups l)]

variable [DecidableEq α]

/-- A change adds its key, unless it is there. -/
theorem OrderedMap.keys_alter_eq_eraseDups {ν : Type} (m : OrderedMap α ν) (k : α)
    (f : Option ν → ν) : (m.alter k f).keys = (m.keys ++ [k]).eraseDups := by
  have hnodup : m.keys.Nodup := m.nodup
  rw [keys_alter, List.eraseDups_append, eraseDups_eq_self hnodup]
  by_cases hk : k ∈ m.keys <;> simp [hk, List.removeAll, List.eraseDups_cons]

/-- An insertion adds its key, unless it is there. -/
theorem OrderedMap.keys_insert_eq_eraseDups {ν : Type} (m : OrderedMap α ν) (k : α) (v : ν) :
    (m.insert k v).keys = (m.keys ++ [k]).eraseDups :=
  m.keys_alter_eq_eraseDups k fun _ => v

end EraseDups

theorem Entries.mem_keys_iff {κ ν : Type} [DecidableEq κ] (es : List (κ × ν)) (k : κ) :
    k ∈ es.map Prod.fst ↔ (get? k es).isSome := by
  induction es with
  | nil => simp [get?]
  | cons e es ih =>
    obtain ⟨key, value⟩ := e
    by_cases h : key = k
    · simp [get?, h]
    · have h' : ¬ k = key := fun heq => h heq.symm
      rw [List.map_cons, List.mem_cons, get?, if_neg h, ih]
      simp [h']

/-- A key is in the map when it has a value. -/
theorem OrderedMap.mem_keys_iff {κ ν : Type} [DecidableEq κ] (m : OrderedMap κ ν) (k : κ) :
    k ∈ m.keys ↔ (m.get? k).isSome := Entries.mem_keys_iff m.entries k

/-! ## §2. Bytes written to an image. -/

/-- The `n` addresses from `address` on. -/
def addressesFrom (address n : Nat) : List Byte :=
  (List.range n).map fun offset => UInt8.ofNat (address + offset)

theorem addressesFrom_succ (address n : Nat) :
    addressesFrom address (n + 1) = UInt8.ofNat address :: addressesFrom (address + 1) n := by
  unfold addressesFrom
  rw [List.range_succ_eq_map, List.map_cons, List.map_map, Nat.add_zero]
  congr 1
  refine List.map_congr_left fun offset _ => ?_
  show UInt8.ofNat (address + (offset + 1)) = UInt8.ofNat (address + 1 + offset)
  rw [show address + (offset + 1) = address + 1 + offset by omega]

theorem addressesFrom_add (address m n : Nat) :
    addressesFrom address (m + n) = addressesFrom address m ++ addressesFrom (address + m) n := by
  unfold addressesFrom
  rw [List.range_add, List.map_append, List.map_map]
  congr 1
  refine List.map_congr_left fun offset _ => ?_
  show UInt8.ofNat (address + (m + offset)) = UInt8.ofNat (address + m + offset)
  rw [Nat.add_assoc]

theorem nodup_addressesFrom {address n : Nat} (h : address + n ≤ memorySize) :
    (addressesFrom address n).Nodup := by
  have hsize : memorySize = 256 := rfl
  refine List.Nodup.map_on (fun i hi j hj hij => ?_) List.nodup_range
  rw [List.mem_range] at hi hj
  have heq := congrArg UInt8.toNat hij
  rw [toNat_ofNat_address (by omega), toNat_ofNat_address (by omega)] at heq
  omega

theorem mem_addressesFrom {address n : Nat} (h : address + n ≤ memorySize) (x : Byte) :
    x ∈ addressesFrom address n ↔ address ≤ x.toNat ∧ x.toNat < address + n := by
  unfold addressesFrom
  rw [List.mem_map]
  constructor
  · rintro ⟨offset, hoffset, rfl⟩
    rw [List.mem_range] at hoffset
    rw [toNat_ofNat_address (show address + offset < memorySize by omega)]
    omega
  · intro hx
    refine ⟨x.toNat - address, by rw [List.mem_range]; omega, ?_⟩
    rw [show address + (x.toNat - address) = x.toNat by omega, UInt8.ofNat_toNat]

namespace Image

/-- The addresses of an image after some bytes are written, in order. -/
theorem keys_write (image : Image) (address : Nat) (bytes : List Byte) :
    (image.write address bytes).keys
      = (image.keys ++ addressesFrom address bytes.length).eraseDups := by
  induction bytes generalizing image address with
  | nil =>
    have hnodup : image.keys.Nodup := image.nodup
    simp [write, addressesFrom, eraseDups_eq_self hnodup]
  | cons b bytes ih =>
    rw [write, ih, OrderedMap.keys_insert_eq_eraseDups, eraseDups_eraseDups_append,
      List.length_cons, addressesFrom_succ, List.append_assoc]
    rfl

/-- The byte at an address after some bytes are written. -/
theorem get?_write (image : Image) {address : Nat} {bytes : List Byte}
    (h : address + bytes.length ≤ memorySize) (x : Byte) :
    (image.write address bytes).get? x
      = if address ≤ x.toNat ∧ x.toNat < address + bytes.length then bytes[x.toNat - address]?
        else image.get? x := by
  induction bytes generalizing image address with
  | nil =>
    rw [if_neg (by rw [List.length_nil]; omega)]
    rfl
  | cons b bytes ih =>
    rw [List.length_cons] at h ⊢
    have haddress : (UInt8.ofNat address).toNat = address :=
      toNat_ofNat_address (by omega)
    have hx : x = UInt8.ofNat address ↔ x.toNat = address := by
      rw [← UInt8.toNat_inj, haddress]
    rw [write, ih _ (by omega), OrderedMap.get?_insert]
    -- the address is that of the first byte, of a later one, or of none
    by_cases hfirst : x.toNat = address
    · rw [if_neg (by omega), if_pos (hx.2 hfirst), if_pos (by omega), hfirst, Nat.sub_self,
        List.getElem?_cons_zero]
    · have hne : ¬ x = UInt8.ofNat address := fun heq => hfirst (hx.1 heq)
      rw [if_neg hne]
      by_cases hrest : address + 1 ≤ x.toNat ∧ x.toNat < address + 1 + bytes.length
      · rw [if_pos hrest, if_pos (by omega),
          show x.toNat - address = x.toNat - (address + 1) + 1 by omega, List.getElem?_cons_succ]
      · rw [if_neg hrest, if_neg (by omega)]

end Image

/-! ## §3. Memory with an image in it. -/

section Memory

variable {entries : List (Byte × Byte)} {x b : Byte}

theorem get_foldl_set_of_not_mem (m : Memory) (hx : x ∉ entries.map Prod.fst) :
    (entries.foldl (fun m (address, b) => m.set address b) m).get x = m.get x := by
  induction entries generalizing m with
  | nil => rfl
  | cons e entries ih =>
    obtain ⟨address, v⟩ := e
    rw [List.map_cons, List.mem_cons, not_or] at hx
    rw [List.foldl_cons, ih _ hx.2, Memory.get_set, if_neg hx.1]

theorem get_foldl_set (m : Memory) (hnodup : (entries.map Prod.fst).Nodup)
    (h : Entries.get? x entries = some b) :
    (entries.foldl (fun m (address, b) => m.set address b) m).get x = b := by
  induction entries generalizing m with
  | nil => exact absurd h (by simp [Entries.get?])
  | cons e entries ih =>
    obtain ⟨address, v⟩ := e
    rw [List.map_cons, List.nodup_cons] at hnodup
    rw [Entries.get?] at h
    rw [List.foldl_cons]
    by_cases hx : address = x
    · -- no later entry has the address
      subst hx
      rw [if_pos rfl, Option.some.injEq] at h
      rw [get_foldl_set_of_not_mem _ hnodup.1, Memory.get_set, if_pos rfl, h]
    · rw [if_neg hx] at h
      exact ih _ hnodup.2 h

/-- Memory has the bytes of the image. -/
theorem Assembled.get_memory {p : Assembled} (h : p.image.get? x = some b) : p.memory.get x = b :=
  get_foldl_set .blank p.image.nodup h

end Memory

/-! ## §4. What the statements before an index write. -/

/-- The addresses that the statement with index `i` writes, in order. -/
def addressesAt (ss : List Statement) (i : Nat) : List Byte :=
  match ss[i]? with
  | some (.instruction code) => addressesFrom (cursorAt ss i) code.size
  | _ => []

/-- The addresses that the first `k` statements write, in order, each as often
as it is written. -/
def written (ss : List Statement) (k : Nat) : List Byte :=
  (List.range k).flatMap (addressesAt ss)

/-- The statement with index `i` places a byte at the address. -/
def Covers (ss : List Statement) (i : Nat) (x : Byte) : Prop :=
  ∃ code, PlacesAt ss i code ∧ cursorAt ss i ≤ x.toNat ∧ x.toNat < cursorAt ss i + code.size

/-- The statement with index `i` places its first byte at the address. -/
def StartsAt (ss : List Statement) (i : Nat) (a : Byte) : Prop :=
  ∃ code, PlacesAt ss i code ∧ 0 < code.size ∧ cursorAt ss i = a.toNat

/-- The statement with index `i` places the instruction `j`, which has its
distances, and its bytes. -/
def Encodes (ss : List Statement) (labels : LabelTable) (i : Nat) (j : Instruction)
    (bytes : List Byte) : Prop :=
  ∃ code, PlacesAt ss i code
    ∧ code.encodeAt labels (UInt8.ofNat (cursorAt ss i)) = .ok (j, bytes)

section Writes

variable {ss : List Statement} {k : Nat}

theorem written_succ (ss : List Statement) (k : Nat) :
    written ss (k + 1) = written ss k ++ addressesAt ss k := by
  unfold written
  rw [List.range_succ, List.flatMap_append, List.flatMap_singleton]

theorem addressesAt_of_placesAt {code : Instruction} (h : PlacesAt ss k code) :
    addressesAt ss k = addressesFrom (cursorAt ss k) code.size := by
  rw [addressesAt, h.1]

theorem addressesAt_of_not_placesAt (h : ∀ code, ¬ PlacesAt ss k code) :
    addressesAt ss k = [] := by
  unfold addressesAt
  split
  · next code hs =>
    have horg : code.mnemonic = .org := by
      by_contra hne
      exact h code ⟨hs, hne⟩
    simp [Instruction.size, horg, addressesFrom]
  · rfl

/-- A statement writes the addresses that it covers. -/
theorem mem_addressesAt (hno : NoFault (placementFault? ss) 0) (i : Nat) (x : Byte) :
    x ∈ addressesAt ss i ↔ Covers ss i x := by
  by_cases h : ∃ code, PlacesAt ss i code
  · obtain ⟨code, h⟩ := h
    rw [addressesAt_of_placesAt h, mem_addressesFrom (h.fits (hno i (Nat.zero_le i))).1]
    constructor
    · exact fun hx => ⟨code, h, hx⟩
    · intro hcovers
      obtain ⟨code', h', hx⟩ := hcovers
      rw [h.unique h']
      exact hx
  · rw [addressesAt_of_not_placesAt fun code hcode => h ⟨code, hcode⟩]
    constructor
    · exact fun hx => absurd hx (by simp)
    · intro hcovers
      obtain ⟨code, hcode, -⟩ := hcovers
      exact absurd ⟨code, hcode⟩ h

/-- An index with a property is the last below its successor. -/
theorem isGreatest_succ {P : Nat → Prop} (h : P k) :
    IsGreatest {j | j < k + 1 ∧ P j} k := by
  refine ⟨⟨Nat.lt_succ_self k, h⟩, fun j hj => ?_⟩
  exact Nat.le_of_lt_succ hj.1

/-- An index without a property does not count as the last. -/
theorem below_succ_of_not {P : Nat → Prop} (h : ¬ P k) :
    {j | j < k + 1 ∧ P j} = {j | j < k ∧ P j} := by
  ext j
  constructor
  · intro hj
    obtain ⟨hlt, hP⟩ := hj
    have hne : j ≠ k := fun heq => h (heq ▸ hP)
    exact ⟨by omega, hP⟩
  · intro hj
    exact ⟨Nat.lt_succ_of_lt hj.1, hj.2⟩

end Writes

/-! ## §5. The emission pass. -/

/-- **The state of the emission pass** in front of the statement with index
`k`: what is at an address was written by the last of the statements before it
that cover the address, or start there. -/
structure Emitted (ss : List Statement) (k : Nat) (p : Assembled) : Prop where
  keys_eq : p.image.keys = (written ss k).eraseDups
  byte_of_last : ∀ x i, IsGreatest {j | j < k ∧ Covers ss j x} i →
    ∃ j bytes, Encodes ss p.labels i j bytes
      ∧ p.image.get? x = bytes[x.toNat - cursorAt ss i]?
  instruction_iff : ∀ a j, p.instructions.get? a = some j ↔
    ∃ i bytes, IsGreatest {j | j < k ∧ StartsAt ss j a} i ∧ Encodes ss p.labels i j bytes

/-- At the start nothing is emitted. -/
theorem Emitted.start (ss : List Statement) (labels : LabelTable) :
    Emitted ss 0 ⟨.empty, .empty, labels⟩ where
  keys_eq := rfl
  byte_of_last x i h := absurd h.1.1 (Nat.not_lt_zero i)
  instruction_iff a j := by
    constructor
    · exact fun h => absurd h (by simp)
    · intro h
      obtain ⟨i, bytes, hlast, -⟩ := h
      exact absurd hlast.1.1 (Nat.not_lt_zero i)

/-- A statement that places nothing changes nothing. -/
theorem Emitted.skip {ss : List Statement} {k : Nat} {p : Assembled} (h : Emitted ss k p)
    (hskip : ∀ code, ¬ PlacesAt ss k code) : Emitted ss (k + 1) p where
  keys_eq := by rw [written_succ, addressesAt_of_not_placesAt hskip, List.append_nil, h.keys_eq]
  byte_of_last x i := by
    have hcovers : ¬ Covers ss k x := fun ⟨code, hcode, _⟩ => hskip code hcode
    rw [below_succ_of_not hcovers]
    exact h.byte_of_last x i
  instruction_iff a j := by
    have hstarts : ¬ StartsAt ss k a := fun ⟨code, hcode, _⟩ => hskip code hcode
    rw [below_succ_of_not hstarts]
    exact h.instruction_iff a j

/-- The number of bytes that the emission pass writes is the size that the
layout pass counted. -/
theorem Encodes.length_eq {ss : List Statement} {labels : LabelTable} {i : Nat} {j : Instruction}
    {bytes : List Byte} {code : Instruction} (h : Encodes ss labels i j bytes)
    (hcode : PlacesAt ss i code) : bytes.length = code.size := by
  obtain ⟨code', hcode', henc⟩ := h
  obtain rfl := hcode.unique hcode'
  obtain ⟨j', hres, henc⟩ := bind_eq_ok_iff.1 henc
  obtain ⟨bytes', hbytes, heq⟩ := map_eq_ok_iff.1 henc
  cases heq
  have horg : j.mnemonic ≠ .org := by
    rw [Instruction.mnemonic_of_resolve hres]
    exact hcode.2
  rw [Instruction.length_encode horg hbytes, Instruction.size_of_resolve hres]

theorem Encodes.unique {ss : List Statement} {labels : LabelTable} {i : Nat} {j j' : Instruction}
    {bytes bytes' : List Byte} (h : Encodes ss labels i j bytes)
    (h' : Encodes ss labels i j' bytes') : j = j' ∧ bytes = bytes' := by
  obtain ⟨code, hcode, henc⟩ := h
  obtain ⟨code', hcode', henc'⟩ := h'
  rw [hcode'.unique hcode, henc] at henc'
  simpa using henc'

namespace Assembled

theorem image_place (p : Assembled) (a : Byte) (i : Instruction) (bytes : List Byte) :
    (p.place a i bytes).image = p.image.write a.toNat bytes := by
  cases bytes <;> rfl

@[simp] theorem labels_place (p : Assembled) (a : Byte) (i : Instruction) (bytes : List Byte) :
    (p.place a i bytes).labels = p.labels := by
  cases bytes <;> rfl

theorem get?_instructions_place (p : Assembled) (a x : Byte) (i : Instruction) (bytes : List Byte) :
    (p.place a i bytes).instructions.get? x
      = if 0 < bytes.length ∧ x = a then some i else p.instructions.get? x := by
  cases bytes with
  | nil => simp [place]
  | cons b bytes =>
    show (p.instructions.insert a i).get? x = _
    rw [OrderedMap.get?_insert]
    simp

/-- An instruction is resolved, encoded and placed, and then the next. -/
theorem emit_cons (p : Assembled) (a : Byte) (i : Instruction) (rest : List (Byte × Instruction)) :
    p.emit ((a, i) :: rest)
      = i.encodeAt p.labels a >>= fun encoded => (p.place a encoded.1 encoded.2).emit rest := by
  rw [emit, Instruction.encodeAt]
  cases i.resolve p.labels a with
  | error e => rfl
  | ok j =>
    simp only [ok_bind]
    cases j.encode <;> rfl

end Assembled

/-- One more instruction keeps the invariant. -/
theorem Emitted.place {ss : List Statement} {k : Nat} {p : Assembled}
    (hno : NoFault (placementFault? ss) 0) (h : Emitted ss k p) {code j : Instruction}
    {bytes : List Byte} (hcode : PlacesAt ss k code)
    (henc : code.encodeAt p.labels (UInt8.ofNat (cursorAt ss k)) = .ok (j, bytes)) :
    Emitted ss (k + 1) (p.place (UInt8.ofNat (cursorAt ss k)) j bytes) := by
  have hencodes : Encodes ss p.labels k j bytes := ⟨code, hcode, henc⟩
  have hlen : bytes.length = code.size := hencodes.length_eq hcode
  have hfits := (hcode.fits (hno k (Nat.zero_le k))).1
  have haddress := toNat_ofNat_cursorAt hno hcode.lt_length
  have hcovers : ∀ x, Covers ss k x ↔
      cursorAt ss k ≤ x.toNat ∧ x.toNat < cursorAt ss k + bytes.length := by
    intro x
    rw [← mem_addressesAt hno, addressesAt_of_placesAt hcode, mem_addressesFrom hfits, hlen]
  have hstarts : ∀ a, StartsAt ss k a ↔ 0 < bytes.length ∧ a = UInt8.ofNat (cursorAt ss k) := by
    intro a
    rw [hlen, ← UInt8.toNat_inj, haddress]
    constructor
    · intro hstart
      obtain ⟨code', hcode', hsize, ha⟩ := hstart
      rw [hcode.unique hcode']
      exact ⟨hsize, ha.symm⟩
    · exact fun ha => ⟨code, hcode, ha.1, ha.2.symm⟩
  -- the addresses, the bytes, and the instructions
  refine ⟨?_, fun x i hlast => ?_, fun a j' => ?_⟩
  · rw [Assembled.image_place, Image.keys_write, h.keys_eq, eraseDups_eraseDups_append,
      written_succ, addressesAt_of_placesAt hcode, hlen, haddress]
  · rw [Assembled.image_place, haddress, Image.get?_write p.image (by rw [hlen]; exact hfits),
      Assembled.labels_place]
    by_cases hx : Covers ss k x
    · -- the instruction covers the address, so it is the last that does
      obtain rfl : i = k := hlast.unique (isGreatest_succ hx)
      rw [if_pos ((hcovers x).1 hx)]
      exact ⟨j, bytes, hencodes, rfl⟩
    · rw [below_succ_of_not hx] at hlast
      rw [if_neg fun hin => hx ((hcovers x).2 hin)]
      exact h.byte_of_last x i hlast
  · rw [Assembled.get?_instructions_place, Assembled.labels_place]
    by_cases ha : StartsAt ss k a
    · rw [if_pos ((hstarts a).1 ha), Option.some.injEq]
      constructor
      · intro heq
        subst heq
        exact ⟨k, bytes, isGreatest_succ ha, hencodes⟩
      · intro hsome
        obtain ⟨i, bytes', hlast, henc'⟩ := hsome
        obtain rfl : i = k := hlast.unique (isGreatest_succ ha)
        exact (hencodes.unique henc').1
    · rw [if_neg fun hin => ha ((hstarts a).2 hin), below_succ_of_not ha]
      exact h.instruction_iff a j'

/-- **The emission pass.**  It ends with the first fault of an encoding, or the
invariant holds of the whole program. -/
theorem outcome_emit {ss : List Statement} {k : Nat} {placed : List (Byte × Instruction)}
    {p : Assembled} (hno : NoFault (placementFault? ss) 0)
    (hlaid : LaidOut ss ss.length p.labels) (hplaced : Placed ss k placed) (h : Emitted ss k p) :
    Outcome (fun q => NoFault (encodingFault? ss) k ∧ q.labels = p.labels ∧ Emitted ss ss.length q)
      (FirstFault (encodingFault? ss) k) (p.emit placed) := by
  induction hplaced generalizing p with
  | done =>
    refine ⟨fun i hi => ?_, rfl, h⟩
    rw [encodingFault?, List.getElem?_eq_none hi]
  | skip hskip hrest ih =>
    have hnone := encodingFault?_of_not_placesAt hskip
    exact (ih hlaid (h.skip hskip)).mono (fun q hq => ⟨hq.1.later hnone, hq.2⟩)
      fun e he => he.later hnone
  | @place k code placed hcode hrest ih =>
    rw [Assembled.emit_cons]
    have hfault := encodeAt_eq_error_iff hno hlaid hcode
    cases henc : code.encodeAt p.labels (UInt8.ofNat (cursorAt ss k)) with
    | error e => exact .here ((hfault e).1 henc)
    | ok encoded =>
      have hnone : encodingFault? ss k = none := eq_none_of_ok henc hfault
      have hlaid' : LaidOut ss ss.length
          (p.place (UInt8.ofNat (cursorAt ss k)) encoded.1 encoded.2).labels := by
        rw [Assembled.labels_place]
        exact hlaid
      refine (ih hlaid' (h.place hno hcode henc)).mono (fun q hq => ?_) fun e he => he.later hnone
      rw [Assembled.labels_place] at hq
      exact ⟨hq.1.later hnone, hq.2⟩

end EightBit
