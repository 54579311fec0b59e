/-
  EightBit.Text.Utf8
  ──────────────────
  **TEXT AS BYTES.**

  Main result:
    • `decode?_encode` — an encoded text is decoded again.
-/
import EightBit.Byte
import EightBit.Text.Basic

namespace EightBit.Text.Utf8

def encode (t : Text) : List Byte := (String.ofList t).toUTF8.toList

/-- The text of which these are the bytes in UTF-8, if there is one. -/
def decode? (bytes : List Byte) : Option Text :=
  (String.fromUTF8? ⟨bytes.toArray⟩).map String.toList

theorem toList_loop (bytes : ByteArray) (i : Nat) (r : List Byte) :
    ByteArray.toList.loop bytes i r = r.reverse ++ bytes.data.toList.drop i := by
  induction i, r using ByteArray.toList.loop.induct bytes with
  | case1 i r hlt ih =>
    have hlength : i < bytes.data.toList.length := hlt
    have hget : bytes.get! i = bytes.data.toList[i] := by
      show bytes.data[i]! = _
      simp [hlt]
    rw [ByteArray.toList.loop, if_pos hlt, ih, hget, List.reverse_cons, List.append_assoc,
      List.singleton_append, ← List.drop_eq_getElem_cons hlength]
  | case2 i r hge =>
    have hlength : bytes.data.toList.length ≤ i := Nat.not_lt.1 hge
    rw [ByteArray.toList.loop, if_neg hge, List.drop_eq_nil_of_le hlength, List.append_nil]

/-- An encoded text is decoded again. -/
theorem decode?_encode (t : Text) : decode? (encode t) = some t := by
  have hbytes : (⟨(String.ofList t).toUTF8.toList.toArray⟩ : ByteArray)
      = (String.ofList t).toUTF8 := by
    rw [ByteArray.toList, toList_loop]
    rfl
  have hvalid : (String.ofList t).toUTF8.IsValidUTF8 := (String.ofList t).isValidUTF8
  rw [decode?, encode, hbytes, String.fromUTF8?, dif_pos hvalid]
  exact congrArg some String.toList_ofList

end EightBit.Text.Utf8
