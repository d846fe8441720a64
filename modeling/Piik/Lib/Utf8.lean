/-
  The bytes of a string.
-/
import Mathlib

namespace Utf8

theorem loop_eq (bytes : ByteArray) (i : ℕ) (r : List UInt8) :
    ByteArray.toList.loop bytes i r = r.reverse ++ bytes.data.toList.drop i := by
  fun_induction ByteArray.toList.loop bytes i r with
  | case1 i r h ih =>
    have hlt : i < bytes.data.toList.length := by simpa using h
    have hsize : i < bytes.data.size := h
    have hget : bytes.get! i = bytes.data.toList[i] := by
      simp [ByteArray.get!, getElem!_pos bytes.data i hsize]
    rw [ih, List.drop_eq_getElem_cons hlt, hget]
    simp
  | case2 i r h =>
    have hle : bytes.data.toList.length ≤ i := by simpa using h
    simp [List.drop_eq_nil_of_le hle]

theorem toList_eq (bytes : ByteArray) : bytes.toList = bytes.data.toList := by
  rw [ByteArray.toList, loop_eq]
  simp

theorem bytes_inj {s t : String} (h : s.toUTF8.toList = t.toUTF8.toList) : s = t := by
  rw [toList_eq, toList_eq] at h
  refine String.toByteArray_inj.1 (ByteArray.ext (Array.toList_inj.1 ?_))
  simpa using h

theorem size_encode (l : List Char) : l.utf8Encode.size = (l.map Char.utf8Size).sum := by
  induction l with
  | nil => rfl
  | cons c l ih =>
    rw [List.utf8Encode_cons, List.utf8Encode_singleton, ByteArray.size_append, ih]
    simp

theorem utf8ByteSize_eq (s : String) : s.utf8ByteSize = (s.toList.map Char.utf8Size).sum := by
  rw [← size_encode, ← String.toByteArray_ofList, String.ofList_toList, String.size_toByteArray]

/-- A text of ASCII characters has a byte for each. -/
theorem utf8ByteSize_ascii {s : String} (h : ∀ c ∈ s.toList, c.toNat < 128) : s.utf8ByteSize = s.toList.length := by
  have hone : ∀ c ∈ s.toList, c.utf8Size = 1 := by
    intro c hc
    have hle : c.val ≤ 0x7f := UInt32.le_iff_toNat_le.2 (Nat.le_of_lt_succ (h c hc))
    unfold Char.utf8Size
    exact if_pos hle
  rw [utf8ByteSize_eq, List.map_congr_left hone]
  simp

end Utf8
