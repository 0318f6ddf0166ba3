import Mathlib.Data.List.Basic

namespace HeidiKernel

abbrev Bytes := List UInt8

/-- The bytes of a literal of the source. -/
def bytes (literal : String) : Bytes := literal.toUTF8.toList

/-- The bytes of a short text are looked at one by one. -/
theorem forall_mem_of_all {p : UInt8 → Prop} [DecidablePred p] {text : Bytes}
    (h : text.all (p ·) = true) : ∀ c ∈ text, p c := by
  simpa using h

theorem toList_loop (data : ByteArray) (i : Nat) (front : Bytes) :
    ByteArray.toList.loop data i front =
      front.reverse ++ data.data.toList.drop i := by
  induction hleft : data.size - i generalizing i front with
  | zero =>
      have hend : data.data.toList.length ≤ i := by
        simpa using (show data.size ≤ i by omega)
      rw [ByteArray.toList.loop, if_neg (by omega),
        List.drop_eq_nil_of_le hend, List.append_nil]
  | succ left ih =>
      have hi : i < data.size := by omega
      have hlength : i < data.data.toList.length := by simpa using hi
      have hget : data.get! i = data.data.toList[i] := by
        simp [ByteArray.get!, getElem!_pos, hi]
      rw [ByteArray.toList.loop, if_pos hi, ih _ _ (by omega), hget,
        List.reverse_cons, List.append_assoc, List.singleton_append,
        List.getElem_cons_drop]

@[simp] theorem bytes_inj {a b : String} : bytes a = bytes b ↔ a = b := by
  rw [bytes, bytes, ByteArray.toList, ByteArray.toList, toList_loop,
    toList_loop]
  simp [← ByteArray.ext_iff, String.toByteArray_inj]

theorem toList_data (data : ByteArray) : data.toList = data.data.toList := by
  rw [ByteArray.toList, toList_loop]
  simp

theorem bytes_append (a b : String) : bytes (a ++ b) = bytes a ++ bytes b := by
  simp [bytes, toList_data, String.toByteArray_append]

theorem bytes_ofList {chars : List Char} (h : ∀ c ∈ chars, c.val ≤ 127) :
    bytes (String.ofList chars) = chars.map Char.toUInt8 := by
  induction chars with
  | nil => simp [bytes, toList_data]
  | cons c chars ih =>
      have hc : c.utf8Size = 1 :=
        Char.utf8Size_eq_one_iff.mpr (h c List.mem_cons_self)
      have hrest := ih fun d hd => h d (List.mem_cons_of_mem c hd)
      simp only [bytes, toList_data, String.toUTF8_eq_toByteArray,
        String.toByteArray_ofList] at hrest ⊢
      rw [List.utf8Encode_cons, List.utf8Encode_singleton,
        String.utf8EncodeChar_eq_singleton hc]
      simp [hrest]

end HeidiKernel
