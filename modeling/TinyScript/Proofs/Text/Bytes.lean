/-!
# The bytes of a text

* `toByteArray_toList`, `toList_toByteArray`   an array of bytes and the list of them
* `zero_mem_toUTF8_iff`                        a text with a zero byte has the character of that number
-/

namespace TinyScript

/-! ### Lists and arrays -/

theorem toList_loop (bs : ByteArray) (i : Nat) (r : List UInt8) :
    ByteArray.toList.loop bs i r = r.reverse ++ bs.data.toList.drop i := by
  fun_induction ByteArray.toList.loop bs i r with
  | case1 i r h ih =>
    have hlt : i < bs.data.toList.length := h
    have hget : bs.get! i = bs.data.toList[i] := by
      show bs.data[i]! = _
      rw [getElem!_pos bs.data i hlt, Array.getElem_toList]
    rw [ih, List.reverse_cons, List.append_assoc, List.singleton_append, hget,
      List.getElem_cons_drop]
  | case2 i r h =>
    have hge : bs.data.toList.length ≤ i := Nat.not_lt.mp h
    rw [List.drop_eq_nil_of_le hge, List.append_nil]

theorem toByteArray_toList (bs : ByteArray) : bs.toList.toByteArray = bs := by
  show (ByteArray.toList.loop bs 0 []).toByteArray = bs
  rw [toList_loop]
  apply ByteArray.ext
  simp

theorem toList_toByteArray (bytes : List UInt8) : bytes.toByteArray.toList = bytes := by
  show ByteArray.toList.loop bytes.toByteArray 0 [] = bytes
  rw [toList_loop]
  simp

/-! ### Zero bytes -/

/-- in the bytes of any other character no byte is zero -/
theorem zero_mem_utf8EncodeChar {c : Char} (h : 0 ∈ String.utf8EncodeChar c) : c = '\x00' := by
  have hpos : ∀ k, 0 < k → k < 256 → (0 : UInt8) ≠ UInt8.ofNat k := by
    intro k hk hlt he
    have ht : 0 = k % 256 := (congrArg UInt8.toNat he).trans UInt8.toNat_ofNat'
    omega
  unfold String.utf8EncodeChar at h
  dsimp only at h
  split at h
  · have hv : c.val.toNat = 0 := by
      rcases Nat.eq_zero_or_pos c.val.toNat with hz | hp
      · exact hz
      · exact absurd (List.mem_singleton.mp h) (hpos _ hp (by omega))
    exact Char.ext (UInt32.toNat_inj.mp hv)
  split at h
  · simp only [List.mem_cons, List.not_mem_nil, or_false] at h
    rcases h with h | h <;> exact absurd h (hpos _ (by omega) (by omega))
  split at h
  · simp only [List.mem_cons, List.not_mem_nil, or_false] at h
    rcases h with h | h | h <;> exact absurd h (hpos _ (by omega) (by omega))
  · simp only [List.mem_cons, List.not_mem_nil, or_false] at h
    rcases h with h | h | h | h <;> exact absurd h (hpos _ (by omega) (by omega))

theorem toUTF8_eq (s : String) : s.toUTF8 = (s.toList.flatMap String.utf8EncodeChar).toByteArray := by
  show s.toByteArray = s.toList.utf8Encode
  rw [← String.toByteArray_ofList, String.ofList_toList]

theorem zero_mem_toUTF8 {s : String} (h : 0 ∈ s.toUTF8.toList) : '\x00' ∈ s.toList := by
  rw [toUTF8_eq, toList_toByteArray] at h
  obtain ⟨c, hc, h0⟩ := List.mem_flatMap.mp h
  rwa [zero_mem_utf8EncodeChar h0] at hc

theorem zero_mem_toUTF8_iff {s : String} : 0 ∈ s.toUTF8.toList ↔ '\x00' ∈ s.toList := by
  refine ⟨zero_mem_toUTF8, fun h => ?_⟩
  rw [toUTF8_eq, toList_toByteArray]
  exact List.mem_flatMap.mpr ⟨_, h, List.mem_singleton_self 0⟩

end TinyScript
