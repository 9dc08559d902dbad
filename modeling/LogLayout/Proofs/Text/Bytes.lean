import LogLayout.Text.Size

/-!
# The bytes of a text

The bytes of a text are those of its characters in order, so positions in a text are indices of its
bytes. The byte of an ASCII character occurs in that character and in no other one
(`mem_utf8EncodeChar_iff`).
-/

namespace LogLayout.Text

/-- The bytes of the characters in UTF-8. -/
def bytes (cs : List Char) : Array UInt8 :=
  (cs.flatMap String.utf8EncodeChar).toArray

theorem data_toUTF8 (s : String) : s.toUTF8.data = bytes s.toList := by
  have hbytes : (String.ofList s.toList).toByteArray = s.toList.utf8Encode :=
    String.toByteArray_ofList
  rw [String.ofList_toList] at hbytes
  show s.toByteArray.data = bytes s.toList
  rw [hbytes]
  exact List.data_toByteArray

theorem size_bytes (cs : List Char) : (bytes cs).size = byteLength cs := by
  unfold bytes
  rw [List.size_toArray]
  induction cs with
  | nil => rfl
  | cons c cs ih =>
    rw [List.flatMap_cons, List.length_append, String.length_utf8EncodeChar, ih, byteLength_cons]

theorem bytes_append (before behind : List Char) :
    bytes (before ++ behind) = bytes before ++ bytes behind := by
  unfold bytes
  rw [List.flatMap_append, List.append_toArray]

/-- A byte within a character of the text. -/
theorem getElem?_bytes (before behind : List Char) (c : Char) {index : Nat}
    (h : index < c.utf8Size) :
    ∃ byte ∈ String.utf8EncodeChar c,
      (bytes (before ++ c :: behind))[byteLength before + index]? = some byte := by
  have hindex : index < (String.utf8EncodeChar c).length := by
    rw [String.length_utf8EncodeChar]
    exact h
  refine ⟨(String.utf8EncodeChar c)[index], List.getElem_mem hindex, ?_⟩
  rw [bytes_append, Array.getElem?_append_right (by rw [size_bytes]; exact Nat.le_add_right _ _),
    size_bytes, Nat.add_sub_cancel_left, bytes, List.getElem?_toArray, List.flatMap_cons,
    List.getElem?_append_left hindex, List.getElem?_eq_getElem hindex]

/-- An ASCII character is one byte of the text. -/
theorem getElem?_bytes_ascii (before behind : List Char) {c : Char} (hc : c.val.toNat < 128) :
    (bytes (before ++ c :: behind))[byteLength before]? = some (UInt8.ofNat c.val.toNat) := by
  obtain ⟨byte, hmem, hbyte⟩ := getElem?_bytes before behind c c.utf8Size_pos
  rw [String.utf8EncodeChar, if_pos (Nat.le_of_lt_succ hc), List.mem_singleton] at hmem
  rwa [Nat.add_zero, hmem] at hbyte

/-- The byte of an ASCII character is found in that character only. -/
theorem mem_utf8EncodeChar_iff {c d : Char} (hc : c.val.toNat < 128) :
    UInt8.ofNat c.val.toNat ∈ String.utf8EncodeChar d ↔ d = c := by
  have hbyte (n : Nat) : UInt8.ofNat c.val.toNat = UInt8.ofNat n ↔ c.val.toNat = n % 256 := by
    rw [← UInt8.toNat_inj, UInt8.toNat_ofNat', UInt8.toNat_ofNat']
    omega
  have hchar : d = c ↔ c.val.toNat = d.val.toNat := by
    rw [eq_comm, ← Char.val_inj, ← UInt32.toNat_inj]
  rw [hchar]
  simp only [String.utf8EncodeChar]
  split
  · rw [List.mem_singleton, hbyte]
    omega
  · split
    · simp only [List.mem_cons, hbyte, List.not_mem_nil, or_false]
      omega
    · split
      · simp only [List.mem_cons, hbyte, List.not_mem_nil, or_false]
        omega
      · simp only [List.mem_cons, hbyte, List.not_mem_nil, or_false]
        omega

end LogLayout.Text
