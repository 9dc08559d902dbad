/-!
# Positions in a text

A position in a text counts the bytes of its UTF-8 form. Offsets of warnings and of rejected
directives are such positions. A text can be split only between two characters.
-/

namespace LogLayout.Text

/-- The number of bytes of the characters in UTF-8. -/
def byteLength : List Char → Nat
  | [] => 0
  | c :: cs => c.utf8Size + byteLength cs

@[simp] theorem byteLength_nil : byteLength [] = 0 := rfl

@[simp] theorem byteLength_cons (c : Char) (cs : List Char) :
    byteLength (c :: cs) = c.utf8Size + byteLength cs := rfl

@[simp] theorem byteLength_append (a b : List Char) :
    byteLength (a ++ b) = byteLength a + byteLength b := by
  induction a with
  | nil => rw [List.nil_append, byteLength_nil, Nat.zero_add]
  | cons c a ih => rw [List.cons_append, byteLength_cons, byteLength_cons, ih, Nat.add_assoc]

theorem utf8ByteSize_ofList (cs : List Char) :
    (String.ofList cs).utf8ByteSize = byteLength cs := by
  induction cs with
  | nil => rfl
  | cons c cs ih =>
    rw [String.ofList_cons, String.utf8ByteSize_append, String.utf8ByteSize_singleton, ih,
      byteLength_cons]

/-- The position behind a text is its number of bytes. -/
theorem byteLength_toList (s : String) : byteLength s.toList = s.utf8ByteSize := by
  rw [← utf8ByteSize_ofList, String.ofList_toList]

/-- Splits the characters at a position; there is no result inside a character or behind the
end. -/
def splitAt? : Nat → List Char → Option (List Char × List Char)
  | 0, cs => some ([], cs)
  | _ + 1, [] => none
  | n + 1, c :: cs =>
    if c.utf8Size ≤ n + 1 then (splitAt? (n + 1 - c.utf8Size) cs).map fun (a, b) => (c :: a, b)
    else none

theorem splitAt?_append (a b : List Char) : splitAt? (byteLength a) (a ++ b) = some (a, b) := by
  induction a with
  | nil => rw [byteLength_nil, List.nil_append, splitAt?]
  | cons c a ih =>
    obtain ⟨n, hn⟩ : ∃ n, byteLength (c :: a) = n + 1 :=
      ⟨byteLength (c :: a) - 1, by have := c.utf8Size_pos; rw [byteLength_cons]; omega⟩
    have hc : c.utf8Size ≤ n + 1 := by rw [← hn, byteLength_cons]; omega
    have hr : n + 1 - c.utf8Size = byteLength a := by rw [← hn, byteLength_cons]; omega
    rw [hn, List.cons_append, splitAt?, if_pos hc, hr, ih]
    rfl

end LogLayout.Text
