import LogLayout.Text.Size

/-!
# Parts of a text by their positions

A text is read at positions that count bytes. There is no result at a position inside a character or
behind the end, and none for a part that would end before it begins.

`charAt?_of_append` and `slice?_of_append` say what stands at sound positions.
-/

namespace LogLayout.Text

/-- The position with so many bytes before it. -/
def position? (text : String) (offset : Nat) : Option text.Pos :=
  if h : String.Pos.Raw.IsValid text ⟨offset⟩ then some ⟨⟨offset⟩, h⟩ else none

/-- The first character from a position on, and none in a text that ends there. -/
def charAt? (text : String) (offset : Nat) : Option (Option Char) :=
  (position? text offset).map fun position => position.get?

/-- The text between two positions. -/
def slice? (text : String) (start stop : Nat) : Option String := do
  let first ← position? text start
  let last ← position? text stop
  if h : first ≤ last then some (text.slice first last h).copy else none

variable {text : String} {before middle behind : List Char} {offset : Nat}

theorem isValid_of_append (h : text.toList = before ++ behind) :
    String.Pos.Raw.IsValid text ⟨byteLength before⟩ := by
  rw [String.Pos.Raw.isValid_iff_exists_append]
  refine ⟨String.ofList before, String.ofList behind, ?_, ?_⟩
  · rw [← String.ofList_append, ← h, String.ofList_toList]
  · exact congrArg String.Pos.Raw.mk (utf8ByteSize_ofList before).symm

theorem exists_append_of_isValid (h : String.Pos.Raw.IsValid text ⟨offset⟩) :
    ∃ before behind, text.toList = before ++ behind ∧ offset = byteLength before := by
  obtain ⟨first, second, rfl, hoffset⟩ := String.Pos.Raw.isValid_iff_exists_append.mp h
  refine ⟨first.toList, second.toList, String.toList_append, ?_⟩
  rw [byteLength_toList]
  exact congrArg String.Pos.Raw.byteIdx hoffset

theorem position?_of_append (h : text.toList = before ++ behind) :
    ∃ position, position? text (byteLength before) = some position ∧
      position.Splits (String.ofList before) (String.ofList behind) := by
  have hvalid := isValid_of_append h
  refine ⟨⟨⟨byteLength before⟩, hvalid⟩, dif_pos hvalid, ?_, ?_⟩
  · rw [← String.ofList_append, ← h, String.ofList_toList]
  · exact congrArg String.Pos.Raw.mk (utf8ByteSize_ofList before).symm

theorem charAt?_of_append (h : text.toList = before ++ behind) :
    charAt? text (byteLength before) = some behind.head? := by
  obtain ⟨position, hposition, hsplits⟩ := position?_of_append h
  unfold charAt?
  rw [hposition, Option.map_some]
  cases behind with
  | nil =>
    obtain rfl := hsplits.eq_endPos_iff.mpr rfl
    exact congrArg some (dif_pos rfl)
  | cons c behind =>
    rw [← List.singleton_append, String.ofList_append] at hsplits
    rw [String.Pos.get?_eq_some_get hsplits.ne_endPos_of_singleton,
      hsplits.next.get_eq_of_singleton]
    rfl

theorem slice?_of_append (h : text.toList = before ++ (middle ++ behind)) :
    slice? text (byteLength before) (byteLength (before ++ middle)) =
      some (String.ofList middle) := by
  obtain ⟨first, hfirst, hbefore⟩ := position?_of_append h
  rw [← List.append_assoc] at h
  obtain ⟨last, hlast, hbehind⟩ := position?_of_append h
  rw [String.ofList_append] at hbefore hbehind
  obtain ⟨hle, hcopy⟩ := String.copy_slice_eq_iff_splits.mpr ⟨_, _, hbefore, hbehind⟩
  unfold slice?
  rw [hfirst, hlast, ← hcopy]
  exact dif_pos hle

theorem isValid_of_charAt? {found : Option Char} (h : charAt? text offset = some found) :
    String.Pos.Raw.IsValid text ⟨offset⟩ := by
  obtain ⟨position, hposition, _⟩ := Option.map_eq_some_iff.mp h
  unfold position? at hposition
  split at hposition
  · assumption
  · cases hposition

/-- A character is found before the end only. -/
theorem lt_of_charAt? {c : Char} (h : charAt? text offset = some (some c)) :
    offset < text.utf8ByteSize := by
  obtain ⟨before, behind, happend, rfl⟩ := exists_append_of_isValid (isValid_of_charAt? h)
  rw [charAt?_of_append happend] at h
  obtain ⟨rest, rfl⟩ := List.head?_eq_some_iff.mp (Option.some.inj h)
  have hc := c.utf8Size_pos
  rw [← byteLength_toList, happend, byteLength_append, byteLength_cons]
  omega

example : slice? "aé%" 1 3 = some "é" := by decide +kernel
example : slice? "aé%" 1 2 = none := by decide +kernel

end LogLayout.Text
