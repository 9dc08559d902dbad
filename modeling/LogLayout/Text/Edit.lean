import LogLayout.Text.Size

/-!
# Edits in place

A text is changed where it stands, at positions that count bytes. There is no result at a position
inside a character or behind the end of the text, and none for a difference below zero.

`getD_charPosition?` says which position a number of characters has, and the equations after it
what an edit at the end of a text's first part leaves.
-/

namespace LogLayout.Text

/-- The difference of two numbers; none when it would be below zero. -/
def difference? (a b : Nat) : Option Nat :=
  if b ≤ a then some (a - b) else none

theorem difference?_of_le {a b : Nat} (h : b ≤ a) : difference? a b = some (a - b) :=
  if_pos h

/-- The position of the character that has so many others before it; none when there are not more
than so many. -/
def charPosition? : Nat → List Char → Option Nat
  | _, [] => none
  | 0, _ :: _ => some 0
  | count + 1, c :: cs => (charPosition? count cs).map fun position => c.utf8Size + position

/-- The text up to a position. -/
def truncate? (stop : Nat) (cs : List Char) : Option (List Char) :=
  (splitAt? stop cs).map Prod.fst

/-- The text without so many bytes from a position on. -/
def remove? (start count : Nat) (cs : List Char) : Option (List Char) := do
  let (before, rest) ← splitAt? start cs
  let (_, behind) ← splitAt? count rest
  return before ++ behind

/-- The text with another one put in at a position. -/
def insert? (start : Nat) (text cs : List Char) : Option (List Char) := do
  let (before, behind) ← splitAt? start cs
  return before ++ (text ++ behind)

/-- The characters before a position are as many as were asked for, or all of them. -/
theorem getD_charPosition? (count : Nat) (cs : List Char) :
    (charPosition? count cs).getD (byteLength cs) = byteLength (cs.take count) := by
  fun_induction charPosition? count cs with
  | case1 count => rw [List.take_nil, Option.getD_none]
  | case2 => rfl
  | case3 count c cs ih =>
    rw [byteLength_cons, List.take_succ_cons, byteLength_cons, ← ih]
    cases charPosition? count cs <;> rfl

theorem truncate?_append (before behind : List Char) :
    truncate? (byteLength before) (before ++ behind) = some before := by
  unfold truncate?
  rw [splitAt?_append]
  rfl

theorem remove?_append (before removed behind : List Char) :
    remove? (byteLength before) (byteLength removed) (before ++ (removed ++ behind)) =
      some (before ++ behind) := by
  unfold remove?
  rw [splitAt?_append]
  show (splitAt? (byteLength removed) (removed ++ behind) >>= _) = _
  rw [splitAt?_append]
  rfl

theorem insert?_append (before text behind : List Char) :
    insert? (byteLength before) text (before ++ behind) = some (before ++ (text ++ behind)) := by
  unfold insert?
  rw [splitAt?_append]
  rfl

end LogLayout.Text
