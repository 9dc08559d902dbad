import LogLayout.Text.Edit

/-!
# Field specifiers

How the text of one directive is fitted into its field: a text that is too long is cut at one end,
then a text that is too short is filled up with spaces at one end. Widths count characters.

The field is the end of a text that grows, and it is fitted where it stands, by edits at positions
of the whole text. `fitInPlace?_append` says that these edits touch nothing before the field and
leave the fitted field, and `length_fit` how long a fitted text is.
-/

namespace LogLayout.Fitting

inductive Side where
  | head
  | tail
  deriving DecidableEq, Repr

/-- The greatest width of a field, and the end of the text that is kept. -/
structure Limit where
  width : Nat
  keep : Side
  deriving DecidableEq, Repr

/-- Where the spaces of a short text go. -/
inductive Justification where
  | left
  | right
  deriving DecidableEq, Repr

/-- The specifier of a field; the default one leaves every text as it is. -/
structure Specifier where
  minWidth : Option Nat := none
  justification : Justification := .right
  limit : Option Limit := none
  deriving DecidableEq, Repr

namespace Specifier

def isNeutral (s : Specifier) : Bool :=
  s.minWidth.isNone && s.limit.isNone

def maxWidth (s : Specifier) : Option Nat :=
  s.limit.map Limit.width

/-- Whether a long text loses characters at its start. -/
def cutsStart (s : Specifier) : Bool :=
  s.limit.any fun limit => limit.keep == .tail

/-- The text without the characters beyond the greatest width. -/
def cut (s : Specifier) (text : List Char) : List Char :=
  match s.limit with
  | none => text
  | some ⟨width, .head⟩ => text.take width
  | some ⟨width, .tail⟩ => text.drop (text.length - width)

/-- The text with spaces up to the least width. -/
def fill (s : Specifier) (text : List Char) : List Char :=
  let spaces := List.replicate (s.minWidth.getD 0 - text.length) ' '
  match s.justification with
  | .left => text ++ spaces
  | .right => spaces ++ text

def fit (s : Specifier) (text : List Char) : List Char :=
  s.fill (s.cut text)

/-! ## Fitting in place -/

/-- The buffer with a field that is too long cut down to the greatest width, and the number of
characters left in the field, which begins at a position of the buffer. -/
def cutInPlace? (s : Specifier) (start : Nat) (buffer field : List Char) :
    Option (List Char × Nat) :=
  match s.limit with
  | none => some (buffer, field.length)
  | some ⟨width, keep⟩ =>
    if field.length ≤ width then some (buffer, field.length)
    else do
      let shortened ← match keep with
        | .tail => do
          let surplus ← Text.difference? field.length width
          let bytes ← Text.difference? (Text.byteLength buffer) start
          Text.remove? start ((Text.charPosition? surplus field).getD bytes) buffer
        | .head =>
          let stop := (Text.charPosition? width field).map fun position => start + position
          Text.truncate? (stop.getD (Text.byteLength buffer)) buffer
      return (shortened, width)

/-- The buffer with spaces at one end of a field of so many characters that is too short. -/
def fillInPlace? (s : Specifier) (start : Nat) (buffer : List Char) (length : Nat) :
    Option (List Char) :=
  match s.minWidth with
  | none => some buffer
  | some width =>
    if width ≤ length then some buffer
    else do
      let missing ← Text.difference? width length
      let spaces := List.replicate missing ' '
      match s.justification with
      | .left => return buffer ++ spaces
      | .right => Text.insert? start spaces buffer

/-- The buffer with its end, from a position on, fitted into the field. There is no result for a
position inside a character or behind the end. -/
def fitInPlace? (s : Specifier) (start : Nat) (buffer : List Char) : Option (List Char) :=
  if s.isNeutral then some buffer
  else do
    let (_, field) ← Text.splitAt? start buffer
    let (buffer, length) ← s.cutInPlace? start buffer field
    s.fillInPlace? start buffer length

/-- Fits the end of a text, from a position on, into the field. Nothing happens at a position
inside a character or behind the end. -/
def apply (s : Specifier) (start : Nat) (buffer : String) : String :=
  ((s.fitInPlace? start buffer.toList).map String.ofList).getD buffer

/-- A neutral specifier leaves every text as it is. -/
theorem fit_of_isNeutral {s : Specifier} (h : s.isNeutral = true) (text : List Char) :
    s.fit text = text := by
  obtain ⟨minWidth, justification, limit⟩ := s
  simp only [isNeutral, Bool.and_eq_true, Option.isNone_iff_eq_none] at h
  obtain ⟨rfl, rfl⟩ := h
  cases justification <;> simp [fit, cut, fill]

theorem cutInPlace?_append (s : Specifier) (before field : List Char) :
    s.cutInPlace? (Text.byteLength before) (before ++ field) field =
      some (before ++ s.cut field, (s.cut field).length) := by
  obtain ⟨minWidth, justification, limit⟩ := s
  cases limit with
  | none => rfl
  | some limit =>
    obtain ⟨width, keep⟩ := limit
    unfold cutInPlace? cut
    by_cases hle : field.length ≤ width
    · -- the field is short enough for both sides
      cases keep with
      | head => simp only [if_pos hle, List.take_of_length_le hle]
      | tail => simp only [if_pos hle, Nat.sub_eq_zero_of_le hle, List.drop_zero]
    · cases keep with
      | head =>
        have hstop : ((Text.charPosition? width field).map fun position =>
            Text.byteLength before + position).getD (Text.byteLength (before ++ field)) =
            Text.byteLength (before ++ field.take width) := by
          rw [Text.byteLength_append, Text.byteLength_append, ← Text.getD_charPosition? width field,
            Option.getD_map (fun position => Text.byteLength before + position)]
        have hkept := Text.truncate?_append (before ++ field.take width) (field.drop width)
        rw [List.append_assoc, List.take_append_drop] at hkept
        simp only [if_neg hle, hstop, hkept, List.length_take]
        rw [Nat.min_eq_left (by omega)]
        rfl
      | tail =>
        have hbytes : Text.difference? (Text.byteLength (before ++ field))
            (Text.byteLength before) = some (Text.byteLength field) := by
          rw [Text.byteLength_append, Text.difference?_of_le (Nat.le_add_right _ _),
            Nat.add_sub_cancel_left]
        have hsurplus : (Text.charPosition? (field.length - width) field).getD
            (Text.byteLength field) = Text.byteLength (field.take (field.length - width)) :=
          Text.getD_charPosition? _ field
        have hkept := Text.remove?_append before (field.take (field.length - width))
          (field.drop (field.length - width))
        rw [List.take_append_drop] at hkept
        simp only [if_neg hle, Text.difference?_of_le (Nat.le_of_not_le hle), hbytes,
          Option.bind_eq_bind, Option.bind_some, hsurplus, hkept, List.length_drop]
        rw [Nat.sub_sub_self (by omega)]
        rfl

theorem fillInPlace?_append (s : Specifier) (before field : List Char) :
    s.fillInPlace? (Text.byteLength before) (before ++ field) field.length =
      some (before ++ s.fill field) := by
  obtain ⟨minWidth, justification, limit⟩ := s
  unfold fillInPlace? fill
  cases minWidth with
  | none => cases justification <;> simp
  | some width =>
    by_cases hle : width ≤ field.length
    · cases justification <;> simp [hle]
    · have hmissing := Text.difference?_of_le (Nat.le_of_not_le hle)
      cases justification with
      | left =>
        simp only [if_neg hle, hmissing, Option.getD_some, List.append_assoc]
        rfl
      | right =>
        simp only [if_neg hle, hmissing, Option.bind_eq_bind, Option.bind_some, Option.getD_some,
          Text.insert?_append]

/-- What stands before the position stays, and what stands behind it is fitted. -/
theorem fitInPlace?_append (s : Specifier) (before field : List Char) :
    s.fitInPlace? (Text.byteLength before) (before ++ field) = some (before ++ s.fit field) := by
  unfold fitInPlace?
  by_cases hneutral : s.isNeutral = true
  · rw [if_pos hneutral, fit_of_isNeutral hneutral]
  · rw [if_neg hneutral, Text.splitAt?_append]
    show (s.cutInPlace? (Text.byteLength before) (before ++ field) field >>= _) = _
    rw [cutInPlace?_append]
    exact fillInPlace?_append s before (s.cut field)

theorem apply_append (s : Specifier) (before text : String) :
    s.apply before.utf8ByteSize (before ++ text) =
      before ++ String.ofList (s.fit text.toList) := by
  unfold apply
  rw [String.toList_append, ← Text.byteLength_toList, fitInPlace?_append]
  simp [String.ofList_append]

/-- A fitted text is as long as the text, but not beyond the greatest width nor short of the
least. -/
theorem length_fit (s : Specifier) (text : List Char) :
    (s.fit text).length =
      max (s.minWidth.getD 0) (min (s.maxWidth.getD text.length) text.length) := by
  obtain ⟨minWidth, justification, limit⟩ := s
  cases limit with
  | none => cases justification <;> simp [fit, fill, cut, maxWidth] <;> omega
  | some limit =>
    obtain ⟨width, keep⟩ := limit
    cases justification <;> cases keep <;> simp [fit, fill, cut, maxWidth] <;> omega

end Specifier

end LogLayout.Fitting
