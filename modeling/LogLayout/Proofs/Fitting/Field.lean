import LogLayout.Fitting.Specifier

/-!
# What a field holds

A field is fitted in two steps. `Cuts` and `Fills` say what each step leaves, apart from how it is
computed: a text that is too long keeps the characters at one end, and a text that is too short gets
spaces at one end.

Results:
1. `cuts_cut`, `fills_fill`: the two steps of `fit` leave that.
2. `apply_cuts_then_fills`: so does the fitting in place, at every position between two characters
   of a text, and nothing before the position changes.
-/

namespace LogLayout.Fitting.Specifier

/-- What is left of a text: all of it, or of one that is too long as many characters as the greatest
width allows, at the end that is kept. -/
structure Cuts (s : Specifier) (text kept : List Char) : Prop where
  whole : (∀ width ∈ s.maxWidth, text.length ≤ width) → kept = text
  long : ∀ width ∈ s.maxWidth, width < text.length →
    kept.length = width ∧ if s.cutsStart then kept <:+ text else kept <+: text

/-- What a text becomes in its field: itself, or with spaces up to the least width if it is too
short, behind it or before it. -/
structure Fills (s : Specifier) (kept field : List Char) : Prop where
  enough : (∀ width ∈ s.minWidth, width ≤ kept.length) → field = kept
  short : ∀ width ∈ s.minWidth, kept.length < width →
    field = match s.justification with
      | .left => kept ++ List.replicate (width - kept.length) ' '
      | .right => List.replicate (width - kept.length) ' ' ++ kept

variable (s : Specifier) (text : List Char)

theorem cuts_cut : s.Cuts text (s.cut text) := by
  obtain ⟨minWidth, justification, limit⟩ := s
  cases limit with
  | none => exact ⟨fun _ => rfl, fun width hwidth => absurd hwidth (by simp [maxWidth])⟩
  | some limit =>
    obtain ⟨width, keep⟩ := limit
    refine ⟨fun hfits => ?_, fun least hleast hlong => ?_⟩
    · have hle : text.length ≤ width := hfits width rfl
      cases keep with
      | head => exact List.take_of_length_le hle
      | tail =>
        show text.drop (text.length - width) = text
        rw [Nat.sub_eq_zero_of_le hle, List.drop_zero]
    · obtain rfl : width = least := Option.some.inj hleast
      cases keep with
      | head => exact ⟨List.length_take_of_le (Nat.le_of_lt hlong), List.take_prefix _ text⟩
      | tail =>
        refine ⟨?_, List.drop_suffix _ text⟩
        show (text.drop (text.length - width)).length = width
        rw [List.length_drop, Nat.sub_sub_self (Nat.le_of_lt hlong)]

theorem fills_fill : s.Fills text (s.fill text) := by
  obtain ⟨minWidth, justification, limit⟩ := s
  unfold fill
  cases minWidth with
  | none =>
    refine ⟨fun _ => ?_, fun width hwidth => nomatch hwidth⟩
    cases justification <;> simp
  | some width =>
    refine ⟨fun hfits => ?_, fun least hleast _ => ?_⟩
    · have hle : width ≤ text.length := hfits width rfl
      cases justification <;> simp [Nat.sub_eq_zero_of_le hle]
    · obtain rfl : width = least := Option.some.inj hleast
      cases justification <;> rfl

/-- A text that meets both bounds is its own field. -/
theorem fit_of_meets {s : Specifier} {text : List Char}
    (hmax : ∀ width ∈ s.maxWidth, text.length ≤ width)
    (hmin : ∀ width ∈ s.minWidth, width ≤ text.length) : s.fit text = text := by
  have hcut := (s.cuts_cut text).whole hmax
  unfold fit
  rw [hcut]
  exact (s.fills_fill text).enough hmin

/-- Fitting in place truncates, then pads. At a position between two characters of a text, what
stands before it stays, and what stands behind it is cut, then filled, with characters counted and
not bytes. All of the edits have a result: no difference is below zero, and each is made between two
characters. -/
theorem apply_cuts_then_fills {start : Nat} {buffer : String}
    (h : String.Pos.Raw.IsValid buffer ⟨start⟩) :
    ∃ before text kept field : List Char,
      buffer.toList = before ++ text ∧ Text.byteLength before = start ∧
      s.Cuts text kept ∧ s.Fills kept field ∧
      s.fitInPlace? start buffer.toList = some (before ++ field) ∧
      s.apply start buffer = String.ofList (before ++ field) ∧
      field.length =
        max (s.minWidth.getD 0) (min (s.maxWidth.getD text.length) text.length) ∧
      ((∀ width ∈ s.maxWidth, text.length ≤ width) →
        (∀ width ∈ s.minWidth, width ≤ text.length) → s.apply start buffer = buffer) := by
  obtain ⟨before, text, rfl, hstart⟩ := String.Pos.Raw.isValid_iff_exists_append.mp h
  obtain rfl : start = before.utf8ByteSize := congrArg String.Pos.Raw.byteIdx hstart
  have hinPlace := s.fitInPlace?_append before.toList text.toList
  rw [Text.byteLength_toList] at hinPlace
  have happly := s.apply_append before text
  refine ⟨before.toList, text.toList, s.cut text.toList, s.fit text.toList, ?_, ?_,
    s.cuts_cut text.toList, s.fills_fill (s.cut text.toList), ?_, ?_, s.length_fit text.toList,
    fun hmax hmin => ?_⟩
  · exact String.toList_append
  · exact Text.byteLength_toList before
  · rw [String.toList_append, hinPlace]
  · rw [happly, String.ofList_append, String.ofList_toList]
  · rw [happly, fit_of_meets hmax hmin, String.ofList_toList]

/-- A field behind an accented letter that is cut within accented letters, then filled. -/
theorem accented_apply_cuts_then_fills :
    String.Pos.Raw.IsValid "éñandú" ⟨2⟩ ∧
      ∃ before text kept field : List Char,
        "éñandú".toList = before ++ text ∧ Text.byteLength before = 2 ∧
        Cuts ⟨some 4, .left, some ⟨2, .head⟩⟩ text kept ∧
        Fills ⟨some 4, .left, some ⟨2, .head⟩⟩ kept field ∧
        apply ⟨some 4, .left, some ⟨2, .head⟩⟩ 2 "éñandú" = String.ofList (before ++ field) ∧
        String.ofList (before ++ field) = "éña  " := by
  have hvalid : String.Pos.Raw.IsValid "éñandú" ⟨2⟩ :=
    String.Pos.Raw.isValid_iff_exists_append.mpr ⟨"é", "ñandú", by decide, by decide⟩
  obtain ⟨before, text, kept, field, hbuffer, hstart, hcuts, hfills, _, happly, _⟩ :=
    apply_cuts_then_fills ⟨some 4, .left, some ⟨2, .head⟩⟩ hvalid
  refine ⟨hvalid, before, text, kept, field, hbuffer, hstart, hcuts, hfills, happly, ?_⟩
  rw [← happly]
  decide

end LogLayout.Fitting.Specifier
