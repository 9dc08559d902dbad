import LogLayout.Proofs.Text.Bytes
import LogLayout.Text.Segments

/-!
# Names cut into segments

A name has one cut into segments: no segment holds a separator, and none behind `::` begins with a
colon, which is what pairing the colons from the right comes to. The search in the bytes of a name
finds the separators of that cut, and what is kept of a name is cut as it was in the name.

Results:
1. `isCut_ofReversed`, `text_ofReversed`, `IsCut.ofReversed_text`: a name has a cut, and only one.
2. `segmentStart?_bytes`: where the search stops.
3. `lastSegments_keeps_last`: what is kept of a name, and what is kept of that.
-/

namespace LogLayout.Text

inductive Separator where
  | point
  | colons
  deriving DecidableEq, Repr

def Separator.text : Separator → List Char
  | .point => ['.']
  | .colons => [':', ':']

/-- A name in segments: one, or more with a separator before the last. -/
inductive Segmented where
  | single (segment : List Char)
  | snoc (front : Segmented) (separator : Separator) (segment : List Char)
  deriving DecidableEq, Repr

namespace Segmented

def text : Segmented → List Char
  | single segment => segment
  | snoc front separator segment => front.text ++ separator.text ++ segment

/-- The number of segments. -/
def size : Segmented → Nat
  | single _ => 1
  | snoc front _ _ => front.size + 1

/-- The last segment and so many more before it, with the separators between them; all segments when
there are no more. -/
def keep : Segmented → Nat → Segmented
  | single segment, _ => single segment
  | snoc _ _ segment, 0 => single segment
  | snoc front separator segment, more + 1 => snoc (front.keep more) separator segment

/-- The text that stands before the segments that are kept. -/
def before : Segmented → Nat → List Char
  | single _, _ => []
  | snoc front separator _, 0 => front.text ++ separator.text
  | snoc front _ _, more + 1 => front.before more

/-- The last `count` segments. -/
def last (count : SegmentCount) (s : Segmented) : Segmented :=
  s.keep (count.val - 1)

/-- The name with characters behind its last segment. -/
def extend : Segmented → List Char → Segmented
  | single segment, behind => single (segment ++ behind)
  | snoc front separator segment, behind => snoc front separator (segment ++ behind)

/-- No separator stands in the text. -/
def IsOrdinary (segment : List Char) : Prop :=
  '.' ∉ segment ∧ ¬[':', ':'] <:+: segment

/-- The segments are what a name is cut into: they hold no separator, and as the colons are paired
from the right, none is left over behind a pair. -/
inductive IsCut : Segmented → Prop where
  | single {segment : List Char} : IsOrdinary segment → IsCut (single segment)
  | snoc {front : Segmented} {separator : Separator} {segment : List Char} :
    front.IsCut → IsOrdinary segment → (separator = .colons → segment.head? ≠ some ':') →
    IsCut (snoc front separator segment)

/-- The segments of a name that is given from its end. -/
def ofReversed : List Char → Segmented
  | [] => single []
  | '.' :: rest => snoc (ofReversed rest) .point []
  | ':' :: ':' :: rest => snoc (ofReversed rest) .colons []
  | c :: rest => (ofReversed rest).extend [c]

/-- The segments of a name. -/
def ofName (name : List Char) : Segmented :=
  ofReversed name.reverse

/-! ## Segments that are kept -/

theorem before_append_text_keep (s : Segmented) (more : Nat) :
    s.before more ++ (s.keep more).text = s.text := by
  induction s generalizing more with
  | single segment => rfl
  | snoc front separator segment ih =>
    cases more with
    | zero => rfl
    | succ more =>
      simp only [before, keep, text, ← List.append_assoc, ih]

theorem size_keep (s : Segmented) (more : Nat) : (s.keep more).size = min (more + 1) s.size := by
  induction s generalizing more with
  | single segment => simp [keep, size]
  | snoc front separator segment ih =>
    cases more with
    | zero => simp [keep, size]
    | succ more => simp [keep, size, ih, Nat.add_min_add_right]

theorem keep_of_size_le {more : Nat} {s : Segmented} (h : s.size ≤ more + 1) : s.keep more = s := by
  induction s generalizing more with
  | single segment => rfl
  | snoc front separator segment ih =>
    cases more with
    | zero =>
      cases front <;> simp [size] at h
    | succ more => rw [keep, ih (Nat.le_of_succ_le_succ h)]

theorem keep_keep (s : Segmented) (more fewer : Nat) :
    (s.keep more).keep fewer = s.keep (min more fewer) := by
  induction s generalizing more fewer with
  | single segment => rfl
  | snoc front separator segment ih =>
    cases more with
    | zero => simp [keep]
    | succ more =>
      cases fewer with
      | zero => simp [keep]
      | succ fewer => simp only [keep, ih, Nat.add_min_add_right]

theorem IsCut.keep {s : Segmented} (h : s.IsCut) (more : Nat) : (s.keep more).IsCut := by
  induction h generalizing more with
  | single hsegment => exact .single hsegment
  | snoc _ hsegment hhead ih =>
    cases more with
    | zero => exact .single hsegment
    | succ more => exact .snoc (ih more) hsegment hhead

/-! ## The cut of a name -/

theorem text_extend (s : Segmented) (behind : List Char) :
    (s.extend behind).text = s.text ++ behind := by
  cases s <;> simp only [extend, text, List.append_assoc]

theorem extend_nil (s : Segmented) : s.extend [] = s := by
  cases s <;> simp only [extend, List.append_nil]

theorem extend_extend (s : Segmented) (behind more : List Char) :
    (s.extend behind).extend more = s.extend (behind ++ more) := by
  cases s <;> simp only [extend, List.append_assoc]

theorem before_extend (s : Segmented) (behind : List Char) (more : Nat) :
    (s.extend behind).before more = s.before more := by
  cases s <;> cases more <;> rfl

theorem isOrdinary_nil : IsOrdinary [] :=
  ⟨List.not_mem_nil, fun hinfix => List.cons_ne_nil _ _ (List.infix_nil.mp hinfix)⟩

theorem isOrdinary_concat_iff {segment : List Char} {c : Char} :
    IsOrdinary (segment ++ [c]) ↔
      IsOrdinary segment ∧ c ≠ '.' ∧ (c = ':' → segment.getLast? ≠ some ':') := by
  have hpair : [':', ':'] <:+ segment ++ [c] ↔ c = ':' ∧ segment.getLast? = some ':' := by
    constructor
    · rintro ⟨before, hbefore⟩
      rw [List.append_cons, List.append_singleton_inj] at hbefore
      obtain ⟨rfl, rfl⟩ := hbefore
      exact ⟨rfl, List.getLast?_concat⟩
    · rintro ⟨rfl, hlast⟩
      obtain ⟨before, rfl⟩ := List.getLast?_eq_some_iff.mp hlast
      exact ⟨before, List.append_cons _ _ _⟩
  unfold IsOrdinary
  rw [List.infix_concat_iff, hpair, List.mem_append, List.mem_singleton, not_or, not_or, not_and,
    eq_comm (a := '.')]
  exact ⟨fun ⟨⟨hmem, hpoint⟩, hlast, hinfix⟩ => ⟨⟨hmem, hinfix⟩, hpoint, hlast⟩,
    fun ⟨⟨hmem, hinfix⟩, hpoint, hlast⟩ => ⟨⟨hmem, hpoint⟩, hlast, hinfix⟩⟩

theorem text_ofReversed (reversed : List Char) :
    (ofReversed reversed).text = reversed.reverse := by
  fun_induction ofReversed reversed with
  | case1 => rfl
  | case2 rest ih => simp only [text, ih, Separator.text, List.append_nil, List.reverse_cons]
  | case3 rest ih =>
    simp only [text, ih, Separator.text, List.append_nil, List.reverse_cons, List.append_assoc,
      List.singleton_append]
  | case4 c rest _ _ ih => rw [text_extend, ih, List.reverse_cons]

theorem ofName_text (name : List Char) : (ofName name).text = name := by
  unfold ofName
  rw [text_ofReversed, List.reverse_reverse]

example : ofName ['a', ':', ':', ':', 'b', '.', 'c'] =
    snoc (snoc (single ['a', ':']) .colons ['b']) .point ['c'] := by
  decide

/-- A cut is kept by a character that does not complete a separator. -/
theorem IsCut.concat {s : Segmented} {c : Char} (h : s.IsCut) (hpoint : c ≠ '.')
    (hpair : c = ':' → s.text.getLast? ≠ some ':') : (s.extend [c]).IsCut := by
  cases h with
  | single hsegment => exact .single (isOrdinary_concat_iff.mpr ⟨hsegment, hpoint, hpair⟩)
  | @snoc front separator segment hfront hsegment hhead =>
    have hlast (hc : c = ':') : segment.getLast? ≠ some ':' := by
      intro hsome
      refine hpair hc ?_
      rw [text, List.getLast?_append, hsome, Option.some_or]
    refine .snoc hfront (isOrdinary_concat_iff.mpr ⟨hsegment, hpoint, hlast⟩) fun hcolons => ?_
    cases segment with
    | nil =>
      -- the character stands right behind the separator
      intro hc
      refine hpair (Option.some.inj hc) ?_
      rw [text, List.append_nil, hcolons, List.getLast?_append]
      rfl
    | cons d segment => exact hhead hcolons

/-- A colon that is read alone does not stand behind another one. -/
theorem getLast?_ne_of_not_pair {c : Char} {rest : List Char}
    (h : ∀ before, c = ':' → rest = ':' :: before → False) (hc : c = ':') :
    rest.reverse.getLast? ≠ some ':' := by
  rw [List.getLast?_reverse]
  intro hhead
  obtain ⟨before, hbefore⟩ := List.head?_eq_some_iff.mp hhead
  exact h before hc hbefore

theorem isCut_ofReversed (reversed : List Char) : (ofReversed reversed).IsCut := by
  fun_induction ofReversed reversed with
  | case1 => exact .single isOrdinary_nil
  | case2 rest ih => exact .snoc ih isOrdinary_nil fun _ => Option.some_ne_none _ ∘ Eq.symm
  | case3 rest ih => exact .snoc ih isOrdinary_nil fun _ => Option.some_ne_none _ ∘ Eq.symm
  | case4 c rest hpoint hpair ih =>
    refine ih.concat hpoint ?_
    rw [text_ofReversed]
    exact getLast?_ne_of_not_pair hpair

theorem ofReversed_cons {c : Char} {rest : List Char} (hpoint : c ≠ '.')
    (hpair : c = ':' → rest.head? ≠ some ':') :
    ofReversed (c :: rest) = (ofReversed rest).extend [c] := by
  rw [ofReversed]
  · exact hpoint
  · rintro rest rfl rfl
    exact hpair rfl rfl

/-- Reading an ordinary segment from its end puts it behind what is read next. -/
theorem ofReversed_append {reversed rest : List Char} (h : IsOrdinary reversed.reverse)
    (hrest : rest.head? = some ':' → reversed.reverse.head? ≠ some ':') :
    ofReversed (reversed ++ rest) = (ofReversed rest).extend reversed.reverse := by
  induction reversed with
  | nil => rw [List.nil_append, List.reverse_nil, extend_nil]
  | cons c reversed ih =>
    rw [List.reverse_cons] at h hrest
    obtain ⟨hordinary, hpoint, hpair⟩ := isOrdinary_concat_iff.mp h
    have hrest' : rest.head? = some ':' → reversed.reverse.head? ≠ some ':' := by
      intro hcolon hhead
      refine hrest hcolon ?_
      rw [List.head?_append, hhead, Option.some_or]
    have hpair' : c = ':' → (reversed ++ rest).head? ≠ some ':' := by
      rintro rfl
      cases reversed with
      | nil => exact fun hcolon => hrest hcolon rfl
      | cons d reversed =>
        rw [List.getLast?_reverse] at hpair
        exact hpair rfl
    rw [List.cons_append, ofReversed_cons hpoint hpair', ih hordinary hrest', extend_extend,
      List.reverse_cons]

/-- A cut is found again in its text. -/
theorem IsCut.ofReversed_text {s : Segmented} (h : s.IsCut) : ofReversed s.text.reverse = s := by
  induction h with
  | @single segment hsegment =>
    have hordinary : IsOrdinary segment.reverse.reverse := by rwa [List.reverse_reverse]
    have hread : ofReversed (segment.reverse ++ []) = (ofReversed []).extend _ :=
      ofReversed_append hordinary nofun
    rwa [List.append_nil, List.reverse_reverse] at hread
  | @snoc front separator segment _ hsegment hhead ih =>
    have hseparator : ofReversed (separator.text.reverse ++ front.text.reverse) =
        Segmented.snoc front separator [] := by
      cases separator <;> simp [Separator.text, ofReversed, ih]
    have hrest : (separator.text.reverse ++ front.text.reverse).head? = some ':' →
        segment.reverse.reverse.head? ≠ some ':' := by
      rw [List.reverse_reverse]
      cases separator with
      | point => exact nofun
      | colons => exact fun _ => hhead rfl
    rw [text, List.reverse_append, List.reverse_append,
      ofReversed_append (by rwa [List.reverse_reverse]) hrest, hseparator, extend,
      List.reverse_reverse, List.nil_append]

end Segmented

/-! ## Separators in the bytes -/

theorem endsSeparator?_point (before behind : List Char) :
    endsSeparator? (bytes (before ++ '.' :: behind)) (byteLength before) = some true := by
  unfold endsSeparator?
  rw [getElem?_bytes_ascii before behind (c := '.') (by decide)]
  rfl

theorem endsSeparator?_succ {data : Array UInt8} {index : Nat} {before : UInt8}
    (hcolon : data[index + 1]? = some colon) (hbefore : data[index]? = some before) :
    endsSeparator? data (index + 1) = some (before == colon) := by
  unfold endsSeparator?
  rw [hcolon]
  show (data[index]? >>= fun before => some (before == colon)) = _
  rw [hbefore]
  rfl

/-- A colon ends a separator behind another colon only. -/
theorem endsSeparator?_colon (before behind : List Char) :
    endsSeparator? (bytes (before ++ ':' :: behind)) (byteLength before) =
      some (before.getLast? == some ':') := by
  have hbyte := getElem?_bytes_ascii before behind (c := ':') (by decide)
  obtain rfl | ⟨front, d, hbefore⟩ := before.eq_nil_or_concat
  · unfold endsSeparator?
    rw [hbyte]
    rfl
  · -- the byte before the colon is the last one of the character before it
    rw [List.concat_eq_append] at hbefore
    subst hbefore
    obtain ⟨byte, hmem, hlast⟩ := getElem?_bytes front (':' :: behind) d
      (Nat.sub_lt d.utf8Size_pos Nat.one_pos)
    have hindex : byteLength (front ++ [d]) = byteLength front + (d.utf8Size - 1) + 1 := by
      have hpos := d.utf8Size_pos
      rw [byteLength_append, byteLength_cons, byteLength_nil]
      omega
    have hcolon : (byte == colon) = (d == ':') := by
      rw [Bool.eq_iff_iff, beq_iff_eq, beq_iff_eq]
      constructor
      · rintro rfl
        exact (mem_utf8EncodeChar_iff (c := ':') (by decide)).mp hmem
      · rintro rfl
        exact List.mem_singleton.mp hmem
    rw [List.append_cons] at hlast
    rw [hindex] at hbyte ⊢
    rw [endsSeparator?_succ hbyte hlast, hcolon, List.getLast?_concat]
    rfl

/-- No byte of another character ends a separator. -/
theorem endsSeparator?_other {c : Char} (hpoint : c ≠ '.') (hcolon : c ≠ ':')
    (before behind : List Char) {index : Nat} (h : index < c.utf8Size) :
    endsSeparator? (bytes (before ++ c :: behind)) (byteLength before + index) = some false := by
  obtain ⟨byte, hmem, hbyte⟩ := getElem?_bytes before behind c h
  have hnpoint : byte ≠ point := by
    rintro rfl
    exact hpoint ((mem_utf8EncodeChar_iff (c := '.') (by decide)).mp hmem)
  have hncolon : byte ≠ colon := by
    rintro rfl
    exact hcolon ((mem_utf8EncodeChar_iff (c := ':') (by decide)).mp hmem)
  unfold endsSeparator?
  rw [hbyte]
  simp only [Option.bind_eq_bind, Option.bind_some, hnpoint, hncolon, if_false]
  rfl

/-! ## The search -/

theorem segmentStart?_of_not {data : Array UInt8} {count seen index : Nat}
    (h : endsSeparator? data index = some false) :
    segmentStart? data count seen (index + 1) = segmentStart? data count seen index := by
  rw [segmentStart?.eq_def]
  simp only [h]

theorem segmentStart?_skip {data : Array UInt8} {count seen index width : Nat}
    (h : ∀ inner < width, endsSeparator? data (index + inner) = some false) :
    segmentStart? data count seen (index + width) = segmentStart? data count seen index := by
  induction width with
  | zero => rfl
  | succ width ih =>
    rw [← Nat.add_assoc, segmentStart?_of_not (h width (Nat.lt_succ_self width))]
    exact ih fun inner hinner => h inner (Nat.lt_succ_of_lt hinner)

/-- The search passes a character that does not complete a separator. -/
theorem segmentStart?_other {c : Char} {before : List Char} (hpoint : c ≠ '.')
    (hpair : c = ':' → before.getLast? ≠ some ':') (behind : List Char) (count seen : Nat) :
    segmentStart? (bytes (before ++ c :: behind)) count seen (byteLength (before ++ [c])) =
      segmentStart? (bytes (before ++ c :: behind)) count seen (byteLength before) := by
  rw [byteLength_append]
  refine segmentStart?_skip fun inner hinner => ?_
  by_cases hcolon : c = ':'
  · subst hcolon
    obtain rfl : inner = 0 := Nat.lt_one_iff.mp hinner
    rw [Nat.add_zero, endsSeparator?_colon, beq_eq_false_iff_ne.mpr (hpair rfl)]
  · exact endsSeparator?_other hpoint hcolon _ _ hinner

/-- The search stops behind a separator that makes up the count, and otherwise passes it whole. -/
theorem segmentStart?_separator (separator : Separator) (before behind : List Char)
    (count seen : Nat) :
    segmentStart? (bytes (before ++ (separator.text ++ behind))) count seen
        (byteLength (before ++ separator.text)) =
      if seen + 1 = count then some (byteLength (before ++ separator.text))
      else segmentStart? (bytes (before ++ (separator.text ++ behind))) count (seen + 1)
        (byteLength before) := by
  cases separator with
  | point =>
    have hends := endsSeparator?_point before behind
    have hbyte : (bytes (before ++ '.' :: behind))[byteLength before]? = some point :=
      getElem?_bytes_ascii before behind (by decide)
    have hpoint : some point ≠ some colon := by decide
    rw [byteLength_append]
    show segmentStart? (bytes (before ++ '.' :: behind)) _ _ (byteLength before + 1) = _
    rw [segmentStart?.eq_def]
    simp only [hends, hbyte, if_neg hpoint]
    rfl
  | colons =>
    have hlength : byteLength (before ++ [':']) = byteLength before + 1 := byteLength_append _ _
    have hends := endsSeparator?_colon (before ++ [':']) behind
    have hbyte : (bytes (before ++ [':'] ++ ':' :: behind))[byteLength (before ++ [':'])]? =
        some colon := getElem?_bytes_ascii (before ++ [':']) behind (by decide)
    rw [List.getLast?_concat, ← List.append_cons, hlength] at hends
    rw [← List.append_cons, hlength] at hbyte
    rw [byteLength_append]
    show segmentStart? (bytes (before ++ ':' :: ':' :: behind)) _ _ (byteLength before + 1 + 1) = _
    rw [segmentStart?.eq_def]
    simp only [hends, hbyte, if_true]
    rfl

/-- The search finds what stands before the segments that are kept, whatever stands behind the name
and however many separators it has passed there. -/
theorem segmentStart?_bytes (reversed behind : List Char) {count seen more : Nat}
    (h : seen + more + 1 = count) :
    segmentStart? (bytes (reversed.reverse ++ behind)) count seen (byteLength reversed.reverse) =
      some (byteLength ((Segmented.ofReversed reversed).before more)) := by
  -- along the cut, with what the search has passed put behind the name
  fun_induction Segmented.ofReversed reversed generalizing behind seen more with
  | case1 => rfl
  | case2 rest ih =>
    rw [List.reverse_cons, List.append_assoc]
    refine (segmentStart?_separator .point rest.reverse behind count seen).trans ?_
    cases more with
    | zero => rw [if_pos h, Segmented.before, Segmented.text_ofReversed]
    | succ more =>
      have hrest : seen + 1 + more + 1 = count := by omega
      rw [if_neg (by omega), ih _ hrest, Segmented.before]
  | case3 rest ih =>
    have hreverse : (':' :: ':' :: rest).reverse = rest.reverse ++ [':', ':'] := by
      rw [List.reverse_cons, List.reverse_cons, List.append_assoc, List.singleton_append]
    rw [hreverse, List.append_assoc]
    refine (segmentStart?_separator .colons rest.reverse behind count seen).trans ?_
    cases more with
    | zero => rw [if_pos h, Segmented.before, Segmented.text_ofReversed]
    | succ more =>
      have hrest : seen + 1 + more + 1 = count := by omega
      rw [if_neg (by omega), ih _ hrest, Segmented.before]
  | case4 c rest hpoint hpair ih =>
    rw [List.reverse_cons, List.append_assoc, List.singleton_append,
      segmentStart?_other hpoint (Segmented.getLast?_ne_of_not_pair hpair), ih _ h,
      Segmented.before_extend]

/-! ## What is kept -/

theorem lastSegments?_eq (count : SegmentCount) (name : String) :
    lastSegments? count name =
      some (String.ofList ((Segmented.ofName name.toList).last count).text) := by
  have hcount : 0 + (count.val - 1) + 1 = count.val := by
    have hpos := count.pos
    omega
  have hstart := segmentStart?_bytes name.toList.reverse [] hcount
  rw [List.append_nil, List.reverse_reverse] at hstart
  have hsplit := splitAt?_append ((Segmented.ofName name.toList).before (count.val - 1))
    ((Segmented.ofName name.toList).last count).text
  rw [Segmented.last, Segmented.before_append_text_keep, Segmented.ofName_text] at hsplit
  unfold lastSegments?
  rw [data_toUTF8]
  show (segmentStart? _ _ _ (bytes name.toList).size >>= _) = _
  rw [size_bytes, hstart]
  show (splitAt? (byteLength ((Segmented.ofName name.toList).before _)) _ >>= _) = _
  rw [hsplit]
  rfl

theorem toList_lastSegments (count : SegmentCount) (name : String) :
    (lastSegments count name).toList = ((Segmented.ofName name.toList).last count).text := by
  rw [lastSegments, lastSegments?_eq, Option.getD_some, String.toList_ofList]

/-- What is kept of a name is cut as it was in the name. -/
theorem ofName_lastSegments (count : SegmentCount) (name : String) :
    Segmented.ofName (lastSegments count name).toList =
      (Segmented.ofName name.toList).last count := by
  rw [toList_lastSegments]
  exact ((Segmented.isCut_ofReversed _).keep _).ofReversed_text

def SegmentCount.min (a b : SegmentCount) : SegmentCount where
  val := Nat.min a.val b.val
  pos := Nat.lt_min.mpr ⟨a.pos, b.pos⟩

theorem lastSegments_lastSegments (fewer count : SegmentCount) (name : String) :
    lastSegments fewer (lastSegments count name) = lastSegments (count.min fewer) name := by
  have hmin : min (count.val - 1) (fewer.val - 1) = (count.min fewer).val - 1 := by
    have hval : (count.min fewer).val = min count.val fewer.val := rfl
    omega
  rw [← String.toList_inj, toList_lastSegments, ofName_lastSegments, toList_lastSegments,
    Segmented.last, Segmented.last, Segmented.last, Segmented.keep_keep, hmin]

/-- What is kept of a name are its last segments, for the one cut that the name has. -/
theorem lastSegments_keeps_last (name : String) :
    (Segmented.ofName name.toList).IsCut ∧ (Segmented.ofName name.toList).text = name.toList ∧
      (∀ s : Segmented, s.IsCut → s.text = name.toList → s = Segmented.ofName name.toList) ∧
      ∀ count : SegmentCount,
        lastSegments? count name = some (lastSegments count name) ∧
        (lastSegments count name).toList = ((Segmented.ofName name.toList).last count).text ∧
        ((Segmented.ofName name.toList).last count).size =
          min count.val (Segmented.ofName name.toList).size ∧
        (lastSegments count name).toList <:+ name.toList ∧
        ((Segmented.ofName name.toList).size ≤ count.val → lastSegments count name = name) ∧
        ∀ fewer : SegmentCount,
          lastSegments fewer (lastSegments count name) = lastSegments (count.min fewer) name := by
  refine ⟨Segmented.isCut_ofReversed _, Segmented.ofName_text _, ?_, fun count => ?_⟩
  · intro s hcut htext
    rw [← htext, Segmented.ofName, hcut.ofReversed_text]
  · have hcount : count.val - 1 + 1 = count.val := Nat.sub_add_cancel count.pos
    refine ⟨?_, toList_lastSegments count name, ?_, ?_, ?_, fun fewer =>
      lastSegments_lastSegments fewer count name⟩
    · rw [lastSegments, lastSegments?_eq, Option.getD_some]
    · rw [Segmented.last, Segmented.size_keep, hcount]
    · refine ⟨(Segmented.ofName name.toList).before (count.val - 1), ?_⟩
      rw [toList_lastSegments, Segmented.last, Segmented.before_append_text_keep,
        Segmented.ofName_text]
    · intro hsize
      rw [← String.toList_inj, toList_lastSegments, Segmented.last,
        Segmented.keep_of_size_le (by rwa [hcount]), Segmented.ofName_text]

end LogLayout.Text
