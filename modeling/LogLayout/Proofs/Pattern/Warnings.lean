import LogLayout.Proofs.Pattern.Assembly
import LogLayout.Proofs.Pattern.Flaws

/-!
# The warnings of a pattern

What a pattern is warned of is what is malformed in its pieces, in order and at the right places,
and nothing else. Which lists of warnings are such listings is said by the flaws of the pieces,
without the functions that make warnings.

Results:
1. `Piece.mem_warnings_iff`, `Piece.inOrder_warnings`: the warnings of a piece are its flaws, in
   order.
2. `Piece.warnings_eq_nil_iff`: which pieces have none.
3. `listing_warningsOf`, `Listing.unique`: the warnings of pieces are the one listing of their
   flaws.
4. At the end of the file: the warnings of a pattern that compiles.
-/

namespace LogLayout.Pattern

variable {α : Type} {table : TokenTable α} {ahead rest : List Char} {problem : Problem}
  {w : Warning} {offset : Nat}

/-! ## Warnings of a piece -/

theorem mem_namedWarnings_iff {m : Modifiers} {name : List Char} {options : OptionPart}
    (h : m.WellFormed) :
    w ∈ namedWarnings offset m name options ↔
      (∃ ahead, m.Flaw ahead w.problem ∧ w.offset = offset + Text.byteLength ('%' :: ahead)) ∨
        options = .unterminated ∧ w.problem = .unterminatedBlock ∧
          w.offset = offset + Text.byteLength ('%' :: (m.source ++ name)) := by
  have hposition : ∀ ahead, offset + Text.byteLength ('%' :: ahead) =
      offset + 1 + Text.byteLength ahead := fun ahead => (Nat.add_assoc offset 1 _).symm
  simp only [hposition]
  unfold namedWarnings
  rw [List.mem_append, Modifiers.mem_warnings_iff h]
  cases options with
  | absent | block => simp [OptionPart.warnings]
  | unterminated =>
    unfold OptionPart.warnings
    rw [Warning.mem_singleton_iff]
    simp only [true_and]

theorem inOrder_namedWarnings (offset : Nat) (m : Modifiers) (name : List Char)
    (options : OptionPart) : InOrder (namedWarnings offset m name options) := by
  refine List.pairwise_append.mpr ⟨m.inOrder_warnings _, ?_, fun v hv w hw => ?_⟩
  · cases options with
    | absent | block => exact .nil
    | unterminated => exact List.pairwise_singleton _ _
  · cases options with
    | absent | block => cases hw
    | unterminated =>
      rw [(Warning.mem_singleton_iff.mp hw).1]
      exact Nat.lt_succ_of_le (Modifiers.rank_le_of_mem_warnings hv)

theorem rank_le_of_mem_namedWarnings {m : Modifiers} {name : List Char} {options : OptionPart}
    (h : w ∈ namedWarnings offset m name options) : w.problem.rank ≤ 2 := by
  rcases List.mem_append.mp h with hw | hw
  · exact Nat.le_succ_of_le (Modifiers.rank_le_of_mem_warnings hw)
  · cases options with
    | absent | block => cases hw
    | unterminated =>
      rw [(Warning.mem_singleton_iff.mp hw).1]
      decide

theorem namedWarnings_eq_nil_iff {m : Modifiers} {name : List Char} {options : OptionPart}
    (h : m.WellFormed) :
    namedWarnings offset m name options = [] ↔ m.InRange ∧ options ≠ .unterminated := by
  unfold namedWarnings
  rw [List.append_eq_nil_iff, Modifiers.warnings_eq_nil_iff h]
  cases options <;> simp [OptionPart.warnings]

namespace Piece

variable {piece : Piece α}

/-- The flaws in front of the name of a piece and behind it. -/
theorem mem_namedWarnings_iff_flaw {m : Modifiers} {name : List Char} {options : OptionPart}
    (h : m.WellFormed) (hm : piece.modifiers? = some m) (hname : piece.name? = some name)
    (hsource : piece.source = '%' :: (m.source ++ name ++ options.source))
    (hoptions : options.Stands rest) :
    w ∈ namedWarnings offset m name options ↔
      w.problem.rank ≤ 2 ∧
        ∃ ahead, piece.Flaw rest ahead w.problem ∧ w.offset = offset + Text.byteLength ahead := by
  constructor
  · intro hw
    refine ⟨rank_le_of_mem_namedWarnings hw, ?_⟩
    rcases (mem_namedWarnings_iff h).mp hw with
      ⟨ahead, hflaw, hoffset⟩ | ⟨hopen, hproblem, hoffset⟩
    · exact ⟨_, .modifiers hm hflaw, hoffset⟩
    · obtain ⟨more, hmore, hcloses⟩ := hoptions.eq_unterminated_iff.mp hopen
      rw [hproblem]
      refine ⟨_, .block hm hname ?_ hcloses, hoffset⟩
      rw [hsource, List.cons_append, List.append_assoc, hmore]
  · rintro ⟨hrank, ahead, hflaw, hoffset⟩
    refine (mem_namedWarnings_iff h).mpr ?_
    obtain ⟨position, problem⟩ := w
    cases hflaw with
    | dangling => cases hm
    | nameless => cases hname
    | unknown => exact absurd hrank (Nat.not_succ_le_self 2)
    | modifiers hm' hflaw =>
      obtain rfl := Option.some.inj (hm.symm.trans hm')
      exact .inl ⟨_, hflaw, hoffset⟩
    | @block _ m' name' _ more hm' hname' hsource' hopen =>
      obtain rfl := Option.some.inj (hm.symm.trans hm')
      obtain rfl := Option.some.inj (hname.symm.trans hname')
      rw [hsource, List.cons_append, List.append_assoc] at hsource'
      have hmore := List.append_cancel_left (List.cons.inj hsource').2
      exact .inr ⟨hoptions.eq_unterminated_iff.mpr ⟨more, hmore, hopen⟩, rfl, hoffset⟩

theorem mem_warnings_iff (h : piece.Stands table rest) :
    w ∈ piece.warnings offset ↔
      ∃ ahead, piece.Flaw rest ahead w.problem ∧ w.offset = offset + Text.byteLength ahead := by
  obtain ⟨position, problem⟩ := w
  cases h with
  | plain | percent =>
    constructor
    · intro hw
      cases hw
    · rintro ⟨ahead, hflaw, _⟩
      cases hflaw with
      | modifiers hm _ => cases hm
      | block hm _ _ _ => cases hm
  | dangling =>
    unfold warnings
    rw [Warning.mem_singleton_iff]
    constructor
    · rintro ⟨rfl, rfl⟩
      exact ⟨[], .dangling, rfl⟩
    · rintro ⟨ahead, hflaw, rfl⟩
      cases hflaw with
      | dangling => exact ⟨rfl, rfl⟩
      | modifiers hm _ => cases hm
      | block hm _ _ _ => cases hm
  | @nameless m rest _ _ hlongest _ =>
    unfold warnings
    rw [List.mem_append, Modifiers.mem_warnings_iff hlongest.wellFormed, Warning.mem_singleton_iff]
    constructor
    · rintro (⟨ahead, hflaw, rfl⟩ | ⟨rfl, rfl⟩)
      · exact ⟨_, .modifiers rfl hflaw, Nat.add_assoc _ _ _⟩
      · exact ⟨[], .nameless, rfl⟩
    · rintro ⟨ahead, hflaw, rfl⟩
      cases hflaw with
      | nameless => exact .inr ⟨rfl, rfl⟩
      | modifiers hm hflaw =>
        cases hm
        exact .inl ⟨_, hflaw, (Nat.add_assoc _ _ _).symm⟩
      | block _ hname _ _ => cases hname
  | @unknown m word rest options hlongest _ _ _ hoptions =>
    have hm : (Piece.unknown m word options : Piece α).modifiers? = some m := rfl
    unfold warnings
    rw [List.mem_append, mem_namedWarnings_iff_flaw hlongest.wellFormed hm rfl rfl hoptions,
      Warning.mem_singleton_iff]
    constructor
    · rintro (⟨_, hflaw⟩ | ⟨rfl, rfl⟩)
      · exact hflaw
      · exact ⟨[], .unknown, rfl⟩
    · rintro ⟨ahead, hflaw, rfl⟩
      cases hflaw with
      | unknown => exact .inr ⟨rfl, rfl⟩
      | modifiers hm hflaw =>
        exact .inl ⟨Nat.le_succ_of_le hflaw.rank_le, _, .modifiers hm hflaw, rfl⟩
      | block hm hname hsource hopen =>
        exact .inl ⟨Nat.le_refl 2, _, .block hm hname hsource hopen, rfl⟩
  | @directive d _ _ rest hlongest _ _ _ hoptions =>
    have hm : (Piece.directive d).modifiers? = some d.modifiers := rfl
    refine (mem_namedWarnings_iff_flaw hlongest.wellFormed hm rfl rfl hoptions).trans
      ⟨And.right, fun ⟨ahead, hflaw, hoffset⟩ => ⟨?_, ahead, hflaw, hoffset⟩⟩
    cases hflaw with
    | modifiers _ hflaw => exact Nat.le_succ_of_le hflaw.rank_le
    | block _ _ _ _ => exact Nat.le_refl 2

theorem inOrder_warnings (piece : Piece α) (offset : Nat) : InOrder (piece.warnings offset) := by
  cases piece with
  | plain | percent => exact .nil
  | dangling => exact List.pairwise_singleton _ _
  | nameless m =>
    refine List.pairwise_append.mpr ⟨m.inOrder_warnings _, List.pairwise_singleton _ _,
      fun v hv w hw => ?_⟩
    rw [(Warning.mem_singleton_iff.mp hw).1]
    exact Nat.lt_of_le_of_lt (Modifiers.rank_le_of_mem_warnings hv) (by decide)
  | unknown m word options =>
    refine List.pairwise_append.mpr ⟨inOrder_namedWarnings _ _ _ _, List.pairwise_singleton _ _,
      fun v hv w hw => ?_⟩
    rw [(Warning.mem_singleton_iff.mp hw).1]
    exact Nat.lt_succ_of_le (rank_le_of_mem_namedWarnings hv)
  | directive d => exact inOrder_namedWarnings _ _ _ _

theorem warnings_eq_nil_iff (h : piece.Stands table rest) :
    piece.warnings offset = [] ↔ piece.IsClean := by
  cases h with
  | plain | percent => exact ⟨fun _ => trivial, fun _ => rfl⟩
  | dangling => exact ⟨fun hempty => absurd hempty (List.cons_ne_nil _ _), False.elim⟩
  | nameless =>
    refine ⟨fun hempty => ?_, False.elim⟩
    exact absurd (List.append_eq_nil_iff.mp hempty).2 (List.cons_ne_nil _ _)
  | unknown =>
    refine ⟨fun hempty => ?_, False.elim⟩
    exact absurd (List.append_eq_nil_iff.mp hempty).2 (List.cons_ne_nil _ _)
  | directive hlongest => exact namedWarnings_eq_nil_iff hlongest.wellFormed

/-- What stands ahead of a flaw is a part of the text that begins with the piece. -/
theorem Flaw.ahead_begins (h : piece.Flaw rest ahead problem) :
    ahead <+: piece.source ++ rest := by
  cases h with
  | dangling | nameless | unknown => exact List.nil_prefix
  | @modifiers _ m ahead _ _ hm hflaw =>
    have hsource : '%' :: m.source <+: piece.source := by
      cases piece with
      | plain | percent | dangling => cases hm
      | nameless => cases hm; exact List.prefix_rfl
      | unknown m word options =>
        cases hm
        exact ⟨word ++ options.source, by simp only [source, List.cons_append, List.append_assoc]⟩
      | directive d =>
        cases hm
        exact ⟨d.token ++ d.options.source,
          by simp only [source, Directive.source, List.cons_append, List.append_assoc]⟩
    have hahead : '%' :: ahead <+: '%' :: m.source :=
      List.cons_prefix_cons.mpr ⟨rfl, hflaw.ahead_begins⟩
    exact (hahead.trans hsource).trans (List.prefix_append _ _)
  | @block _ m name _ more _ _ hsource _ =>
    rw [hsource]
    exact ⟨'{' :: more, by simp only [List.cons_append, List.append_assoc]⟩

end Piece

/-! ## Listings -/

/-- The warnings are those of a piece at the position, in front of the rest of a text: one for each
of its flaws, in order. -/
structure Piece.IsListing (piece : Piece α) (offset : Nat) (rest : List Char)
    (own : List Warning) : Prop where
  mem_iff : ∀ w, w ∈ own ↔
    ∃ ahead, piece.Flaw rest ahead w.problem ∧ w.offset = offset + Text.byteLength ahead
  inOrder : InOrder own

/-- The warnings list the flaws of pieces that begin at the position, piece by piece. -/
inductive Listing : Nat → List (Piece α) → List Warning → Prop where
  | nil {offset : Nat} : Listing offset [] []
  | cons {offset : Nat} {piece : Piece α} {pieces : List (Piece α)} {own others : List Warning} :
    piece.IsListing offset (pieces.flatMap Piece.source) own →
    Listing (offset + Text.byteLength piece.source) pieces others →
    Listing offset (piece :: pieces) (own ++ others)

theorem listing_warningsOf {cs : List Char} {pieces : List (Piece α)} (h : Cut table cs pieces)
    (offset : Nat) : Listing offset pieces (warningsOf offset pieces) := by
  induction h generalizing offset with
  | nil => exact .nil
  | @cons piece rest pieces hstands hcut ih =>
    -- what a piece stands before is the text of the pieces behind it
    rw [← hcut.source] at hstands
    exact .cons ⟨fun w => Piece.mem_warnings_iff hstands, piece.inOrder_warnings offset⟩ (ih _)

theorem Piece.IsListing.unique {piece : Piece α} {own others : List Warning}
    (h : piece.IsListing offset rest own) (hothers : piece.IsListing offset rest others) :
    own = others := by
  have hnodup : ∀ {ws : List Warning}, InOrder ws → ws.Nodup := fun hws =>
    hws.imp fun hlt heq => absurd (congrArg (fun w => w.problem.rank) heq) (Nat.ne_of_lt hlt)
  have hperm : own.Perm others :=
    (List.perm_ext_iff_of_nodup (hnodup h.inOrder) (hnodup hothers.inOrder)).mpr fun w =>
      (h.mem_iff w).trans (hothers.mem_iff w).symm
  refine hperm.eq_of_pairwise (fun v w _ _ hvw hwv => ?_) h.inOrder hothers.inOrder
  exact absurd hvw (Nat.lt_asymm hwv)

theorem Listing.unique {pieces : List (Piece α)} {warnings others : List Warning}
    (h : Listing offset pieces warnings) (hothers : Listing offset pieces others) :
    warnings = others := by
  induction h generalizing others with
  | nil =>
    cases hothers
    rfl
  | cons hown _ ih =>
    cases hothers with
    | cons hown' hrest => rw [hown.unique hown', ih hrest]

theorem warningsOf_eq_nil_iff {cs : List Char} {pieces : List (Piece α)}
    (h : Cut table cs pieces) :
    warningsOf offset pieces = [] ↔ ∀ piece ∈ pieces, piece.IsClean := by
  induction h generalizing offset with
  | nil => simp [warningsOf]
  | cons hstands _ ih =>
    unfold warningsOf
    rw [List.append_eq_nil_iff, Piece.warnings_eq_nil_iff hstands, ih, List.forall_mem_cons]

/-- Every warning of a listing stands behind some part of the text. -/
theorem Listing.exists_ahead {pieces : List (Piece α)} {warnings : List Warning}
    (h : Listing offset pieces warnings) (hw : w ∈ warnings) :
    ∃ ahead, ahead <+: pieces.flatMap Piece.source ∧
      w.offset = offset + Text.byteLength ahead := by
  induction h with
  | nil => cases hw
  | @cons offset piece pieces own others hown _ ih =>
    rw [List.flatMap_cons]
    rcases List.mem_append.mp hw with hw | hw
    · obtain ⟨ahead, hflaw, hoffset⟩ := (hown.mem_iff w).mp hw
      exact ⟨ahead, hflaw.ahead_begins, hoffset⟩
    · obtain ⟨ahead, hbegins, hoffset⟩ := ih hw
      refine ⟨piece.source ++ ahead, (List.prefix_append_right_inj _).mpr hbegins, ?_⟩
      rw [hoffset, Text.byteLength_append, Nat.add_assoc]

theorem isValid_of_begins {pattern : String} (h : ahead <+: pattern.toList) :
    String.Pos.Raw.IsValid pattern ⟨Text.byteLength ahead⟩ := by
  obtain ⟨rest, hrest⟩ := h
  refine String.Pos.Raw.isValid_iff_exists_append.mpr
    ⟨String.ofList ahead, String.ofList rest, ?_, ?_⟩
  · rw [← String.ofList_append, hrest, String.ofList_toList]
  · rw [← Text.utf8ByteSize_ofList]
    rfl

/-- Warnings are complete, exact and located. If a pattern compiles, its warnings are the one
listing of what is malformed in the pieces that it is cut into. So there are none iff each of these
is a character, an escape, or a directive with widths in range and no block left open. And every
warning stands between two characters of the pattern. -/
theorem warnings_list_flaws {table : TokenTable Factory} {pattern : String} {compiled : Compiled}
    (h : compile table pattern = .ok compiled) :
    ∃ pieces, Cut table pattern.toList pieces ∧
      Listing 0 pieces compiled.warnings ∧
      (∀ warnings, Listing 0 pieces warnings → warnings = compiled.warnings) ∧
      (compiled.warnings = [] ↔ ∀ piece ∈ pieces, piece.IsClean) ∧
      ∀ w ∈ compiled.warnings, String.Pos.Raw.IsValid pattern ⟨w.offset⟩ := by
  obtain ⟨pieces, hcut, _, hwarnings⟩ := compile_eq_ok_iff.mp h
  rw [hwarnings]
  have hlisting := listing_warningsOf hcut 0
  refine ⟨pieces, hcut, hlisting, fun warnings hothers => hothers.unique hlisting,
    warningsOf_eq_nil_iff hcut, fun w hw => ?_⟩
  obtain ⟨ahead, hbegins, hoffset⟩ := hlisting.exists_ahead hw
  rw [hcut.source] at hbegins
  rw [hoffset, Nat.zero_add]
  exact isValid_of_begins hbegins

/-- Every kind of piece that has flaws, behind characters of more than one byte. -/
theorem message_warnings_list_flaws :
    ∃ pieces,
      Cut (TokenTable.empty.bind ["m"] (Factory.constant .message)) "é%7.-mé%q\x7b%!%".toList
        pieces ∧
      Listing 0 pieces
        [⟨6, .missingMaximum⟩, ⟨11, .unterminatedBlock⟩, ⟨9, .unknownName ['q']⟩,
          ⟨12, .missingName⟩, ⟨14, .danglingPercent⟩] ∧
      (∃ piece ∈ pieces, ¬piece.IsClean) ∧
      String.Pos.Raw.IsValid "é%7.-mé%q\x7b%!%" ⟨9⟩ := by
  have hcompile : compile (TokenTable.empty.bind ["m"] (.constant .message)) "é%7.-mé%q\x7b%!%" =
      .ok ⟨[⟨.literal "é", {}⟩, ⟨.message, { minWidth := some 7 }⟩,
          ⟨.literal "é%q\x7b%!%", {}⟩],
        [⟨6, .missingMaximum⟩, ⟨11, .unterminatedBlock⟩, ⟨9, .unknownName ['q']⟩,
          ⟨12, .missingName⟩, ⟨14, .danglingPercent⟩]⟩ := by
    rw [compile_eq]
    cbv
  obtain ⟨pieces, hcut, hlisting, _, hclean, hvalid⟩ := warnings_list_flaws hcompile
  refine ⟨pieces, hcut, hlisting, ?_, hvalid ⟨9, .unknownName ['q']⟩ (by decide)⟩
  by_contra hall
  refine absurd (hclean.mpr fun piece hpiece => ?_) (List.cons_ne_nil _ _)
  by_contra hflawed
  exact hall ⟨piece, hpiece, hflawed⟩

end LogLayout.Pattern
