import LogLayout.Proofs.Pattern.Assembly

/-!
# Rejected options

A pattern fails to compile for one reason only: the factory of some directive rejects its options.
Malformed text becomes literal text, which every pattern may have. Of several such directives the
leftmost one is reported, at the position of its `%`.

Results:
1. `links_eq_error_iff`: linking the items of pieces fails at the first directive whose options are
   rejected, at the position behind the pieces before it.
2. `compile_eq_error_iff`: which error a pattern is refused with, without the scanner.
3. `exists_compile_eq_error_iff`, `exists_compile_eq_ok`: a pattern fails iff it has a directive
   whose options are rejected, so none fails where every factory accepts all options.
-/

namespace LogLayout.Pattern

variable {table : TokenTable Factory} {pattern : String} {e : CompileError}

/-- The factory of the directive rejects its options, for that cause. -/
def Directive.Rejected (d : Directive Factory) (cause : Report) : Prop :=
  d.value d.options.options = .error cause

/-- The factory of the directive makes a converter of its options. -/
def Directive.Accepted (d : Directive Factory) : Prop :=
  ∃ converter, d.value d.options.options = .ok converter

def AllAccepted (pieces : List (Piece Factory)) : Prop :=
  ∀ d, .directive d ∈ pieces → d.Accepted

/-- Among the pieces the directive is the first one whose options are rejected. -/
structure IsFirstRejected (pieces before : List (Piece Factory)) (d : Directive Factory)
    (cause : Report) : Prop where
  stands : ∃ after, pieces = before ++ .directive d :: after
  accepted : AllAccepted before
  rejected : d.Rejected cause

/-- The error of a directive that stands behind a text of so many bytes. -/
def Directive.error (d : Directive Factory) (offset : Nat) (cause : Report) : CompileError :=
  ⟨String.ofList d.token, offset, cause⟩

theorem Directive.accepted_or_rejected (d : Directive Factory) :
    d.Accepted ∨ ∃ cause, d.Rejected cause := by
  unfold Accepted Rejected
  cases d.value d.options.options with
  | ok converter => exact .inl ⟨converter, rfl⟩
  | error cause => exact .inr ⟨cause, rfl⟩

theorem Directive.Accepted.not_rejected {d : Directive Factory} {cause : Report}
    (h : d.Accepted) : ¬d.Rejected cause := by
  intro hrejected
  obtain ⟨converter, hvalue⟩ := h
  rw [hrejected] at hvalue
  cases hvalue

/-- The first rejected directive of pieces is the first piece, or that of the others behind an
accepted first piece. -/
theorem isFirstRejected_cons_iff {piece : Piece Factory} {pieces before : List (Piece Factory)}
    {d : Directive Factory} {cause : Report} :
    IsFirstRejected (piece :: pieces) before d cause ↔
      (before = [] ∧ piece = .directive d ∧ d.Rejected cause) ∨
      ∃ others, before = piece :: others ∧
        (∀ d, piece = .directive d → d.Accepted) ∧ IsFirstRejected pieces others d cause := by
  constructor
  · rintro ⟨⟨after, hstands⟩, haccepted, hrejected⟩
    cases before with
    | nil => exact .inl ⟨rfl, (List.cons.inj hstands).1, hrejected⟩
    | cons first others =>
      obtain ⟨rfl, hothers⟩ := List.cons.inj hstands
      refine .inr ⟨others, rfl, ?_, ⟨after, hothers⟩,
        fun d hd => haccepted d (List.mem_cons_of_mem _ hd), hrejected⟩
      rintro d rfl
      exact haccepted d List.mem_cons_self
  · rintro (⟨rfl, rfl, hrejected⟩ | ⟨others, rfl, hpiece, ⟨after, rfl⟩, haccepted, hrejected⟩)
    · exact ⟨⟨pieces, rfl⟩, fun d hd => absurd hd List.not_mem_nil, hrejected⟩
    · refine ⟨⟨after, rfl⟩, fun d hd => ?_, hrejected⟩
      rcases List.mem_cons.mp hd with rfl | hd
      · exact hpiece d rfl
      · exact haccepted d hd

/-- Pieces of which some directive is rejected have a first one. -/
theorem exists_isFirstRejected {pieces : List (Piece Factory)} {d : Directive Factory}
    {cause : Report} (hd : .directive d ∈ pieces) (h : d.Rejected cause) :
    ∃ before first firstCause, IsFirstRejected pieces before first firstCause := by
  induction pieces with
  | nil => cases hd
  | cons piece pieces ih =>
    by_cases hpiece : ∃ d cause, piece = .directive d ∧ d.Rejected cause
    · obtain ⟨first, firstCause, hfirst, hrejected⟩ := hpiece
      exact ⟨[], first, firstCause, isFirstRejected_cons_iff.mpr (.inl ⟨rfl, hfirst, hrejected⟩)⟩
    · have hrest : .directive d ∈ pieces := by
        rcases List.mem_cons.mp hd with rfl | hrest
        · exact absurd ⟨d, cause, rfl, h⟩ hpiece
        · exact hrest
      obtain ⟨before, first, firstCause, hfirst⟩ := ih hrest
      refine ⟨piece :: before, first, firstCause, isFirstRejected_cons_iff.mpr
        (.inr ⟨before, rfl, fun d hd => ?_, hfirst⟩)⟩
      rcases d.accepted_or_rejected with haccepted | ⟨cause, hrejected⟩
      · exact haccepted
      · exact absurd ⟨d, cause, hd, hrejected⟩ hpiece

/-! ## Linking -/

theorem mapM_link_cons_eq_error_iff {item : Item Factory} {items : List (Item Factory)} :
    (item :: items).mapM Item.link = .error e ↔
      item.link = .error e ∨ (∃ link, item.link = .ok link) ∧ items.mapM Item.link = .error e := by
  rw [List.mapM_cons]
  cases hlink : item.link with
  | error cause => simp [bind, Except.bind]
  | ok link =>
    cases hlinks : items.mapM Item.link with
    | error cause => simp [bind, Except.bind]
    | ok links => simp [bind, Except.bind, pure, Except.pure]

/-- A run of literal text has a link whatever it is joined to. -/
theorem mapM_link_consText_eq_error_iff {text : List Char} {items : List (Item Factory)} :
    (Item.consText text items).mapM Item.link = .error e ↔ items.mapM Item.link = .error e := by
  have htext : ∀ run (items : List (Item Factory)),
      (.text run :: items).mapM Item.link = .error e ↔ items.mapM Item.link = .error e := by
    intro run items
    rw [mapM_link_cons_eq_error_iff]
    constructor
    · rintro (h | ⟨_, h⟩)
      · cases h
      · exact h
    · exact fun h => .inr ⟨⟨_, rfl⟩, h⟩
  cases items with
  | nil => exact htext text []
  | cons item items =>
    cases item with
    | text more => exact (htext (text ++ more) items).trans (htext more items).symm
    | directive offset d => exact htext text _

theorem link_directive_eq_error_iff {offset : Nat} {d : Directive Factory} :
    (Item.directive offset d).link = .error e ↔
      ∃ cause, d.Rejected cause ∧ e = d.error offset cause := by
  unfold Item.link Directive.Rejected Directive.error
  dsimp only
  cases d.value d.options.options with
  | ok converter =>
    constructor
    · intro h
      cases h
    · rintro ⟨_, h, _⟩
      cases h
  | error cause =>
    constructor
    · intro h
      cases h
      exact ⟨cause, rfl, rfl⟩
    · rintro ⟨_, h, rfl⟩
      cases h
      rfl

/-- Linking stops at a rejected first piece, and otherwise goes on behind it. -/
theorem links_cons_eq_error_iff {piece : Piece Factory} {pieces : List (Piece Factory)}
    (offset : Nat) :
    (Item.ofPieces offset (piece :: pieces)).mapM Item.link = .error e ↔
      (∃ d cause, piece = .directive d ∧ d.Rejected cause ∧ e = d.error offset cause) ∨
      (∀ d, piece = .directive d → d.Accepted) ∧
        (Item.ofPieces (offset + Text.byteLength piece.source) pieces).mapM Item.link =
          .error e := by
  cases hliteral : piece.literal? with
  | some text =>
    have hpiece : ∀ d, piece ≠ .directive d := by
      rintro d rfl
      cases hliteral
    rw [Item.ofPieces_literal hliteral, mapM_link_consText_eq_error_iff]
    constructor
    · exact fun h => .inr ⟨fun d hd => absurd hd (hpiece d), h⟩
    · rintro (⟨d, _, hd, _⟩ | ⟨_, h⟩)
      · exact absurd hd (hpiece d)
      · exact h
  | none =>
    cases piece with
    | plain | percent | dangling | nameless | unknown => cases hliteral
    | directive d =>
      show (Item.directive offset d :: Item.ofPieces _ pieces).mapM Item.link = .error e ↔ _
      rw [mapM_link_cons_eq_error_iff, link_directive_eq_error_iff]
      constructor
      · rintro (⟨cause, hrejected, he⟩ | ⟨⟨link, hlink⟩, h⟩)
        · exact .inl ⟨d, cause, rfl, hrejected, he⟩
        · obtain ⟨converter, hvalue, _⟩ := link_directive.mp hlink
          refine .inr ⟨fun other hother => ?_, h⟩
          cases hother
          exact ⟨converter, hvalue⟩
      · rintro (⟨other, cause, hother, hrejected, he⟩ | ⟨haccepted, h⟩)
        · cases hother
          exact .inl ⟨cause, hrejected, he⟩
        · obtain ⟨converter, hvalue⟩ := haccepted d rfl
          exact .inr ⟨⟨_, link_directive.mpr ⟨converter, hvalue, rfl⟩⟩, h⟩

theorem links_eq_error_iff {pieces : List (Piece Factory)} (offset : Nat) :
    (Item.ofPieces offset pieces).mapM Item.link = .error e ↔
      ∃ before d cause, IsFirstRejected pieces before d cause ∧
        e = d.error (offset + Text.byteLength (before.flatMap Piece.source)) cause := by
  induction pieces generalizing offset with
  | nil =>
    constructor
    · intro h
      cases h
    · rintro ⟨before, d, cause, ⟨⟨after, hstands⟩, _, _⟩, _⟩
      cases before <;> cases hstands
  | cons piece pieces ih =>
    rw [links_cons_eq_error_iff, ih]
    constructor
    · rintro (⟨d, cause, hd, hrejected, rfl⟩ | ⟨haccepted, before, d, cause, hfirst, rfl⟩)
      · exact ⟨[], d, cause, isFirstRejected_cons_iff.mpr (.inl ⟨rfl, hd, hrejected⟩), rfl⟩
      · refine ⟨piece :: before, d, cause,
          isFirstRejected_cons_iff.mpr (.inr ⟨before, rfl, haccepted, hfirst⟩), ?_⟩
        rw [List.flatMap_cons, Text.byteLength_append, Nat.add_assoc]
    · rintro ⟨before, d, cause, hfirst, rfl⟩
      rcases isFirstRejected_cons_iff.mp hfirst with
        ⟨rfl, hd, hrejected⟩ | ⟨others, rfl, haccepted, hothers⟩
      · exact .inl ⟨d, cause, hd, hrejected, rfl⟩
      · refine .inr ⟨haccepted, others, d, cause, hothers, ?_⟩
        rw [List.flatMap_cons, Text.byteLength_append, Nat.add_assoc]

/-! ## Compiling -/

theorem compile_eq_error_iff :
    compile table pattern = .error e ↔
      ∃ pieces before d cause, Cut table pattern.toList pieces ∧
        IsFirstRejected pieces before d cause ∧
        e = d.error (Text.byteLength (before.flatMap Piece.source)) cause := by
  rw [compile_eq, map_eq_error_iff, links_eq_error_iff]
  simp only [cut_iff_scan, Nat.zero_add]
  constructor
  · rintro ⟨before, d, cause, hfirst, he⟩
    exact ⟨_, before, d, cause, rfl, hfirst, he⟩
  · rintro ⟨_, before, d, cause, rfl, hfirst, he⟩
    exact ⟨before, d, cause, hfirst, he⟩

theorem exists_compile_eq_error_iff :
    (∃ e, compile table pattern = .error e) ↔
      ∃ pieces d cause, Cut table pattern.toList pieces ∧ .directive d ∈ pieces ∧
        d.Rejected cause := by
  simp only [compile_eq_error_iff]
  constructor
  · rintro ⟨_, pieces, before, d, cause, hcut, ⟨⟨after, rfl⟩, _, hrejected⟩, _⟩
    exact ⟨_, d, cause, hcut, List.mem_append_right before List.mem_cons_self, hrejected⟩
  · rintro ⟨pieces, d, cause, hcut, hd, hrejected⟩
    obtain ⟨before, first, firstCause, hfirst⟩ := exists_isFirstRejected hd hrejected
    exact ⟨_, pieces, before, first, firstCause, hcut, hfirst, rfl⟩

/-- Text alone never fails. -/
theorem exists_compile_eq_ok
    (h : ∀ token factory, table.get? token = some factory →
      ∀ options, ∃ converter, factory options = .ok converter) :
    ∃ compiled, compile table pattern = .ok compiled := by
  cases hcompile : compile table pattern with
  | ok compiled => exact ⟨compiled, rfl⟩
  | error e =>
    obtain ⟨pieces, d, cause, hcut, hd, hrejected⟩ := exists_compile_eq_error_iff.mp ⟨e, hcompile⟩
    have haccepted : d.Accepted := h _ _ (hcut.get?_token hd) d.options.options
    exact absurd hrejected haccepted.not_rejected

end LogLayout.Pattern
