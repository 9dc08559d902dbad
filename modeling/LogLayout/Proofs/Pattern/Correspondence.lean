import LogLayout.Proofs.Pattern.Joined

/-!
# Two readings of a pattern

One pattern read with two tables may come to the same pieces but for the factories in them. If the
factories make related converters of the options, or both reject them for one cause, then the two
compilations end alike. Behind options that are rejected the readings may go different ways, since
no compilation gets there.

Results:
1. `Correspond.assembled`, `Correspond.isFirstRejected`: what one reading comes to, the other does.
2. `compile_endsAlike`: so both compilations have the same error, or the same warnings and
   specifiers and related converters.
-/

namespace LogLayout.Pattern

/-- The compiled patterns have the same specifiers and the same warnings, and their converters are
related one by one. -/
structure Compiled.Corresponds (rel : Converter → Converter → Prop) (first second : Compiled) :
    Prop where
  chain : List.Forall₂ (fun link other =>
    rel link.converter other.converter ∧ link.specifier = other.specifier) first.chain second.chain
  warnings : first.warnings = second.warnings

/-- Two readings come to the same, piece by piece, but for the factories of the directives, which
make related converters of the options. At options that both factories reject for one cause the
readings may part. -/
inductive Correspond (rel : Converter → Converter → Prop) :
    List (Piece Factory) → List (Piece Factory) → Prop
  | nil : Correspond rel [] []
  | literal {piece : Piece Factory} {text : List Char} {pieces others : List (Piece Factory)} :
    piece.literal? = some text → Correspond rel pieces others →
    Correspond rel (piece :: pieces) (piece :: others)
  | accepted {m : Modifiers} {token : List Char} {options : OptionPart} {factory other : Factory}
    {made second : Converter} {pieces others : List (Piece Factory)} :
    factory options.options = .ok made → other options.options = .ok second → rel made second →
    Correspond rel pieces others →
    Correspond rel (.directive ⟨m, token, factory, options⟩ :: pieces)
      (.directive ⟨m, token, other, options⟩ :: others)
  | rejected {m : Modifiers} {token : List Char} {options : OptionPart} {factory other : Factory}
    {cause : Report} {pieces others : List (Piece Factory)} :
    factory options.options = .error cause → other options.options = .error cause →
    Correspond rel (.directive ⟨m, token, factory, options⟩ :: pieces)
      (.directive ⟨m, token, other, options⟩ :: others)

namespace Correspond

variable {rel : Converter → Converter → Prop} {pieces others run before : List (Piece Factory)}
  {chain : Chain} {d : Directive Factory} {cause : Report}

/-- Readings of one directive with factories that end alike correspond, if they go on alike where
they go on. -/
theorem directive {m : Modifiers} {token : List Char} {options : OptionPart}
    {factory other : Factory}
    (h : EndsAlike rel (factory options.options) (other options.options))
    (hothers : ∀ made, factory options.options = .ok made → Correspond rel pieces others) :
    Correspond rel (.directive ⟨m, token, factory, options⟩ :: pieces)
      (.directive ⟨m, token, other, options⟩ :: others) := by
  cases hmade : factory options.options with
  | error cause =>
    cases hsecond : other options.options with
    | error _ =>
      rw [hmade, hsecond] at h
      cases h
      exact .rejected hmade hsecond
    | ok _ =>
      rw [hmade, hsecond] at h
      cases h
  | ok made =>
    cases hsecond : other options.options with
    | error _ =>
      rw [hmade, hsecond] at h
      cases h
    | ok _ =>
      rw [hmade, hsecond] at h
      cases h with
      | ok hrel => exact .accepted hmade hsecond hrel (hothers made hmade)

/-! ## Chains -/

/-- Both readings begin with the same literal pieces. -/
theorem exists_of_append {texts : List (List Char)} (h : Correspond rel (run ++ pieces) others)
    (htexts : run.map Piece.literal? = texts.map some) :
    ∃ rest, others = run ++ rest ∧ Correspond rel pieces rest := by
  induction run generalizing others texts with
  | nil => exact ⟨others, rfl, h⟩
  | cons piece run ih =>
    cases texts with
    | nil => cases htexts
    | cons text texts =>
      obtain ⟨hpiece, hrest⟩ := List.cons.inj htexts
      cases h with
      | literal _ hothers =>
        obtain ⟨rest, rfl, hcorrespond⟩ := ih hothers hrest
        exact ⟨rest, rfl, hcorrespond⟩
      | accepted | rejected => cases hpiece

/-- Where one reading goes on with a directive, or ends, so does the other. -/
theorem head_literal?_eq_none (h : Correspond rel pieces others)
    (hpieces : ∀ piece, pieces.head? = some piece → piece.literal? = none) :
    ∀ piece, others.head? = some piece → piece.literal? = none := by
  intro piece hpiece
  cases h with
  | nil => cases hpiece
  | literal => exact hpieces piece hpiece
  | accepted | rejected =>
    cases hpiece
    rfl

theorem assembled (hliteral : ∀ text, rel (.literal text) (.literal text))
    (h : Correspond rel pieces others) (hchain : Assembled pieces chain) :
    ∃ other, Assembled others other ∧ List.Forall₂ (fun link second =>
      rel link.converter second.converter ∧ link.specifier = second.specifier) chain other := by
  induction hchain generalizing others with
  | nil =>
    cases h
    exact ⟨[], .nil, .nil⟩
  | directive hvalue _ ih =>
    cases h with
    | literal hpiece => cases hpiece
    | accepted hmade hsecond hrel hothers =>
      obtain rfl := Except.ok.inj (hmade.symm.trans hvalue)
      obtain ⟨other, hother, hlinks⟩ := ih hothers
      exact ⟨_, .directive hsecond hother, .cons ⟨hrel, rfl⟩ hlinks⟩
    | rejected hcause => cases hcause.symm.trans hvalue
  | literal hrun htexts hpieces _ ih =>
    obtain ⟨rest, rfl, hrest⟩ := exists_of_append h htexts
    obtain ⟨other, hother, hlinks⟩ := ih hrest
    exact ⟨_, .literal hrun htexts (head_literal?_eq_none hrest hpieces) hother,
      .cons ⟨hliteral _, rfl⟩ hlinks⟩

/-- Readings that get to their ends have the same warnings. -/
theorem warningsOf_eq (h : Correspond rel pieces others) (haccepted : AllAccepted pieces)
    (offset : Nat) : warningsOf offset pieces = warningsOf offset others := by
  induction h generalizing offset with
  | nil => rfl
  | literal _ _ ih =>
    rw [warningsOf, warningsOf, ih fun d hd => haccepted d (List.mem_cons_of_mem _ hd)]
  | accepted _ _ _ _ ih =>
    rw [warningsOf, warningsOf, ih fun d hd => haccepted d (List.mem_cons_of_mem _ hd)]
    rfl
  | rejected hcause => exact absurd hcause (haccepted _ List.mem_cons_self).not_rejected

/-! ## Errors -/

theorem isFirstRejected (h : Correspond rel pieces others)
    (hfirst : IsFirstRejected pieces before d cause) :
    ∃ behind other, IsFirstRejected others behind other cause ∧ other.token = d.token ∧
      behind.flatMap Piece.source = before.flatMap Piece.source := by
  induction h generalizing before with
  | nil =>
    obtain ⟨⟨after, hstands⟩, _, _⟩ := hfirst
    cases before <;> cases hstands
  | literal hpiece _ ih =>
    rcases isFirstRejected_cons_iff.mp hfirst with ⟨_, rfl, _⟩ | ⟨rest, rfl, _, hrest⟩
    · cases hpiece
    · obtain ⟨behind, other, hother, htoken, hsource⟩ := ih hrest
      refine ⟨_ :: behind, other,
        isFirstRejected_cons_iff.mpr (.inr ⟨behind, rfl, ?_, hother⟩), htoken, ?_⟩
      · rintro d rfl
        cases hpiece
      · rw [List.flatMap_cons, List.flatMap_cons, hsource]
  | accepted hmade hsecond _ _ ih =>
    rcases isFirstRejected_cons_iff.mp hfirst with ⟨_, hd, hrejected⟩ | ⟨rest, rfl, _, hrest⟩
    · cases hd
      exact absurd hrejected (Directive.Accepted.not_rejected ⟨_, hmade⟩)
    · obtain ⟨behind, other, hother, htoken, hsource⟩ := ih hrest
      refine ⟨_ :: behind, other,
        isFirstRejected_cons_iff.mpr (.inr ⟨behind, rfl, ?_, hother⟩), htoken, ?_⟩
      · intro d hd
        cases hd
        exact ⟨_, hsecond⟩
      · rw [List.flatMap_cons, List.flatMap_cons, hsource]
        rfl
  | rejected hcause hother =>
    rcases isFirstRejected_cons_iff.mp hfirst with ⟨rfl, hd, hrejected⟩ | ⟨_, _, haccepted, _⟩
    · cases hd
      obtain rfl := Except.error.inj (hcause.symm.trans hrejected)
      exact ⟨[], _, isFirstRejected_cons_iff.mpr (.inl ⟨rfl, rfl, hother⟩), rfl, rfl⟩
    · exact absurd hcause (haccepted _ rfl).not_rejected

end Correspond

/-! ## Compilations -/

/-- Readings that correspond compile alike. -/
theorem compile_endsAlike {rel : Converter → Converter → Prop}
    (hliteral : ∀ text, rel (.literal text) (.literal text)) {table other : TokenTable Factory}
    {pattern : String}
    (h : Correspond rel (Piece.scan table pattern.toList) (Piece.scan other pattern.toList)) :
    EndsAlike (Compiled.Corresponds rel) (compile table pattern) (compile other pattern) := by
  have hcut := cut_scan other pattern.toList
  cases hcompile : compile table pattern with
  | ok first =>
    obtain ⟨pieces, hpieces, hchain, hwarnings⟩ := compile_eq_ok_iff.mp hcompile
    obtain rfl := cut_iff_scan.mp hpieces
    obtain ⟨second, hsecond, hlinks⟩ := h.assembled hliteral hchain
    have hother : compile other pattern =
        .ok ⟨second, warningsOf 0 (Piece.scan other pattern.toList)⟩ :=
      compile_eq_ok_iff.mpr ⟨_, hcut, hsecond, rfl⟩
    rw [hother]
    exact .ok ⟨hlinks, hwarnings.trans (h.warningsOf_eq hchain.allAccepted 0)⟩
  | error e =>
    obtain ⟨pieces, before, d, cause, hpieces, hfirst, rfl⟩ := compile_eq_error_iff.mp hcompile
    obtain rfl := cut_iff_scan.mp hpieces
    obtain ⟨behind, second, hsecond, htoken, hsource⟩ := h.isFirstRejected hfirst
    have hother : compile other pattern =
        .error (second.error (Text.byteLength (behind.flatMap Piece.source)) cause) :=
      compile_eq_error_iff.mpr ⟨_, behind, second, cause, hcut, hsecond, rfl⟩
    rw [hother, hsource]
    unfold Directive.error
    rw [htoken]
    exact .error _

end LogLayout.Pattern
