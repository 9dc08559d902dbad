import LogLayout.Bundled
import LogLayout.Proofs.Layout.Calls
import LogLayout.Proofs.Pattern.Rejection

/-!
# Why a pattern is refused

A layout refuses a pattern that does not compile, and names it as it was given. A pattern does not
compile iff some directive has its options rejected, and the leftmost of these is the reason.

Results:
1. `build_eq_error_iff`, `setPattern_eq_some_iff`, `register_eq_some_iff`: which calls fail, and
   with which error.
2. At the end of the file: what fails, what the error says, and what a layout makes of it.
-/

namespace LogLayout

open Pattern (compile CompileError Cut Piece Directive AllAccepted IsFirstRejected)

/-- The report tells of a directive that stands behind a text: by its token, at its position, and
with what its factory said. -/
structure Report.TellsOf (report : Report) (before : List Char) (d : Directive Factory)
    (cause : Report) : Prop where
  directive : report.lookup "directive" = some (String.ofList d.token)
  offset : report.lookup "offset" = some (toString (Text.byteLength before))
  sources : report.sources = [cause]

/-- The error names the pattern as it was given, and has the error of its compilation as its only
source. -/
structure LayoutError.Wraps (e : LayoutError) (pattern : String) (cause : CompileError) : Prop where
  eq_badPattern : e = .badPattern pattern cause
  given : e.report.lookup "pattern" = some pattern
  sources : e.report.sources = [cause.report]

theorem Pattern.tellsOf_error (d : Directive Factory) (before : List Char) (cause : Report) :
    (d.error (Text.byteLength before) cause).report.TellsOf before d cause :=
  ⟨rfl, rfl, rfl⟩

theorem LayoutError.wraps_iff {e : LayoutError} {pattern : String} {cause : CompileError} :
    e.Wraps pattern cause ↔ e = .badPattern pattern cause := by
  constructor
  · exact Wraps.eq_badPattern
  · rintro rfl
    exact ⟨rfl, rfl, rfl⟩

namespace Layout

variable {layout : Layout} {e : LayoutError}

/-! ## Calls that fail -/

theorem compileGiven_eq_error_iff {table : TokenTable Factory} {pattern : String} :
    compileGiven table pattern = .error e ↔
      ∃ cause, compile table (effectivePattern pattern) = .error cause ∧ e.Wraps pattern cause := by
  rw [compileGiven_eq, mapError_eq_error_iff]
  constructor
  · rintro ⟨cause, hcause, rfl⟩
    exact ⟨cause, hcause, LayoutError.wraps_iff.mpr rfl⟩
  · rintro ⟨cause, hcause, he⟩
    exact ⟨cause, hcause, he.eq_badPattern.symm⟩

section

variable [Libraries]

theorem build_eq_error_iff {config : LayoutConfig} :
    build config = .error e ↔
      ∃ cause, compile (layeredTable config.settings config.bindings)
          (effectivePattern config.pattern) = .error cause ∧ e.Wraps config.pattern cause := by
  rw [build_eq, map_eq_error_iff, compileGiven_eq_error_iff]

theorem perform_eq_some_iff {c : Change} :
    (layout.perform c).2 = some e ↔ layout.attempt c = .error e := by
  rw [perform_eq]
  cases layout.attempt c with
  | ok reached => simp
  | error cause => simp

theorem setPattern_eq_some_iff {pattern : String} :
    (layout.perform (.setPattern pattern)).2 = some e ↔
      ∃ cause, compile layout.table (effectivePattern pattern) = .error cause ∧
        e.Wraps pattern cause := by
  rw [perform_eq_some_iff]
  unfold attempt
  rw [map_eq_error_iff, compileGiven_eq_error_iff]

theorem register_eq_some_iff {tokens : List String} {factory : Factory} :
    (layout.perform (.register tokens factory)).2 = some e ↔
      ∃ cause, compile (layeredTable layout.settings (layout.bindings.bind tokens factory))
          (effectivePattern layout.pattern) = .error cause ∧ e.Wraps layout.pattern cause := by
  rw [perform_eq_some_iff]
  unfold attempt reconfigured
  rw [map_eq_error_iff, compileGiven_eq_error_iff]

/-- Only rejected options are refused, and the leftmost of them. A pattern fails to compile iff the
factory of some directive in its cut rejects the options of the directive, so nothing fails where
every factory accepts all options. The error tells of the first such directive: of its token, of
its position behind the text of the pieces before it, where `%`, its modifiers and its token
follow, and of what its factory said. And a layout is not built, takes no new pattern and no new
factory iff the pattern in question does not compile, and its error wraps the one of the
compilation. -/
theorem refused_at_leftmost_rejected (table : TokenTable Factory) (pattern : String) :
    ((∃ e, compile table pattern = .error e) ↔
      ∃ pieces d cause, Cut table pattern.toList pieces ∧ .directive d ∈ pieces ∧
        d.Rejected cause) ∧
    ((∀ token factory, table.get? token = some factory →
        ∀ options, ∃ converter, factory options = .ok converter) →
      ∃ compiled, compile table pattern = .ok compiled) ∧
    (∀ e, compile table pattern = .error e →
      ∃ before d after cause, Cut table pattern.toList (before ++ .directive d :: after) ∧
        AllAccepted before ∧ d.Rejected cause ∧
        table.get? (String.ofList d.token) = some d.value ∧
        (∃ rest, pattern.toList =
          before.flatMap Piece.source ++ '%' :: (d.modifiers.source ++ d.token ++ rest)) ∧
        e.report.TellsOf (before.flatMap Piece.source) d cause) ∧
    (∀ settings bindings trap e,
      build ⟨pattern, settings, bindings, trap⟩ = .error e ↔
        ∃ cause, compile (layeredTable settings bindings) (effectivePattern pattern) =
          .error cause ∧ e.Wraps pattern cause) ∧
    (∀ (layout : Layout) e, (layout.perform (.setPattern pattern)).2 = some e ↔
      ∃ cause, compile layout.table (effectivePattern pattern) = .error cause ∧
        e.Wraps pattern cause) ∧
    ∀ (layout : Layout) tokens factory e,
      (layout.perform (.register tokens factory)).2 = some e ↔
        ∃ cause, compile (layeredTable layout.settings (layout.bindings.bind tokens factory))
            (effectivePattern layout.pattern) = .error cause ∧ e.Wraps layout.pattern cause := by
  refine ⟨Pattern.exists_compile_eq_error_iff, Pattern.exists_compile_eq_ok, fun e he => ?_,
    fun _ _ _ _ => build_eq_error_iff, fun _ _ => setPattern_eq_some_iff,
    fun _ _ _ _ => register_eq_some_iff⟩
  obtain ⟨_, before, d, cause, hcut, ⟨⟨after, rfl⟩, haccepted, hrejected⟩, rfl⟩ :=
    Pattern.compile_eq_error_iff.mp he
  have hmem : Piece.directive d ∈ before ++ .directive d :: after :=
    List.mem_append_right before List.mem_cons_self
  have hsource : pattern.toList = before.flatMap Piece.source ++
      '%' :: (d.modifiers.source ++ d.token ++
        (d.options.source ++ after.flatMap Piece.source)) := by
    rw [← hcut.source, List.flatMap_append, List.flatMap_cons]
    simp only [Piece.source, Directive.source, List.cons_append, List.append_assoc]
  exact ⟨before, d, after, cause, hcut, haccepted, hrejected, hcut.get?_token hmem,
    ⟨_, hsource⟩, Pattern.tellsOf_error d _ cause⟩

end

/-- The first directive ends at its token, so the block behind the other letters is not for it; the
next one is refused, at a position that counts bytes. -/
theorem precision_refused_at_leftmost_rejected :
    (∃ e, compile (layeredTable {} .empty) "é%cat\x7b0\x7d%-5c\x7b0\x7d%c\x7b1\x7d" = .error e ∧
      e.report.lookup "directive" = some "c" ∧ e.report.lookup "offset" = some "9" ∧
      e.report.sources = [(OptionError.malformedPrecision "0" .zero).report] ∧
      (∃ before d after cause,
        Cut (layeredTable {} .empty) "é%cat\x7b0\x7d%-5c\x7b0\x7d%c\x7b1\x7d".toList
          (before ++ .directive d :: after) ∧ AllAccepted before ∧ d.Rejected cause ∧
        e.report.TellsOf (before.flatMap Piece.source) d cause) ∧
      ∃ wrapped, build ⟨"é%cat\x7b0\x7d%-5c\x7b0\x7d%c\x7b1\x7d", {}, .empty, .console []⟩ =
          .error wrapped ∧
        wrapped.Wraps "é%cat\x7b0\x7d%-5c\x7b0\x7d%c\x7b1\x7d" e) ∧
    ∃ compiled, compile (TokenTable.empty.bind ["m"] (.constant .message)) "%" = .ok compiled := by
  have hrefused :
      compile (layeredTable {} .empty) "é%cat\x7b0\x7d%-5c\x7b0\x7d%c\x7b1\x7d" =
        .error ⟨"c", 9, (OptionError.malformedPrecision "0" .zero).report⟩ := by
    rw [Pattern.compile_eq]
    cbv
  have haccepts : ∀ token factory,
      (TokenTable.empty.bind ["m"] (Factory.constant .message)).get? token = some factory →
        ∀ options, ∃ converter, factory options = .ok converter := by
    intro token factory hfactory options
    rw [TokenTable.get?_bind, TokenTable.get?_empty] at hfactory
    split at hfactory
    · cases hfactory
      exact ⟨.message, rfl⟩
    · cases hfactory
  obtain ⟨_, _, hleftmost, hbuild, _⟩ := refused_at_leftmost_rejected (layeredTable {} .empty)
    "é%cat\x7b0\x7d%-5c\x7b0\x7d%c\x7b1\x7d"
  obtain ⟨before, d, after, cause, hcut, haccepted, hrejected, _, _, htells⟩ := hleftmost _ hrefused
  have hwraps := LayoutError.wraps_iff.mpr
    (rfl : LayoutError.badPattern "é%cat\x7b0\x7d%-5c\x7b0\x7d%c\x7b1\x7d"
      ⟨"c", 9, (OptionError.malformedPrecision "0" .zero).report⟩ = _)
  refine ⟨⟨_, hrefused, rfl, by decide, rfl,
    ⟨before, d, after, cause, hcut, haccepted, hrejected, htells⟩,
    _, (hbuild {} .empty (.console []) _).mpr ⟨_, hrefused, hwraps⟩, hwraps⟩, ?_⟩
  exact (refused_at_leftmost_rejected _ "%").2.1 haccepts

end Layout

end LogLayout
