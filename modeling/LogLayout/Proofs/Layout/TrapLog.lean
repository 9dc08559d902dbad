import LogLayout.Bundled
import LogLayout.Proofs.Layout.Coherence
import LogLayout.Proofs.Pattern.Parser.Outcome
import Mathlib

/-!
# What a trap is handed

A trap is handed the warnings of the build and of every change that succeeded, in order, and
nothing else. The log is exact because a call that fails stops before its first write.

Results:
1. `run_with_trap`, `run_trap`: what becomes of a trap in a run, from the layouts that the
   successful changes led to; nothing else depends on it.
2. At the end of the file: failed builds and failed changes touch nothing; a change that
   succeeds hands over one report for each warning of the new compilation.
-/

namespace LogLayout

theorem Trap.handAll_handAll (trap : Trap) (first second : List Report) :
    (trap.handAll first).handAll second = trap.handAll (first ++ second) := by
  simp only [handAll, List.append_assoc]

namespace Layout

section

variable [Libraries] {config : LayoutConfig} {layout after : Layout} {c : Change}

/-- The layouts that changes led to, in order, without those changes that failed. -/
def passed (layout : Layout) : List Change → List Layout
  | [] => []
  | c :: changes =>
    match layout.perform c with
    | (after, none) => after :: after.passed changes
    | (after, some _) => after.passed changes

/-- With another trap in its place a layout takes the same changes, and that trap is handed what
the first one would have been. -/
theorem attempt_with_trap (layout : Layout) (trap : Trap) (c : Change) :
    ({ layout with trap := trap } : Layout).attempt c =
      (layout.attempt c).map fun reached =>
        { reached with trap := trap.handAll reached.reports } := by
  -- no compilation reads the trap, and both layouts compile the same pattern
  have hreconfigured : ∀ settings bindings,
      ({ layout with trap := trap } : Layout).reconfigured settings bindings =
        (layout.reconfigured settings bindings).map fun reached =>
          { reached with trap := trap.handAll reached.reports } := by
    intro settings bindings
    simp only [reconfigured]
    cases compileGiven (layeredTable settings bindings) layout.pattern <;> rfl
  cases c with
  | setPattern pattern =>
    simp only [attempt]
    cases compileGiven layout.table pattern <;> rfl
  | setOption option value =>
    simp only [attempt]
    cases recolor layout.settings option value with
    | ok settings => exact hreconfigured settings layout.bindings
    | error e => rfl
  | register tokens factory => exact hreconfigured _ _

theorem run_with_trap (layout : Layout) (trap : Trap) (changes : List Change) :
    ({ layout with trap := trap } : Layout).run changes =
      { layout.run changes with
        trap := trap.handAll ((layout.passed changes).flatMap reports) } := by
  induction changes generalizing layout trap with
  | nil =>
    show ({ layout with trap := trap } : Layout) = { layout with trap := trap.handAll [] }
    simp only [Trap.handAll, List.append_nil]
  | cons c changes ih =>
    show (({ layout with trap := trap } : Layout).perform c).1.run changes =
      { (layout.perform c).1.run changes with
        trap := trap.handAll ((layout.passed (c :: changes)).flatMap reports) }
    have hother := attempt_with_trap layout trap c
    cases ha : layout.attempt c with
    | ok after =>
      rw [ha] at hother
      simp only [passed, perform_of_ok ha, perform_of_ok hother, List.flatMap_cons]
      rw [ih, Trap.handAll_handAll]
    | error e =>
      rw [ha] at hother
      simp only [passed, perform_of_error ha, perform_of_error hother]
      exact ih layout trap

theorem run_trap (layout : Layout) (changes : List Change) :
    (layout.run changes).trap = layout.trap.handAll ((layout.passed changes).flatMap reports) :=
  congrArg Layout.trap (run_with_trap layout layout.trap changes)

/-- A call that fails leaves the layout as it was. -/
theorem eq_of_change_run_error {e : LayoutError}
    (h : (change c).run.run layout = (.error e, after)) : after = layout := by
  rw [change_run] at h
  cases ha : layout.attempt c with
  | ok reached =>
    rw [ha] at h
    cases h
  | error e' =>
    rw [ha] at h
    cases h
    rfl

theorem attempt_of_change_run_ok (h : (change c).run.run layout = (.ok (), after)) :
    layout.attempt c = .ok after := by
  rw [change_run] at h
  cases ha : layout.attempt c with
  | ok reached =>
    rw [ha] at h
    cases h
    rfl
  | error e =>
    rw [ha] at h
    cases h

/-- Builds and changes are atomic, and the trap's log is exact. A build that fails leaves its trap
as it was. After any run from a build, the trap was handed the warnings of the build and of each
change that succeeded. From there a change that fails leaves the whole layout as it was, its trap
included; one that succeeds compiles the pattern, lists the warnings of that compilation, and hands
over one report for each of them, in order, which names the pattern as it was given and the
warning. -/
theorem changes_atomic_and_reported (config : LayoutConfig) :
    (∀ e, build config = .error e → ((assemble config).run.run config.trap).2 = config.trap) ∧
    ∀ built, build config = .ok built → ∀ changes : List Change,
      (built.run changes).trap =
        config.trap.handAll ((built :: built.passed changes).flatMap reports) ∧
      ∀ c : Change,
        (∀ e after, (change c).run.run (built.run changes) = (.error e, after) →
          after = built.run changes) ∧
        (∀ after, (change c).run.run (built.run changes) = (.ok (), after) →
          after.pattern = c.pattern?.getD (built.run changes).pattern ∧
          compileGiven after.table after.pattern = .ok ⟨after.chain, after.warnings⟩ ∧
          after.trap = (built.run changes).trap.handAll (after.warnings.map fun warning =>
            .of "recovered from malformed pattern"
              [("pattern", after.pattern), ("problem", warning.message)])) := by
  refine ⟨fun e he => assemble_trap_of_error he, fun built hb changes => ?_⟩
  obtain ⟨hbuilt, _, htrap⟩ := build_eq_ok_iff.mp hb
  have hreached : (built.run changes).Coherent := coherent_run hbuilt changes
  refine ⟨?_, fun c => ⟨fun e after h => eq_of_change_run_error h, fun after h => ?_⟩⟩
  · rw [run_trap, htrap, Trap.handAll_handAll, List.flatMap_cons]
  · obtain ⟨hcoherent, hconfig, hhanded⟩ := attempt_eq_ok hreached (attempt_of_change_run_ok h)
    refine ⟨?_, hcoherent.compiled, hhanded⟩
    have hpattern := congrArg LayoutConfig.pattern hconfig
    cases c <;> exact hpattern

end

/-- A layout for `50%`, which refuses `%c{0}` and then takes `%`. -/
theorem fifty_percent_changes_atomic_and_reported :
    ((assemble { pattern := "%c\x7b0\x7d" }).run.run (.console [])).2 = .console [] ∧
    ∃ built, build { pattern := "50%" } = .ok built ∧
      (∃ e after, (change (.setPattern "%c\x7b0\x7d")).run.run built = (.error e, after) ∧
        after = built) ∧
      ∃ after, (change (.setPattern "%")).run.run built = (.ok (), after) ∧
        after.trap.handed =
          [.of "recovered from malformed pattern"
              [("pattern", "50%"), ("problem", "dangling '%' at end of pattern (at offset 2)")],
            .of "recovered from malformed pattern"
              [("pattern", "%"), ("problem", "dangling '%' at end of pattern (at offset 0)")]] := by
  have hrefused : compileGiven (layeredTable {} .empty) "%c\x7b0\x7d" =
      .error (.badPattern "%c\x7b0\x7d"
        ⟨"c", 0, (OptionError.malformedPrecision "0" .zero).report⟩) := by
    rw [compileGiven_eq, Pattern.compile_eq]
    cbv
  have hfirst : compileGiven (layeredTable {} .empty) "50%" =
      .ok ⟨[⟨.literal "50%", {}⟩], [⟨2, .danglingPercent⟩]⟩ := by
    rw [compileGiven_eq, Pattern.compile_eq]
    cbv
  have hsecond : compileGiven (layeredTable {} .empty) "%" =
      .ok ⟨[⟨.literal "%", {}⟩], [⟨0, .danglingPercent⟩]⟩ := by
    rw [compileGiven_eq, Pattern.compile_eq]
    cbv
  have hfailed := build_eq { pattern := "%c\x7b0\x7d" }
  rw [hrefused] at hfailed
  have hbuilt := build_eq { pattern := "50%" }
  rw [hfirst] at hbuilt
  have herror := setPattern_run "%c\x7b0\x7d" ((blank { pattern := "50%" }).installed "50%"
    ⟨[⟨.literal "50%", {}⟩], [⟨2, .danglingPercent⟩]⟩)
  have hok := setPattern_run "%" ((blank { pattern := "50%" }).installed "50%"
    ⟨[⟨.literal "50%", {}⟩], [⟨2, .danglingPercent⟩]⟩)
  simp only [installed, blank, hrefused, hsecond] at herror hok
  obtain ⟨hlog, hcalls⟩ := (changes_atomic_and_reported { pattern := "50%" }).2 _ hbuilt []
  refine ⟨(changes_atomic_and_reported { pattern := "%c\x7b0\x7d" }).1 _ hfailed, _, hbuilt,
    ⟨_, _, herror, (hcalls (.setPattern "%c\x7b0\x7d")).1 _ _ herror⟩, _, hok, ?_⟩
  obtain ⟨_, _, htrap⟩ := (hcalls (.setPattern "%")).2 _ hok
  rw [htrap, hlog]
  rfl

end Layout

end LogLayout
