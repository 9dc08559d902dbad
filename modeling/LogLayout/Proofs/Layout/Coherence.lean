import LogLayout.Proofs.Layout.Calls

/-!
# Coherent layouts

A layout holds its pattern, its settings and the bindings of its users, and beside them what was
made of these: the table, the chain and the warnings. It is coherent when what was made is what
would be made now.

Results:
1. `build_eq_ok_iff`: a layout is the build of a configuration iff it is coherent, has the
   configuration's pattern, settings and bindings, and its trap was handed its warnings.
2. `attempt_eq_build`: a change to a coherent layout is a build from the amended configuration.
3. `coherent_run`: every layout that changes lead to from a build is coherent.
-/

namespace LogLayout

open Palette (LevelColors)

variable [Libraries]

/-- The configuration with a change made to it, or why the change cannot be made. -/
def LayoutConfig.amend (config : LayoutConfig) : Change → Except LayoutError LayoutConfig
  | .setPattern pattern => .ok { config with pattern := pattern }
  | .setOption option value =>
    (Layout.recolor config.settings option value).map fun settings =>
      { config with settings := settings }
  | .register tokens factory =>
    .ok { config with bindings := config.bindings.bind tokens factory }

namespace Change

/-- The pattern that a change gives. -/
def pattern? : Change → Option String
  | .setPattern pattern => some pattern
  | _ => none

/-- The binding that a change adds. -/
def binding? : Change → Option (List String × Factory)
  | .register tokens factory => some (tokens, factory)
  | _ => none

/-- The colours with a change made to them; a change of no colour leaves them as they are. -/
def recolored (colors : LevelColors) : Change → LevelColors
  | .setOption option value => (colors.setOption option value).toOption.getD colors
  | _ => colors

end Change

/-- The configuration with changes made to it: the last pattern that was given, the colours as
they were set in order, the settings that no change reaches, and the bindings in order. -/
def LayoutConfig.after (config : LayoutConfig) (changes : List Change) : LayoutConfig where
  pattern := (changes.filterMap Change.pattern?).getLast?.getD config.pattern
  settings :=
    { colors := changes.foldl Change.recolored config.settings.colors
      noColor := config.settings.noColor
      zone := config.settings.zone }
  bindings := config.bindings.bindAll (changes.filterMap Change.binding?)
  trap := config.trap

theorem LayoutConfig.after_cons (config : LayoutConfig) (c : Change) (changes : List Change) :
    config.after (c :: changes) = (config.after [c]).after changes := by
  cases c with
  | setPattern pattern =>
    -- the pattern is given up for the last one of the changes behind it, if they give any
    have hlast : ((.setPattern pattern :: changes).filterMap Change.pattern?).getLast? =
        some ((changes.filterMap Change.pattern?).getLast?.getD pattern) := by
      rw [List.filterMap_cons_some (by rfl), List.getLast?_cons]
    unfold after
    rw [hlast]
    rfl
  | setOption option value => rfl
  | register tokens factory => rfl

/-- A change that can be made is made. -/
theorem LayoutConfig.eq_after_of_amend {config amended : LayoutConfig} {c : Change}
    (h : config.amend c = .ok amended) : amended = config.after [c] := by
  cases c with
  | setPattern pattern | register tokens factory =>
    cases h
    rfl
  | setOption option value =>
    obtain ⟨settings, hsettings, rfl⟩ := map_eq_ok_iff.mp h
    unfold Layout.recolor at hsettings
    cases hcolors : config.settings.colors.setOption option value with
    | ok colors =>
      rw [hcolors] at hsettings
      cases hsettings
      simp only [after, List.foldl, Change.recolored, hcolors]
      rfl
    | error e =>
      rw [hcolors] at hsettings
      cases hsettings

namespace Layout

variable {config : LayoutConfig} {layout reached : Layout} {c : Change}

/-- The configuration that a layout is in. -/
def toConfig (layout : Layout) : LayoutConfig where
  pattern := layout.pattern
  settings := layout.settings
  bindings := layout.bindings
  trap := layout.trap

/-- The reports of a layout's warnings. -/
def reports (layout : Layout) : List Report :=
  layout.warnings.map (warningReport layout.pattern)

/-- What a layout has made of its pattern, its settings and its bindings is what would be made of
them now. -/
structure Coherent (layout : Layout) : Prop where
  layered : layout.table = layeredTable layout.settings layout.bindings
  compiled : compileGiven layout.table layout.pattern = .ok ⟨layout.chain, layout.warnings⟩

/-! ## Builds -/

theorem build_eq_ok_iff :
    build config = .ok layout ↔
      layout.Coherent ∧ layout.toConfig = { config with trap := layout.trap } ∧
        layout.trap = config.trap.handAll layout.reports := by
  rw [build_eq]
  constructor
  · intro h
    obtain ⟨compiled, hc, rfl⟩ := map_eq_ok_iff.mp h
    exact ⟨⟨rfl, hc⟩, rfl, rfl⟩
  · rintro ⟨⟨hlayered, hcompiled⟩, hconfig, htrap⟩
    obtain ⟨pattern, chain, warnings, settings, bindings, table, trap⟩ := layout
    simp only [toConfig, LayoutConfig.mk.injEq, and_true] at hconfig
    obtain ⟨rfl, rfl, rfl⟩ := hconfig
    simp only [reports] at hlayered hcompiled htrap
    subst hlayered htrap
    rw [hcompiled]
    rfl

/-! ## Changes -/

theorem reconfigured_eq_build (settings : Settings) (bindings : TokenTable Factory) :
    layout.reconfigured settings bindings =
      build { layout.toConfig with settings := settings, bindings := bindings } := by
  rw [build_eq]
  simp only [reconfigured, toConfig]
  cases compileGiven (layeredTable settings bindings) layout.pattern <;> rfl

/-- The one change that uses the table at hand, a new pattern, would find the same table in a
build. -/
theorem attempt_eq_build (h : layout.Coherent) (c : Change) :
    layout.attempt c = (layout.toConfig.amend c).bind build := by
  cases c with
  | setPattern pattern =>
    simp only [attempt, LayoutConfig.amend, Except.bind, build_eq, toConfig]
    -- the change compiles with the table at hand, the build with a new one
    rw [← h.layered]
    cases compileGiven layout.table pattern with
    | ok compiled => simp only [Except.map, installed, blank, h.layered]
    | error e => rfl
  | setOption option value =>
    simp only [attempt, LayoutConfig.amend, toConfig]
    cases recolor layout.settings option value with
    | ok settings => exact reconfigured_eq_build settings layout.bindings
    | error e => rfl
  | register tokens factory => exact reconfigured_eq_build _ _

/-- A change that succeeds leads to a coherent layout in the configuration with the change, and
hands the trap the warnings of that layout. -/
theorem attempt_eq_ok (h : layout.Coherent) (ha : layout.attempt c = .ok reached) :
    reached.Coherent ∧
      reached.toConfig = { layout.toConfig.after [c] with trap := reached.trap } ∧
      reached.trap = layout.trap.handAll reached.reports := by
  rw [attempt_eq_build h, bind_eq_ok_iff] at ha
  obtain ⟨amended, hamend, hbuild⟩ := ha
  obtain rfl := LayoutConfig.eq_after_of_amend hamend
  exact build_eq_ok_iff.mp hbuild

/-! ## Runs -/

theorem coherent_perform (h : layout.Coherent) (c : Change) : (layout.perform c).1.Coherent := by
  cases ha : layout.attempt c with
  | ok reached =>
    rw [perform_of_ok ha]
    exact (attempt_eq_ok h ha).1
  | error e =>
    rw [perform_of_error ha]
    exact h

theorem coherent_run (h : layout.Coherent) (changes : List Change) :
    (layout.run changes).Coherent := by
  induction changes generalizing layout with
  | nil => exact h
  | cons c changes ih => exact ih (coherent_perform h c)

end Layout

end LogLayout
