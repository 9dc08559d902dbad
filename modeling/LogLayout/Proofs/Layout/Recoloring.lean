import LogLayout.Bundled
import LogLayout.Proofs.Layout.FreshBuild
import LogLayout.Proofs.Layout.TwoSettings
import LogLayout.Proofs.Palette.LevelColors

/-!
# Colours set in any order

Setting a colour compiles the pattern again, with new factories for every directive. Still it can
fail on its own arguments only: the pattern of a coherent layout compiles, and whether a pattern
compiles does not depend on the colours. For the same reason it may change places with every other
call.

Results:
1. `compileGiven_endsAlike`: whether a pattern compiles, and why not, does not depend on colours.
2. `perform_setOption_answer`, `perform_setOption`: the answer to an option, and the configuration
   behind it.
3. `commute_of_not_isOption`, `commute_setOption`: an option before other calls, and behind them.
4. At the end of the file: options of one layout, alone and beside other calls.
-/

namespace LogLayout

open Palette (Color ColorOptionError LevelColors)
open Palette.LevelColors (optionLevel?)

/-- The change sets a colour by the name of an option. -/
def Change.IsOption : Change → Prop
  | .setOption _ _ => True
  | _ => False

namespace Layout

variable {layout other : Layout} {c : Change} {option value : String}

/-- The layouts are the same, but for what their traps were handed. -/
def SameButTrap (layout other : Layout) : Prop :=
  { layout with trap := other.trap } = other

/-- The layouts have the same pattern, bindings and settings, but for their colours. -/
structure SameButColors (layout other : Layout) : Prop where
  pattern : layout.pattern = other.pattern
  noColor : layout.settings.noColor = other.settings.noColor
  zone : layout.settings.zone = other.settings.zone
  bindings : layout.bindings = other.bindings

namespace SameButColors

theorem refl (layout : Layout) : layout.SameButColors layout :=
  ⟨rfl, rfl, rfl, rfl⟩

theorem symm (h : layout.SameButColors other) : other.SameButColors layout :=
  ⟨h.pattern.symm, h.noColor.symm, h.zone.symm, h.bindings.symm⟩

theorem trans {third : Layout} (h : layout.SameButColors other)
    (hother : other.SameButColors third) : layout.SameButColors third :=
  ⟨h.pattern.trans hother.pattern, h.noColor.trans hother.noColor, h.zone.trans hother.zone,
    h.bindings.trans hother.bindings⟩

end SameButColors

section

variable [Libraries]

/-- The changes get the same answers in either order, and lead to the same layout, but for the order
in which its trap was handed reports. -/
def Commute (layout : Layout) (c d : Change) : Prop :=
  layout.answers [d, c] = (layout.answers [c, d]).reverse ∧
    (layout.run [c, d]).SameButTrap (layout.run [d, c])

/-- What a coherent layout has made is known from its pattern, its settings and its bindings. -/
theorem SameButColors.sameButTrap (hsame : layout.SameButColors other) (h : layout.Coherent)
    (hother : other.Coherent) (hcolors : layout.settings.colors = other.settings.colors) :
    layout.SameButTrap other := by
  obtain ⟨pattern, chain, warnings, ⟨colors, noColor, zone⟩, bindings, table, trap⟩ := layout
  obtain ⟨_, others, second, ⟨_, _, _⟩, _, next, _⟩ := other
  obtain ⟨rfl, rfl, rfl, rfl⟩ := hsame
  obtain rfl : colors = _ := hcolors
  obtain rfl : table = next := h.layered.trans hother.layered.symm
  have hcompiled := Except.ok.inj (h.compiled.symm.trans hother.compiled)
  obtain ⟨rfl, rfl⟩ : chain = others ∧ warnings = second := by
    simpa only [Pattern.Compiled.mk.injEq] using hcompiled
  rfl

/-! ## Compilations under other colours -/

/-- Whether a pattern compiles, and why not, depends on the settings through the zone alone. -/
theorem compileGiven_endsAlike {first second : Settings} (hzone : first.zone = second.zone)
    (bindings : TokenTable Factory) (pattern : String) :
    EndsAlike (fun _ _ => True) (compileGiven (layeredTable first bindings) pattern)
      (compileGiven (layeredTable second bindings) pattern) := by
  -- on a terminal without colours neither settings write any
  have hcolors : ColorsAlike first second ⟨false, false⟩ ⟨false, false⟩ {} :=
    .of_isDark (.inr rfl) (.inr rfl) {}
  rw [compileGiven_eq, compileGiven_eq]
  refine EndsAlike.mapError ?_ _
  have hends := compile_layeredTable_endsAlike (effectivePattern pattern) hcolors
    (bindings.blindTo_self _) fun d _ _ => by rw [hzone]
  exact hends.mono fun _ _ _ => trivial

/-- Configurations that are the same but for their colours build alike, and each layout has its
own colours. -/
theorem build_endsAlike (config next : LayoutConfig) (hpattern : config.pattern = next.pattern)
    (hnoColor : config.settings.noColor = next.settings.noColor)
    (hzone : config.settings.zone = next.settings.zone)
    (hbindings : config.bindings = next.bindings) :
    EndsAlike (fun built reached => built.SameButColors reached ∧
        built.settings = config.settings ∧ reached.settings = next.settings)
      (build config) (build next) := by
  rw [build_eq, build_eq, ← hpattern, ← hbindings]
  exact (compileGiven_endsAlike hzone config.bindings config.pattern).map
    fun _ _ _ => ⟨⟨rfl, hnoColor, hzone, hbindings⟩, rfl, rfl⟩

/-- A change of no colour ends alike on layouts that are the same but for their colours, and each
keeps its own. -/
theorem attempt_endsAlike (h : layout.Coherent) (hother : other.Coherent)
    (hsame : layout.SameButColors other) (hc : ¬ c.IsOption) :
    EndsAlike (fun reached next => reached.SameButColors next ∧
        reached.settings = layout.settings ∧ next.settings = other.settings)
      (layout.attempt c) (other.attempt c) := by
  rw [attempt_eq_build h, attempt_eq_build hother]
  cases c with
  | setPattern pattern =>
    exact build_endsAlike { layout.toConfig with pattern := pattern }
      { other.toConfig with pattern := pattern } rfl hsame.noColor hsame.zone hsame.bindings
  | setOption option value => exact absurd trivial hc
  | register tokens factory =>
    exact build_endsAlike
      { layout.toConfig with bindings := layout.bindings.bind tokens factory }
      { other.toConfig with bindings := other.bindings.bind tokens factory }
      hsame.pattern hsame.noColor hsame.zone
      (congrArg (TokenTable.bind · tokens factory) hsame.bindings)

/-! ## Setting a colour -/

theorem recolored_eq (colors : LevelColors) (option value : String) :
    Change.recolored colors (.setOption option value) =
      match LevelColors.readOption option value with
      | .ok asked => colors.set asked.1 asked.2
      | .error _ => colors := by
  unfold Change.recolored
  dsimp only
  rw [LevelColors.setOption_eq]
  cases LevelColors.readOption option value <;> rfl

/-- Options for different levels recolour in any order. -/
theorem recolored_comm (colors : LevelColors) {option value next second : String}
    (hlevels : optionLevel? option ≠ optionLevel? next) :
    Change.recolored (Change.recolored colors (.setOption option value))
        (.setOption next second) =
      Change.recolored (Change.recolored colors (.setOption next second))
        (.setOption option value) := by
  simp only [recolored_eq]
  cases hfirst : LevelColors.readOption option value with
  | error cause => rfl
  | ok asked =>
    cases hlater : LevelColors.readOption next second with
    | error cause => rfl
    | ok askedToo =>
      refine LevelColors.set_comm colors ?_ asked.2 askedToo.2
      intro hequal
      rw [(LevelColors.readOption_eq_ok_iff.mp hfirst).1,
        (LevelColors.readOption_eq_ok_iff.mp hlater).1, hequal] at hlevels
      exact hlevels rfl

/-- Behind an option for its level an option recolours as it does alone. -/
theorem recolored_recolored (colors : LevelColors) {level : Level} {color : Color}
    {option value next second : String} (hoption : optionLevel? option = some level)
    (hnext : LevelColors.readOption next second = .ok (level, color)) :
    Change.recolored (Change.recolored colors (.setOption option value))
        (.setOption next second) =
      Change.recolored colors (.setOption next second) := by
  simp only [recolored_eq, hnext]
  cases hfirst : LevelColors.readOption option value with
  | error cause => rfl
  | ok asked =>
    obtain ⟨named, replaced⟩ := asked
    obtain rfl : named = level :=
      Option.some.inj ((LevelColors.readOption_eq_ok_iff.mp hfirst).1.symm.trans hoption)
    exact LevelColors.set_set colors named replaced color

/-- An option that can be read is taken, and recolours the layout; one that cannot is refused for
that. -/
theorem attempt_setOption_endsAlike (h : layout.Coherent) (option value : String) :
    EndsAlike (fun asked reached => layout.SameButColors reached ∧
        reached.settings.colors = layout.settings.colors.set asked.1 asked.2)
      ((LevelColors.readOption option value).mapError LayoutError.badOption)
      (layout.attempt (.setOption option value)) := by
  unfold attempt recolor
  dsimp only
  rw [LevelColors.setOption_eq]
  cases LevelColors.readOption option value with
  | error cause => exact .error _
  | ok asked =>
    obtain ⟨level, color⟩ := asked
    show EndsAlike _ (.ok (level, color)) (layout.reconfigured
      { layout.settings with colors := layout.settings.colors.set level color } layout.bindings)
    rw [reconfigured_eq_build]
    -- the pattern compiles with the colours at hand, and so it does with the others
    have hnow : build layout.toConfig = .ok { layout with
        trap := layout.trap.handAll layout.reports } :=
      build_eq_ok_iff.mpr ⟨⟨h.layered, h.compiled⟩, rfl, rfl⟩
    have hends := build_endsAlike layout.toConfig { layout.toConfig with
      settings := { layout.settings with colors := layout.settings.colors.set level color }
      bindings := layout.bindings } rfl rfl rfl rfl
    rw [hnow] at hends
    generalize build _ = result at hends ⊢
    cases hends with
    | ok hreached =>
      obtain ⟨⟨hpattern, hnoColor, hzone, hbindings⟩, _, hsettings⟩ := hreached
      exact .ok ⟨⟨hpattern, hnoColor, hzone, hbindings⟩, by rw [hsettings]⟩

/-- The answer to an option depends on the option alone. -/
theorem perform_setOption_answer (h : layout.Coherent) (option value : String) :
    (layout.perform (.setOption option value)).2 =
      match LevelColors.readOption option value with
      | .ok _ => none
      | .error cause => some (.badOption cause) := by
  have hends := attempt_setOption_endsAlike h option value
  rw [perform_eq]
  generalize layout.attempt (.setOption option value) = result at hends ⊢
  cases hread : LevelColors.readOption option value with
  | ok asked =>
    rw [hread] at hends
    cases hends
    rfl
  | error cause =>
    rw [hread] at hends
    cases hends
    rfl

/-- An option changes the colours of a layout, if anything. -/
theorem perform_setOption (h : layout.Coherent) (option value : String) :
    layout.SameButColors (layout.perform (.setOption option value)).1 ∧
      (layout.perform (.setOption option value)).1.settings.colors =
        Change.recolored layout.settings.colors (.setOption option value) := by
  have hends := attempt_setOption_endsAlike h option value
  rw [perform_eq, recolored_eq]
  generalize layout.attempt (.setOption option value) = result at hends ⊢
  cases hread : LevelColors.readOption option value with
  | ok asked =>
    rw [hread] at hends
    cases hends with
    | ok hreached => exact hreached
  | error cause =>
    rw [hread] at hends
    cases hends
    exact ⟨.refl layout, rfl⟩

/-! ## Either order -/

/-- A change of no colour gets one answer from layouts that are the same but for their colours. -/
theorem perform_of_not_isOption (h : layout.Coherent) (hother : other.Coherent)
    (hsame : layout.SameButColors other) (hc : ¬ c.IsOption) :
    (layout.perform c).2 = (other.perform c).2 ∧
      (layout.perform c).1.SameButColors (other.perform c).1 ∧
      (layout.perform c).1.settings = layout.settings ∧
      (other.perform c).1.settings = other.settings := by
  have hends := attempt_endsAlike h hother hsame hc
  rw [perform_eq layout, perform_eq other]
  generalize layout.attempt c = result at hends ⊢
  generalize other.attempt c = next at hends ⊢
  cases hends with
  | error e => exact ⟨rfl, hsame, rfl, rfl⟩
  | ok hreached => exact ⟨rfl, hreached⟩

theorem commute_of_not_isOption (h : layout.Coherent) (option value : String)
    (hc : ¬ c.IsOption) : layout.Commute (.setOption option value) c := by
  have hpainted := coherent_perform h (.setOption option value)
  have hafter := coherent_perform h c
  obtain ⟨hsame, hcolors⟩ := perform_setOption h option value
  obtain ⟨hanswer, hbehind, hkept, hkeptToo⟩ := perform_of_not_isOption h hpainted hsame hc
  obtain ⟨hlast, hlastColors⟩ := perform_setOption hafter option value
  constructor
  · show [(layout.perform c).2, ((layout.perform c).1.perform (.setOption option value)).2] =
      [((layout.perform (.setOption option value)).1.perform c).2,
        (layout.perform (.setOption option value)).2]
    rw [hanswer, perform_setOption_answer hafter, perform_setOption_answer h]
  · refine (hbehind.symm.trans hlast).sameButTrap (coherent_perform hpainted c)
      (coherent_perform hafter (.setOption option value)) ?_
    rw [hkeptToo, hcolors, hlastColors, hkept]

/-- Two options get their answers in any order, and the colours are set as they come. -/
theorem perform_setOption_setOption (h : layout.Coherent) (option value next second : String) :
    let after := (layout.perform (.setOption option value)).1
    (after.perform (.setOption next second)).1.Coherent ∧
      (after.perform (.setOption next second)).2 = (layout.perform (.setOption next second)).2 ∧
      layout.SameButColors (after.perform (.setOption next second)).1 ∧
      (after.perform (.setOption next second)).1.settings.colors =
        Change.recolored (Change.recolored layout.settings.colors (.setOption option value))
          (.setOption next second) := by
  intro after
  have hafter : after.Coherent := coherent_perform h _
  obtain ⟨hsame, hcolors⟩ := perform_setOption h option value
  obtain ⟨hnext, hnextColors⟩ := perform_setOption hafter next second
  refine ⟨coherent_perform hafter _, ?_, hsame.trans hnext, ?_⟩
  · rw [perform_setOption_answer hafter, perform_setOption_answer h]
  · rw [hnextColors, hcolors]

theorem commute_setOption (h : layout.Coherent) {option value next second : String}
    (hlevels : optionLevel? option ≠ optionLevel? next) :
    layout.Commute (.setOption option value) (.setOption next second) := by
  obtain ⟨hcoherent, hanswer, hsame, hcolors⟩ :=
    perform_setOption_setOption h option value next second
  obtain ⟨hother, hotherAnswer, hotherSame, hotherColors⟩ :=
    perform_setOption_setOption h next second option value
  constructor
  · show [(layout.perform (.setOption next second)).2, _] =
      [_, (layout.perform (.setOption option value)).2]
    rw [hotherAnswer, hanswer]
  · refine (hsame.symm.trans hotherSame).sameButTrap hcoherent hother ?_
    show _ = ((layout.perform (.setOption next second)).1.perform
      (.setOption option value)).1.settings.colors
    rw [hotherColors]
    exact hcolors.trans (recolored_comm layout.settings.colors hlevels)

/-- Of two options for one level that are both taken the later wins. -/
theorem setOption_setOption_of_level (h : layout.Coherent) {level : Level}
    {option value next second : String} (hoption : optionLevel? option = some level)
    (hnext : optionLevel? next = some level)
    (htaken : layout.answers [.setOption option value, .setOption next second] = [none, none]) :
    (layout.run [.setOption option value, .setOption next second]).SameButTrap
        (layout.run [.setOption next second]) ∧
      Libraries.color? (Text.trim second) = some
        ((layout.run [.setOption option value, .setOption next second]).settings.colors.get
          level) := by
  obtain ⟨hcoherent, hanswer, hsame, hcolors⟩ :=
    perform_setOption_setOption h option value next second
  obtain ⟨hlater, hlaterColors⟩ := perform_setOption h next second
  have hsecondTaken : (layout.perform (.setOption next second)).2 = none := by
    simp only [answers, hanswer, List.cons.injEq, and_true] at htaken
    exact htaken.2
  rw [perform_setOption_answer h] at hsecondTaken
  cases hread : LevelColors.readOption next second with
  | error cause =>
    rw [hread] at hsecondTaken
    cases hsecondTaken
  | ok asked =>
    obtain ⟨named, color⟩ := asked
    obtain ⟨hnamed, hparsed⟩ := LevelColors.readOption_eq_ok_iff.mp hread
    obtain rfl : named = level := Option.some.inj (hnamed.symm.trans hnext)
    rw [recolored_recolored layout.settings.colors hoption hread] at hcolors
    refine ⟨(hsame.symm.trans hlater).sameButTrap hcoherent (coherent_perform h _)
      (hcolors.trans hlaterColors.symm), ?_⟩
    show _ = some (((layout.perform (.setOption option value)).1.perform
      (.setOption next second)).1.settings.colors.get _)
    rw [hcolors, recolored_eq, hread, LevelColors.get_set, if_pos rfl, hparsed]

/-- Setting a colour fails on its own arguments only, and may change places with other calls.
Wherever changes lead to from a build, an option is refused iff it is none of the six names, letter
case aside, or its value without the blanks around it is no colour, and never because something does
not compile. A new pattern or a new factory gets the same answer before it as behind it, and so does
the option; the layouts are the same in the end, but for the order of what their traps were handed.
So it is with two options for different levels. And of two for one level, both taken, the later
wins. -/
theorem setOption_in_any_order {config : LayoutConfig} {built : Layout}
    (hb : build config = .ok built) (changes : List Change) :
    let layout := built.run changes
    (∀ option value,
      ((layout.perform (.setOption option value)).2 ≠ none ↔
        (∀ name ∈ LevelColors.optionNames, Text.sameName option name = false) ∨
          Libraries.color? (Text.trim value) = none) ∧
      (∀ e, (layout.perform (.setOption option value)).2 = some e →
        ∃ cause, e = .badOption cause) ∧
      ∀ c, ¬ c.IsOption → layout.Commute (.setOption option value) c) ∧
    ∀ option value next second,
      (optionLevel? option ≠ optionLevel? next →
        layout.Commute (.setOption option value) (.setOption next second)) ∧
      ∀ level, optionLevel? option = some level → optionLevel? next = some level →
        layout.answers [.setOption option value, .setOption next second] = [none, none] →
        (layout.run [.setOption option value, .setOption next second]).SameButTrap
            (layout.run [.setOption next second]) ∧
          Libraries.color? (Text.trim second) = some
            ((layout.run [.setOption option value, .setOption next second]).settings.colors.get
              level) := by
  intro layout
  have h : layout.Coherent := coherent_run (build_eq_ok_iff.mp hb).1 changes
  refine ⟨fun option value => ⟨?_, fun e he => ?_, fun c hc =>
    commute_of_not_isOption h option value hc⟩, fun option value next second =>
    ⟨commute_setOption h, fun level hoption hnext => setOption_setOption_of_level h hoption hnext⟩⟩
  · rw [perform_setOption_answer h, ← LevelColors.exists_readOption_eq_error_iff]
    cases LevelColors.readOption option value <;> simp
  · rw [perform_setOption_answer h] at he
    cases hread : LevelColors.readOption option value with
    | ok asked =>
      rw [hread] at he
      cases he
    | error cause =>
      rw [hread] at he
      exact ⟨cause, (Option.some.inj he).symm⟩

end

/-- A layout that marks levels takes a colour before or after it refuses `%c{0}`; of two colours for
warnings it keeps the second one. -/
theorem marked_level_setOption_in_any_order :
    ∃ built, build { pattern := "%Y%p%y" } = .ok built ∧
      (built.perform (.setOption "BorderColor" "red")).2 ≠ none ∧
      (∃ cause, LayoutError.badOption (.malformedColor "WarnColor" "pink") = .badOption cause) ∧
      built.Commute (.setOption "warncolor" " bright blue ") (.setPattern "%c\x7b0\x7d") ∧
      built.Commute (.setOption "WarnColor" "red") (.setOption "InfoColor" "pink") ∧
      (built.run [.setOption "WarnColor" "red", .setOption "WARNCOLOR" "#00f"]).SameButTrap
        (built.run [.setOption "WARNCOLOR" "#00f"]) := by
  have hcompiled : compileGiven (layeredTable {} .empty) "%Y%p%y" =
      .ok ⟨[⟨.colorStart {} false, {}⟩, ⟨.level false, {}⟩, ⟨.colorEnd false, {}⟩], []⟩ := by
    rw [compileGiven_eq, Pattern.compile_eq]
    cbv
  obtain ⟨built, hb⟩ : ∃ built, build { pattern := "%Y%p%y" } = .ok built := by
    rw [build_eq, hcompiled]
    exact ⟨_, rfl⟩
  have h : built.Coherent := (build_eq_ok_iff.mp hb).1
  have hunknown : ∀ name ∈ LevelColors.optionNames,
      Text.sameName "BorderColor" name = false := by decide
  have hmalformed : LevelColors.readOption "WarnColor" "pink" =
      .error (.malformedColor "WarnColor" "pink") := by cbv
  have hred : LevelColors.readOption "WarnColor" "red" = .ok (.warn, .plain .red) := by cbv
  have hblue : LevelColors.readOption "WARNCOLOR" "#00f" = .ok (.warn, .rgb 0 0 255) := by cbv
  have hlevels : optionLevel? "WarnColor" ≠ optionLevel? "InfoColor" := by decide
  have hrefused : (built.perform (.setOption "WarnColor" "pink")).2 =
      some (.badOption (.malformedColor "WarnColor" "pink")) := by
    rw [perform_setOption_answer h, hmalformed]
  have htaken : built.answers [.setOption "WarnColor" "red", .setOption "WARNCOLOR" "#00f"] =
      [none, none] := by
    simp only [answers]
    rw [(perform_setOption_setOption h _ _ _ _).2.1, perform_setOption_answer h,
      perform_setOption_answer h, hred, hblue]
  obtain ⟨halone, htwo⟩ := setOption_in_any_order hb []
  exact ⟨built, hb, (halone _ _).1.mpr (.inl hunknown), (halone _ _).2.1 _ hrefused,
    (halone _ _).2.2 _ id, (htwo _ _ _ _).1 hlevels,
    ((htwo _ _ _ _).2 .warn (LevelColors.readOption_eq_ok_iff.mp hred).1
      (LevelColors.readOption_eq_ok_iff.mp hblue).1 htaken).1⟩

end Layout

end LogLayout
