import LogLayout.Bundled
import LogLayout.Proofs.Layout.Recoloring

/-!
# What the settings reach

Nothing of the settings gets into a text but by the directives that they are for. Where no colours
are written it does not matter which they are; where they are written, a record shows the one of its
own level; and the usual zone is for dates that name no zone.

Results:
1. `ofOptions_eq_of_zone_named`: a date that names its zone asks for no usual one.
2. `formatInto_perform_setOption`: an option for one level leaves the texts of the others alone.
3. At the end of the file: one pattern under two settings.
-/

namespace LogLayout

open Calendar (Zone)
open Palette (LevelColors Terminal)
open Palette.LevelColors (optionLevel?)
open Pattern (Compiled Recognized compile)

theorem DateStyle.ofOptions_eq_of_zone_named [Libraries] {options : List String} {text : String}
    (hzone : options[1]? = some text) (hname : Text.trim text ≠ "") (usual other : Zone) :
    ofOptions usual options = ofOptions other options := by
  have hnamed : zoneOf usual options[1]? = zoneOf other options[1]? := by
    rw [hzone]
    unfold zoneOf
    dsimp only
    rw [if_neg hname, if_neg hname]
  unfold ofOptions
  rw [hnamed]

namespace Layout

section

variable [Libraries] {layout : Layout} {option : String} {r : Record}

/-- A coherent layout renders with what its pattern compiles to. -/
theorem Coherent.compile_eq (h : layout.Coherent) :
    compile (layeredTable layout.settings layout.bindings) (effectivePattern layout.pattern) =
      .ok ⟨layout.chain, layout.warnings⟩ := by
  have hcompiled := h.compiled
  rw [compileGiven_eq, mapError_eq_ok_iff, h.layered] at hcompiled
  exact hcompiled

theorem formatInto_perform_setOption (h : layout.Coherent)
    (hlevel : optionLevel? option ≠ some r.level) (value : String) (terminal : Terminal)
    (buffer : String) :
    (layout.perform (.setOption option value)).1.formatInto terminal r buffer =
      layout.formatInto terminal r buffer := by
  have hafter := (coherent_perform h (.setOption option value)).compile_eq
  obtain ⟨⟨hpattern, hnoColor, hzone, hbindings⟩, hcolors⟩ := perform_setOption h option value
  have hget : (layout.perform (.setOption option value)).1.settings.colors.get r.level =
      layout.settings.colors.get r.level := by
    rw [hcolors, recolored_eq]
    cases hread : LevelColors.readOption option value with
    | error cause => rfl
    | ok asked =>
      obtain ⟨level, color⟩ := asked
      rw [LevelColors.get_set, if_neg]
      rintro rfl
      exact hlevel (LevelColors.readOption_eq_ok_iff.mp hread).1
  have hends := compile_layeredTable_endsAlike (effectivePattern layout.pattern)
    (.of_get_eq terminal hnoColor hget.symm) (layout.bindings.blindTo_self terminal)
    fun d _ _ => by rw [hzone]
  rw [h.compile_eq, hpattern, hbindings, hafter] at hends
  cases hends with
  | ok halike => exact (halike.text buffer).symm

/-- The settings reach a text by their own directives only. Take a pattern, bindings of the user, a
record and two settings. Where no colours are written under either of them, be it for the settings
or for the terminal, and the zones are the same, the pattern compiles alike, with the same error or
the same specifiers and warnings, and the record has the same text, whatever the colours; only the
user's converters must not tell the terminals apart. Where colours are written under both, they need
be the same for the record's level only; so an option for one level never changes the text of a
record of another one, wherever changes lead to from a build. And where every built-in date that
compilation gets to names its zone, neither the compilation nor the text depends on the usual
zone. -/
theorem settings_reach_own_directives (pattern : String) (bindings : TokenTable Factory)
    (r : Record) (first second : Settings) :
    (∀ terminal other, first.IsDark terminal → second.IsDark other → first.zone = second.zone →
      bindings.BlindTo terminal other →
      EndsAlike (Compiled.RendersAlike terminal other r)
        (compile (layeredTable first bindings) pattern)
        (compile (layeredTable second bindings) pattern)) ∧
    (∀ terminal : Terminal, terminal.showsColor = true → first.noColor = false →
      second.noColor = false → first.zone = second.zone →
      first.colors.get r.level = second.colors.get r.level →
      EndsAlike (Compiled.RendersAlike terminal terminal r)
        (compile (layeredTable first bindings) pattern)
        (compile (layeredTable second bindings) pattern)) ∧
    (∀ config built, build config = .ok built → ∀ (changes : List Change) option value,
      optionLevel? option ≠ some r.level → ∀ terminal buffer,
      ((built.run changes).perform (.setOption option value)).1.formatInto terminal r buffer =
        (built.run changes).formatInto terminal r buffer) ∧
    ((∀ d, Recognized (layeredTable first bindings) pattern.toList d → IsBuiltInDate bindings d →
        ∃ text, d.options.options[1]? = some text ∧ Text.trim text ≠ "") →
      ∀ zone terminal,
        EndsAlike (Compiled.RendersAlike terminal terminal r)
          (compile (layeredTable first bindings) pattern)
          (compile (layeredTable { first with zone := zone } bindings) pattern)) := by
  refine ⟨fun terminal other hfirst hsecond hzone hbindings => ?_,
    fun terminal _ hfirst hsecond hzone hlevel => ?_,
    fun config built hb changes option value hlevel terminal buffer => ?_,
    fun hdates zone terminal => ?_⟩
  · exact compile_layeredTable_endsAlike pattern (.of_isDark hfirst hsecond r) hbindings
      fun d _ _ => by rw [hzone]
  · exact compile_layeredTable_endsAlike pattern
      (.of_get_eq terminal (hfirst.trans hsecond.symm) hlevel) (bindings.blindTo_self terminal)
      fun d _ _ => by rw [hzone]
  · exact formatInto_perform_setOption (coherent_run (build_eq_ok_iff.mp hb).1 changes) hlevel
      value terminal buffer
  · refine compile_layeredTable_endsAlike pattern (.of_get_eq terminal rfl rfl)
      (bindings.blindTo_self terminal) fun d hrecognized hbuiltIn => ?_
    obtain ⟨text, hoption, hname⟩ := hdates d hrecognized hbuiltIn
    exact DateStyle.ofOptions_eq_of_zone_named hoption hname first.zone zone

end

/-- A marked level without colours and with two colours for fatal records, an hour of universal time
with two usual zones, and an option for warnings beside a record for information. -/
theorem marked_level_settings_reach_own_directives :
    EndsAlike (Compiled.RendersAlike {} ⟨false, true⟩ {})
        (compile (layeredTable { noColor := true } .empty) "%5Y%p%y")
        (compile (layeredTable {} .empty) "%5Y%p%y") ∧
      EndsAlike (Compiled.RendersAlike {} {} {})
        (compile (layeredTable {} .empty) "%5Y%p%y")
        (compile (layeredTable { colors := { fatal := .plain .blue } } .empty) "%5Y%p%y") ∧
      (∃ built, build {} = .ok built ∧
        (built.perform (.setOption "WarnColor" "blue")).1.formatInto {} {} "" =
          built.formatInto {} {} "") ∧
      EndsAlike (Compiled.RendersAlike {} {} {})
        (compile (layeredTable {} .empty) "%d\x7b%H,UTC\x7d")
        (compile (layeredTable { zone := .named "Asia/Tokyo" } .empty)
          "%d\x7b%H,UTC\x7d") := by
  have hblind : TokenTable.BlindTo .empty {} ⟨false, true⟩ := by
    intro token factory hbound
    rw [TokenTable.get?_empty] at hbound
    cases hbound
  have hdefault : compileGiven (layeredTable {} .empty) "" =
      .ok ⟨[⟨.message, {}⟩, ⟨.lineBreak, {}⟩], []⟩ := by
    rw [compileGiven_eq, Pattern.compile_eq]
    cbv
  obtain ⟨built, hb⟩ : ∃ built, build {} = .ok built := by
    rw [build_eq, hdefault]
    exact ⟨_, rfl⟩
  have hwarn : optionLevel? "WarnColor" ≠ some .info := by decide
  have hscan : ∃ factory, Pattern.Piece.scan (layeredTable {} .empty) "%d\x7b%H,UTC\x7d".toList =
      [.directive ⟨⟨false, [], none⟩, ['d'], factory,
        .block ⟨['%', 'H', ',', 'U', 'T', 'C'], ['%', 'H'], [['U', 'T', 'C']]⟩⟩] :=
    ⟨_, by cbv⟩
  have hdates : ∀ d, Recognized (layeredTable {} .empty) "%d\x7b%H,UTC\x7d".toList d →
      IsBuiltInDate .empty d →
        ∃ text, d.options.options[1]? = some text ∧ Text.trim text ≠ "" := by
    rintro d ⟨before, after, hcut, _⟩ _
    obtain ⟨factory, hscan⟩ := hscan
    have hmem : .directive d ∈ before ++ .directive d :: after :=
      List.mem_append_right _ List.mem_cons_self
    rw [Pattern.cut_iff_scan.mp hcut, hscan, List.mem_singleton] at hmem
    cases hmem
    exact ⟨"UTC", rfl, by decide⟩
  exact ⟨(settings_reach_own_directives _ .empty {} { noColor := true } {}).1 {} ⟨false, true⟩
      (.inl rfl) (.inr rfl) rfl hblind,
    (settings_reach_own_directives _ .empty {} {} _).2.1 {} rfl rfl rfl rfl rfl,
    ⟨built, hb, (settings_reach_own_directives "" .empty {} {} {}).2.2.1 {} built hb [] _ _ hwarn {}
      ""⟩,
    (settings_reach_own_directives _ .empty {} {} {}).2.2.2 hdates _ {}⟩

end Layout

end LogLayout
