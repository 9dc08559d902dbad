import LogLayout.Bundled
import LogLayout.Proofs.Layout.TrapLog
import LogLayout.Proofs.TokenTable.Lookup

/-!
# A run is as good as a build

However a layout got where it is, it cannot be told from one that was built there. Changes that
fail leave no trace, so the configuration to build from takes those that succeeded only.

Results:
1. `run_toConfig`: the configuration after a run.
2. `fresh_build`: the build from that configuration gives the layout after the run, but for what
   its trap was handed before.
3. At the end of the file: the two give the same answers from then on, and the table in use binds
   each token to the last factory registered for it, or else to the built-in one.
-/

namespace LogLayout.Layout

section

variable [Libraries] {config : LayoutConfig} {built layout : Layout} {c : Change}

/-- The changes that succeed when all are tried in order. -/
def accepted (layout : Layout) : List Change → List Change
  | [] => []
  | c :: changes =>
    match layout.perform c with
    | (after, none) => c :: after.accepted changes
    | (after, some _) => after.accepted changes

/-- The answers that changes get when all are tried in order. -/
def answers (layout : Layout) : List Change → List (Option LayoutError)
  | [] => []
  | c :: changes => (layout.perform c).2 :: (layout.perform c).1.answers changes

/-- Whatever changes are tried on both layouts, they get the same answers, hand over the same
reports, and lead to the same pattern, chain and warnings. -/
def Indistinguishable (first second : Layout) : Prop :=
  ∀ changes : List Change,
    first.answers changes = second.answers changes ∧
    (first.run changes).pattern = (second.run changes).pattern ∧
    (first.run changes).chain = (second.run changes).chain ∧
    (first.run changes).warnings = (second.run changes).warnings ∧
    ∃ reports, (first.run changes).trap = first.trap.handAll reports ∧
      (second.run changes).trap = second.trap.handAll reports

/-! ## The configuration after a run -/

theorem run_toConfig (h : layout.Coherent) (changes : List Change) :
    (layout.run changes).toConfig =
      { layout.toConfig.after (layout.accepted changes) with
        trap := (layout.run changes).trap } := by
  induction changes generalizing layout with
  | nil => rfl
  | cons c changes ih =>
    show ((layout.perform c).1.run changes).toConfig =
      { layout.toConfig.after (layout.accepted (c :: changes)) with
        trap := ((layout.perform c).1.run changes).trap }
    cases ha : layout.attempt c with
    | ok reached =>
      -- the induction starts from the layout reached, so its configuration comes first
      obtain ⟨hcoherent, hconfig, _⟩ := attempt_eq_ok h ha
      simp only [accepted, perform_of_ok ha]
      rw [ih hcoherent, hconfig,
        LayoutConfig.after_cons layout.toConfig c (reached.accepted changes)]
      rfl
    | error e =>
      simp only [accepted, perform_of_error ha]
      exact ih h

/-- The table of a coherent layout, token by token. -/
theorem get?_table (h : layout.Coherent) (token : String) :
    layout.table.get? token =
      (layout.bindings.get? token).or ((directiveTable layout.settings).get? token) := by
  rw [h.layered]
  exact TokenTable.get?_extend _ _ token

/-! ## The fresh build -/

theorem fresh_build (hb : build config = .ok built) (changes : List Change) (trap : Trap) :
    build { config.after (built.accepted changes) with trap := trap } =
      .ok { built.run changes with trap := trap.handAll (built.run changes).reports } := by
  obtain ⟨hbuilt, hconfig, _⟩ := build_eq_ok_iff.mp hb
  have hreached : (built.run changes).Coherent := coherent_run hbuilt changes
  have hafter := run_toConfig hbuilt changes
  rw [hconfig] at hafter
  refine build_eq_ok_iff.mpr ⟨⟨hreached.layered, hreached.compiled⟩, ?_, rfl⟩
  exact congrArg (fun reached : LayoutConfig =>
    { reached with trap := trap.handAll (built.run changes).reports }) hafter

/-! ## Nothing tells them apart -/

theorem answers_with_trap (layout : Layout) (trap : Trap) (changes : List Change) :
    ({ layout with trap := trap } : Layout).answers changes = layout.answers changes := by
  induction changes generalizing layout trap with
  | nil => rfl
  | cons c changes ih =>
    have hother := attempt_with_trap layout trap c
    cases ha : layout.attempt c with
    | ok after =>
      rw [ha] at hother
      simp only [answers, perform_of_ok ha, perform_of_ok hother]
      rw [ih]
    | error e =>
      rw [ha] at hother
      simp only [answers, perform_of_error ha, perform_of_error hother]
      rw [ih]

theorem indistinguishable_with_trap (layout : Layout) (trap : Trap) :
    layout.Indistinguishable { layout with trap := trap } := by
  intro changes
  rw [run_with_trap layout trap changes]
  exact ⟨(answers_with_trap layout trap changes).symm, rfl, rfl, rfl, _,
    run_trap layout changes, rfl⟩

/-- Runs of changes refine builds. A configuration that builds, and any changes tried on the
layout, successful or not: the configuration with the successful ones made to it builds as well,
whatever its trap; nothing tells the layout after the run from the one that is built; its pattern is
the last one given, as it was given; and the table in use binds each token to the last factory that
the user registered for it, or else to the built-in one for the settings of the moment. -/
theorem run_indistinguishable_from_build (hb : build config = .ok built) (changes : List Change)
    (trap : Trap) :
    let now := config.after (built.accepted changes)
    ∃ fresh, build { now with trap := trap } = .ok fresh ∧
      (built.run changes).Indistinguishable fresh ∧
      (built.run changes).pattern = now.pattern ∧
      ∀ token, (built.run changes).table.get? token =
        ((TokenTable.lastBound? ((built.accepted changes).filterMap Change.binding?) token).or
          (config.bindings.get? token)).or
          ((directiveTable now.settings).get? token) := by
  intro now
  obtain ⟨hbuilt, hconfig, _⟩ := build_eq_ok_iff.mp hb
  have hafter := run_toConfig hbuilt changes
  rw [hconfig] at hafter
  have hpattern : (built.run changes).pattern = now.pattern := congrArg LayoutConfig.pattern hafter
  have hsettings : (built.run changes).settings = now.settings :=
    congrArg LayoutConfig.settings hafter
  have hbindings : (built.run changes).bindings =
      config.bindings.bindAll ((built.accepted changes).filterMap Change.binding?) :=
    congrArg LayoutConfig.bindings hafter
  refine ⟨_, fresh_build hb changes trap, indistinguishable_with_trap _ _, hpattern,
    fun token => ?_⟩
  rw [get?_table (coherent_run hbuilt changes), hbindings, hsettings, TokenTable.get?_bindAll]

end

/-- A layout for the empty pattern, which refuses a colour for no level and then takes `50%`. -/
theorem default_run_indistinguishable_from_build :
    ∃ built, build {} = .ok built ∧
      ∃ fresh, build { pattern := "50%", trap := .discard } = .ok fresh ∧
        (built.run [.setOption "BorderColor" "red", .setPattern "50%"]).Indistinguishable fresh ∧
        (built.run [.setOption "BorderColor" "red", .setPattern "50%"]).pattern = "50%" := by
  have hdefault : compileGiven (layeredTable {} .empty) "" =
      .ok ⟨[⟨.message, {}⟩, ⟨.lineBreak, {}⟩], []⟩ := by
    rw [compileGiven_eq, Pattern.compile_eq]
    cbv
  have hrefused : recolor {} "BorderColor" "red" =
      .error (.badOption (.unknownOption "BorderColor")) := by cbv
  have htaken : compileGiven (layeredTable {} .empty) "50%" =
      .ok ⟨[⟨.literal "50%", {}⟩], [⟨2, .danglingPercent⟩]⟩ := by
    rw [compileGiven_eq, Pattern.compile_eq]
    cbv
  obtain ⟨built, hb⟩ : ∃ built, build {} = .ok built := by
    rw [build_eq, hdefault]
    exact ⟨_, rfl⟩
  obtain ⟨hbuilt, hconfig, _⟩ := build_eq_ok_iff.mp hb
  have hsettings : built.settings = {} := congrArg LayoutConfig.settings hconfig
  have hbindings : built.bindings = .empty := congrArg LayoutConfig.bindings hconfig
  have htable : built.table = layeredTable {} .empty := by
    rw [hbuilt.layered, hsettings, hbindings]
  have hfirst := perform_eq built (.setOption "BorderColor" "red")
  have hsecond := perform_eq built (.setPattern "50%")
  simp only [attempt, hsettings, htable, hrefused, htaken, Except.bind, Except.map]
    at hfirst hsecond
  have haccepted : built.accepted [.setOption "BorderColor" "red", .setPattern "50%"] =
      [.setPattern "50%"] := by
    simp only [accepted, hfirst, hsecond]
  obtain ⟨fresh, hfresh, hsame, hpattern, _⟩ := run_indistinguishable_from_build hb
    [.setOption "BorderColor" "red", .setPattern "50%"] .discard
  rw [haccepted] at hfresh hpattern
  exact ⟨built, hb, fresh, hfresh, hsame, hpattern⟩

end LogLayout.Layout
