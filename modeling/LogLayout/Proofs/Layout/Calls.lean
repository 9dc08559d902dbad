import LogLayout.Layout
import LogLayout.Proofs.Programs

/-!
# What calls on a layout do

The calls of `Layout` write the fields of a layout one after the other and may fail on the way.
Here each of them gets its meaning as a function: `attempt` is the layout that a change leads to,
or the reason why it fails.

Results:
1. `perform_eq`: a change that succeeds leaves the layout of `attempt`, and one that fails leaves
   the layout as it was: every point where a call can fail comes before its first write.
2. `build_eq`, `assemble_run`: a build puts the compiled pattern into a blank layout, and one that
   fails hands nothing to the trap.
-/

namespace LogLayout

open Pattern (Compiled Warning)

/-- The trap after it was handed reports in order. -/
def Trap.handAll (trap : Trap) (reports : List Report) : Trap :=
  { trap with handed := trap.handed ++ reports }

namespace Layout

variable {layout : Layout}

/-! ## Compiling a pattern that was given -/

/-- The pattern that is compiled for the given one. -/
def effectivePattern (pattern : String) : String :=
  if pattern = "" then defaultPattern else pattern

theorem compileGiven_eq (table : TokenTable Factory) (pattern : String) :
    compileGiven table pattern =
      (Pattern.compile table (effectivePattern pattern)).mapError (.badPattern pattern) :=
  rfl

/-! ## Putting a compiled pattern in place -/

/-- The layout with a compiled pattern in place and its warnings handed over. -/
def installed (layout : Layout) (pattern : String) (compiled : Compiled) : Layout :=
  { layout with
    pattern := pattern
    chain := compiled.chain
    warnings := compiled.warnings
    trap := layout.trap.handAll (compiled.warnings.map (warningReport pattern)) }

/-- Handing over warnings one by one touches nothing but the trap. -/
theorem forM_hand_run (pattern : String) (warnings : List Warning) (layout : Layout) :
    (warnings.forM fun warning => hand (warningReport pattern warning)).run.run layout =
      (.ok (), { layout with
        trap := layout.trap.handAll (warnings.map (warningReport pattern)) }) := by
  induction warnings generalizing layout with
  | nil =>
    simp only [Trap.handAll, List.map_nil, List.append_nil]
    rfl
  | cons warning rest ih =>
    -- the rest is handed over by a layout whose trap has the first report already
    have hnext := ih { layout with trap := layout.trap.hand (warningReport pattern warning) }
    simp only [Trap.handAll, Trap.hand, List.append_assoc, List.singleton_append] at hnext
    exact hnext

theorem install_run (pattern : String) (compiled : Compiled) (layout : Layout) :
    (install pattern compiled).run.run layout = (.ok (), layout.installed pattern compiled) := by
  unfold install
  rw [run_bind, forM_hand_run]
  rfl

/-! ## The meaning of a change -/

/-- What a call leaves behind whose result is known: the result's layout, or the layout as it
was. -/
def settled (layout : Layout) : Except LayoutError Layout → Except LayoutError Unit × Layout
  | .ok after => (.ok (), after)
  | .error e => (.error e, layout)

theorem setPattern_run (pattern : String) (layout : Layout) :
    (setPattern pattern).run.run layout =
      layout.settled ((compileGiven layout.table pattern).map (layout.installed pattern)) := by
  unfold setPattern
  rw [run_get_bind, run_lift_bind]
  cases compileGiven layout.table pattern with
  | ok compiled => exact install_run pattern compiled layout
  | error e => rfl

variable [Libraries]

/-- The layout with other settings and bindings and its pattern compiled anew. -/
def reconfigured (layout : Layout) (settings : Settings) (bindings : TokenTable Factory) :
    Except LayoutError Layout :=
  (compileGiven (layeredTable settings bindings) layout.pattern).map fun compiled =>
    installed
      { layout with
        settings := settings
        bindings := bindings
        table := layeredTable settings bindings }
      layout.pattern compiled

/-- The layout that a change leads to, or why the change fails. -/
def attempt (layout : Layout) : Change → Except LayoutError Layout
  | .setPattern pattern => (compileGiven layout.table pattern).map (layout.installed pattern)
  | .setOption option value =>
    (recolor layout.settings option value).bind fun settings =>
      layout.reconfigured settings layout.bindings
  | .register tokens factory =>
    layout.reconfigured layout.settings (layout.bindings.bind tokens factory)

theorem reconfigure_run (settings : Settings) (bindings : TokenTable Factory) (layout : Layout) :
    (reconfigure settings bindings).run.run layout =
      layout.settled (layout.reconfigured settings bindings) := by
  unfold reconfigure reconfigured
  rw [run_get_bind, run_lift_bind]
  cases compileGiven (layeredTable settings bindings) layout.pattern with
  | ok compiled =>
    show (modify _ >>= fun _ => install layout.pattern compiled).run.run layout = _
    rw [run_modify_bind, install_run]
    rfl
  | error e => rfl

theorem setOption_run (option value : String) (layout : Layout) :
    (setOption option value).run.run layout =
      layout.settled ((recolor layout.settings option value).bind fun settings =>
        layout.reconfigured settings layout.bindings) := by
  unfold setOption
  rw [run_get_bind, run_lift_bind]
  cases recolor layout.settings option value with
  | ok settings => exact reconfigure_run settings layout.bindings layout
  | error e => rfl

theorem register_run (tokens : List String) (factory : Factory) (layout : Layout) :
    (register tokens factory).run.run layout =
      layout.settled
        (layout.reconfigured layout.settings (layout.bindings.bind tokens factory)) := by
  unfold register
  rw [run_get_bind, reconfigure_run]

/-- Every call either gets through or stops before its first write. -/
theorem change_run (c : Change) (layout : Layout) :
    (change c).run.run layout = layout.settled (layout.attempt c) := by
  cases c with
  | setPattern pattern => exact setPattern_run pattern layout
  | setOption option value => exact setOption_run option value layout
  | register tokens factory => exact register_run tokens factory layout

theorem perform_eq (layout : Layout) (c : Change) :
    layout.perform c =
      match layout.attempt c with
      | .ok after => (after, none)
      | .error e => (layout, some e) := by
  unfold perform
  rw [change_run]
  cases layout.attempt c <;> rfl

theorem perform_of_ok {c : Change} {after : Layout} (h : layout.attempt c = .ok after) :
    layout.perform c = (after, none) := by
  rw [perform_eq, h]

theorem perform_of_error {c : Change} {e : LayoutError} (h : layout.attempt c = .error e) :
    layout.perform c = (layout, some e) := by
  rw [perform_eq, h]

/-! ## Builds -/

/-- A layout for a configuration before any pattern is in place. -/
def blank (config : LayoutConfig) : Layout where
  pattern := ""
  chain := []
  warnings := []
  settings := config.settings
  bindings := config.bindings
  table := layeredTable config.settings config.bindings
  trap := config.trap

/-- What a build gives, and what becomes of its trap. -/
theorem assemble_run (config : LayoutConfig) :
    (assemble config).run.run config.trap =
      match compileGiven (layeredTable config.settings config.bindings) config.pattern with
      | .ok compiled =>
        (.ok ((blank config).installed config.pattern compiled),
          ((blank config).installed config.pattern compiled).trap)
      | .error e => (.error e, config.trap) := by
  unfold assemble
  rw [run_lift_bind]
  cases compileGiven (layeredTable config.settings config.bindings) config.pattern with
  | ok compiled =>
    show (Except.ok ((install config.pattern compiled).run.run (blank config)).2,
      ((install config.pattern compiled).run.run (blank config)).2.trap) = _
    rw [install_run]
  | error e => rfl

theorem build_eq (config : LayoutConfig) :
    build config =
      (compileGiven (layeredTable config.settings config.bindings) config.pattern).map
        ((blank config).installed config.pattern) := by
  unfold build
  rw [assemble_run]
  cases compileGiven (layeredTable config.settings config.bindings) config.pattern <;> rfl

/-- A build that fails hands nothing to its trap. -/
theorem assemble_trap_of_error {config : LayoutConfig} {e : LayoutError}
    (h : build config = .error e) : ((assemble config).run.run config.trap).2 = config.trap := by
  unfold build at h
  rw [assemble_run] at h ⊢
  cases hc : compileGiven (layeredTable config.settings config.bindings) config.pattern with
  | ok compiled =>
    rw [hc] at h
    cases h
  | error e => rfl

end Layout

end LogLayout
