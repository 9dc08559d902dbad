import LogLayout.Layout
import LogLayout.Proofs.Pattern.Lookups

/-!
# One pattern under two settings

The settings reach a compiled pattern through three kinds of directives only: the colours through
the marks of their start and their end, and the usual zone through dates. Only the two marks ask the
terminal. So two settings and two terminals that come to the same there come to the same in all.

Results:
1. `Chain.formatInto_eq`: links that write alike make chains that do.
2. `directiveTable_corresponds`: the built-in directives of two settings make converters that write
   alike.
3. `compile_layeredTable_endsAlike`: and so does what any pattern compiles to.
-/

namespace LogLayout

open Palette (Terminal)
open Pattern (Compiled Directive Lookup Recognized compile lookups)

variable [Libraries] {terminal other : Terminal} {r : Record} {first second : Settings}

/-! ## Converters on two terminals -/

/-- On its terminal each converter makes the same of every text. -/
def Converter.WritesAlike (terminal other : Terminal) (r : Record) (made second : Converter) :
    Prop :=
  ∀ buffer, made.write terminal r buffer = second.write other r buffer

/-- The converter is a mark of a colour, which asks the terminal. -/
def Converter.IsColorMark : Converter → Prop
  | .colorStart _ _ => True
  | .colorEnd _ => True
  | _ => False

theorem Converter.writesAlike_self {converter : Converter} (h : ¬ converter.IsColorMark) :
    converter.WritesAlike terminal other r converter := by
  intro buffer
  cases converter with
  | colorStart colors noColor | colorEnd noColor => exact absurd trivial h
  | level inLowerCase => cases inLowerCase <;> rfl
  | properties key => cases key <;> rfl
  | _ => rfl

theorem Converter.IsBuiltIn.writesAlike {made second : Converter} (hmade : made.IsBuiltIn)
    (hsecond : second.IsBuiltIn) (h : made.text terminal r = second.text other r) :
    made.WritesAlike terminal other r second := by
  intro buffer
  rw [write_eq_append hmade, write_eq_append hsecond, h]

/-- What the factory makes does not tell the terminals apart. -/
def Factory.BlindTo (terminal other : Terminal) (factory : Factory) : Prop :=
  ∀ options converter, factory options = .ok converter →
    ∀ r, converter.WritesAlike terminal other r converter

/-- Nothing that the factories of the table make tells the terminals apart. -/
def TokenTable.BlindTo (table : TokenTable Factory) (terminal other : Terminal) : Prop :=
  ∀ token factory, table.get? token = some factory → factory.BlindTo terminal other

/-- On one terminal there is nothing to be told apart. -/
theorem TokenTable.blindTo_self (table : TokenTable Factory) (terminal : Terminal) :
    table.BlindTo terminal terminal :=
  fun _ _ _ _ _ _ _ _ => rfl

/-! ## Chains -/

section Chains

variable {chain next : Chain}

omit [Libraries] in
theorem Chain.specifiers_eq {rel : Converter → Converter → Prop}
    (h : List.Forall₂ (fun link linked =>
      rel link.converter linked.converter ∧ link.specifier = linked.specifier) chain next) :
    chain.specifiers = next.specifiers := by
  unfold specifiers
  induction h with
  | nil => rfl
  | cons hlink _ ih => rw [List.map_cons, List.map_cons, hlink.2, ih]

theorem Chain.formatInto_eq
    (h : List.Forall₂ (fun link linked =>
      link.converter.WritesAlike terminal other r linked.converter ∧
        link.specifier = linked.specifier) chain next) (buffer : String) :
    chain.formatInto terminal r buffer = next.formatInto other r buffer := by
  unfold formatInto
  induction h generalizing buffer with
  | nil => rfl
  | cons hlink _ ih =>
    rw [List.foldl_cons, List.foldl_cons, ih]
    unfold Link.write
    rw [hlink.1, hlink.2]

end Chains

/-- The compiled patterns have the same specifiers and warnings, and each on its terminal they
render the record to the same text. -/
structure Pattern.Compiled.RendersAlike (terminal other : Terminal) (r : Record)
    (made second : Compiled) : Prop where
  specifiers : made.chain.specifiers = second.chain.specifiers
  warnings : made.warnings = second.warnings
  text : ∀ buffer,
    made.chain.formatInto terminal r buffer = second.chain.formatInto other r buffer

theorem Pattern.Compiled.Corresponds.rendersAlike {made second : Compiled}
    (h : made.Corresponds (Converter.WritesAlike terminal other r) second) :
    made.RendersAlike terminal other r second where
  specifiers := Chain.specifiers_eq h.chain
  warnings := h.warnings
  text := Chain.formatInto_eq h.chain

/-! ## The built-in directives of two settings -/

/-- The marks of the record's colour come to the same, under each settings on its terminal. -/
structure ColorsAlike (first second : Settings) (terminal other : Terminal) (r : Record) :
    Prop where
  start : (Converter.colorStart first.colors first.noColor).text terminal r =
    (Converter.colorStart second.colors second.noColor).text other r
  finish : (Converter.colorEnd first.noColor).text terminal r =
    (Converter.colorEnd second.noColor).text other r

/-- Whatever the colours, no mark of one is written. -/
def Settings.IsDark (settings : Settings) (terminal : Terminal) : Prop :=
  settings.noColor = true ∨ terminal.showsColor = false

omit [Libraries] in
theorem Settings.IsDark.not_shown {settings : Settings} (h : settings.IsDark terminal) :
    (!settings.noColor && terminal.showsColor) = false := by
  rcases h with hcolor | hterminal
  · rw [hcolor]
    rfl
  · rw [hterminal, Bool.and_false]

theorem ColorsAlike.of_isDark (hfirst : first.IsDark terminal) (hsecond : second.IsDark other)
    (r : Record) : ColorsAlike first second terminal other r where
  start := by simp only [Converter.text, hfirst.not_shown, hsecond.not_shown, Bool.false_eq_true,
    if_false]
  finish := by simp only [Converter.text, hfirst.not_shown, hsecond.not_shown, Bool.false_eq_true,
    if_false]

/-- On one terminal the marks for a record tell no more of the colours than the one of its level. -/
theorem ColorsAlike.of_get_eq (terminal : Terminal) (hnoColor : first.noColor = second.noColor)
    (hlevel : first.colors.get r.level = second.colors.get r.level) :
    ColorsAlike first second terminal terminal r where
  start := by simp only [Converter.text, Palette.LevelColors.startSequence, hnoColor, hlevel]
  finish := by rw [hnoColor]

/-- The tokens of the built-in directive for dates. -/
def dateTokens : List String := ["d", "date"]

/-- The factories make converters that write alike, or fail for one cause: from all options, or, if
they are for dates, from those that ask both settings for the same date. -/
def MakeAlike (first second : Settings) (terminal other : Terminal) (r : Record) (isDate : Prop)
    (factory next : Factory) : Prop :=
  ∀ options,
    (isDate → DateStyle.ofOptions first.zone options = DateStyle.ofOptions second.zone options) →
    EndsAlike (Converter.WritesAlike terminal other r) (factory options) (next options)

/-- Groups of the same tokens, with factories that make alike for each of them. -/
def GroupsAlike (first second : Settings) (terminal other : Terminal) (r : Record)
    (group next : List String × Factory) : Prop :=
  group.1 = next.1 ∧
    ∀ token ∈ group.1, MakeAlike first second terminal other r (token ∈ dateTokens) group.2 next.2

theorem Factory.BlindTo.makeAlike {factory : Factory} (h : factory.BlindTo terminal other)
    (isDate : Prop) : MakeAlike first second terminal other r isDate factory factory :=
  fun options _ => .refl fun made hmade => h options made hmade r

theorem Factory.blindTo_constant {converter : Converter} (h : ¬ converter.IsColorMark) :
    (constant converter).BlindTo terminal other := by
  intro options made hmade
  cases hmade
  exact fun _ => Converter.writesAlike_self h

theorem Factory.blindTo_ofOptions {α : Type} {read : List String → Except OptionError α}
    {make : α → Converter} (h : ∀ a, ¬ (make a).IsColorMark) :
    (ofOptions fun options => (read options).map make).BlindTo terminal other := by
  intro options made hmade
  obtain ⟨a, _, rfl⟩ := map_eq_ok_iff.mp (mapError_eq_ok_iff.mp hmade)
  exact fun _ => Converter.writesAlike_self (h a)

theorem Factory.makeAlike_constant {made next : Converter}
    (h : made.WritesAlike terminal other r next) (isDate : Prop) :
    MakeAlike first second terminal other r isDate (constant made) (constant next) :=
  fun _ _ => .ok h

/-- Where both settings are asked for the same date they make the same of it. -/
theorem makeAlike_date {isDate : Prop} (h : isDate) :
    MakeAlike first second terminal other r isDate
      (.ofOptions fun options => (DateStyle.ofOptions first.zone options).map .date)
      (.ofOptions fun options => (DateStyle.ofOptions second.zone options).map .date) := by
  intro options hdates
  have hblind : (Factory.ofOptions fun options =>
      (DateStyle.ofOptions second.zone options).map .date).BlindTo terminal other :=
    Factory.blindTo_ofOptions fun _ => not_false
  show EndsAlike _
    (((DateStyle.ofOptions first.zone options).map Converter.date).mapError OptionError.report) _
  rw [hdates h]
  exact .refl fun made hmade => hblind options made hmade r

/-- The two marks and the dates take what they need from the settings; the others take nothing. -/
theorem directiveTable_corresponds (h : ColorsAlike first second terminal other r) :
    TokenTable.Corresponds
      (fun token => MakeAlike first second terminal other r (token ∈ dateTokens))
      (directiveTable first) (directiveTable second) := by
  have hblind : ∀ {tokens : List String} {factory : Factory}, factory.BlindTo terminal other →
      GroupsAlike first second terminal other r (tokens, factory) (tokens, factory) :=
    fun hfactory => ⟨rfl, fun _ _ => hfactory.makeAlike _⟩
  have hconstant : ∀ {tokens : List String} {converter : Converter}, ¬ converter.IsColorMark →
      GroupsAlike first second terminal other r (tokens, .constant converter)
        (tokens, .constant converter) :=
    fun hmark => hblind (Factory.blindTo_constant hmark)
  have hproperties : Factory.BlindTo terminal other
      fun options => .ok (.properties options.head?) := by
    intro options made hmade
    cases hmade
    exact fun _ => Converter.writesAlike_self not_false
  have hstart : Converter.WritesAlike terminal other r
      (.colorStart first.colors first.noColor) (.colorStart second.colors second.noColor) :=
    Converter.IsBuiltIn.writesAlike trivial trivial h.start
  have hfinish : Converter.WritesAlike terminal other r
      (.colorEnd first.noColor) (.colorEnd second.noColor) :=
    Converter.IsBuiltIn.writesAlike trivial trivial h.finish
  have hgroups : List.Forall₂ (GroupsAlike first second terminal other r) (directives first)
      (directives second) := by
    unfold directives
    simp only [List.forall₂_cons]
    exact ⟨hblind (Factory.blindTo_ofOptions fun _ => not_false),
      hblind (Factory.blindTo_ofOptions fun _ => not_false),
      hconstant not_false, hconstant not_false, hconstant not_false, hconstant not_false,
      hconstant not_false, hconstant not_false, hconstant not_false,
      hblind (Factory.blindTo_ofOptions fun _ => not_false),
      hconstant not_false, hconstant not_false, hconstant not_false, hblind hproperties,
      ⟨rfl, fun _ htoken => makeAlike_date htoken⟩,
      ⟨rfl, fun _ _ => Factory.makeAlike_constant hstart _⟩,
      ⟨rfl, fun _ _ => Factory.makeAlike_constant hfinish _⟩, .nil⟩
  exact TokenTable.corresponds_empty.bindAll hgroups

/-! ## Patterns -/

/-- The directive is the built-in one for dates: its token is not the user's. -/
def IsBuiltInDate (bindings : TokenTable Factory) (d : Directive Factory) : Prop :=
  String.ofList d.token ∈ dateTokens ∧ bindings.get? (String.ofList d.token) = none

namespace Layout

variable {bindings : TokenTable Factory}

/-- A token of the user is bound to one factory under both settings. -/
theorem layeredTable_corresponds (hcolors : ColorsAlike first second terminal other r)
    (hbindings : bindings.BlindTo terminal other) :
    TokenTable.Corresponds
      (fun token => MakeAlike first second terminal other r
        (token ∈ dateTokens ∧ bindings.get? token = none))
      (layeredTable first bindings) (layeredTable second bindings) := by
  intro token
  unfold layeredTable
  rw [TokenTable.get?_extend, TokenTable.get?_extend]
  cases hbound : bindings.get? token with
  | some factory =>
    rw [Option.some_or, Option.some_or]
    exact .some ((hbindings token factory hbound).makeAlike _)
  | none =>
    rw [Option.none_or, Option.none_or]
    have htoken := directiveTable_corresponds hcolors token
    generalize (directiveTable first).get? token = found at htoken ⊢
    generalize (directiveTable second).get? token = next at htoken ⊢
    cases htoken with
    | none => exact .none
    | some hmake =>
      exact .some fun options hdates => hmake options fun hdate => hdates ⟨hdate, hbound⟩

/-- Under two settings and on two terminals a pattern compiles alike and renders a record to the
same text, if the marks of the record's colour come to the same, the user's converters do not tell
the terminals apart, and the dates that compilation gets to are the same under both. -/
theorem compile_layeredTable_endsAlike (pattern : String)
    (hcolors : ColorsAlike first second terminal other r)
    (hbindings : bindings.BlindTo terminal other)
    (hdates : ∀ d, Recognized (layeredTable first bindings) pattern.toList d →
      IsBuiltInDate bindings d →
      DateStyle.ofOptions first.zone d.options.options =
        DateStyle.ofOptions second.zone d.options.options) :
    EndsAlike (Compiled.RendersAlike terminal other r)
      (compile (layeredTable first bindings) pattern)
      (compile (layeredTable second bindings) pattern) := by
  have hanswers : ∀ l ∈ lookups (layeredTable first bindings) pattern.toList,
      l.AnswersAlike (Converter.WritesAlike terminal other r) (layeredTable first bindings)
        (layeredTable second bindings) := by
    intro l hl
    have hmatch := (layeredTable_corresponds hcolors hbindings).longestMatch? l.word
    unfold Lookup.AnswersAlike
    cases hfound : (layeredTable first bindings).longestMatch? l.word with
    | none =>
      rw [hfound] at hmatch
      generalize (layeredTable second bindings).longestMatch? l.word = next at hmatch ⊢
      cases hmatch
      exact .none
    | some found =>
      obtain ⟨token, factory⟩ := found
      -- the directive that the look-up is for is one that compilation gets to
      obtain ⟨m, hrecognized⟩ := Pattern.exists_recognized hl hfound
      rw [hfound] at hmatch
      generalize (layeredTable second bindings).longestMatch? l.word = next at hmatch ⊢
      cases hmatch with
      | some hnext =>
        refine .some ⟨hnext.1, ?_⟩
        dsimp only
        rw [String.toList_ofList]
        exact hnext.2 _ fun hdate => hdates _ hrecognized hdate
  have hends := Pattern.compile_endsAlike
    (fun text => Converter.writesAlike_self not_false)
    (Pattern.correspond_scan hanswers)
  exact hends.mono fun _ _ h => h.rendersAlike

end Layout

end LogLayout
