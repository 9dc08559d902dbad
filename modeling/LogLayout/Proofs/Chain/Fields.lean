import LogLayout.Proofs.Pattern.Assembly

/-!
# Each converter has its own field

A chain renders into one text that grows, and every specifier edits that text where it stands. As
long as the converters only add to it, no edit reaches further back than the field it is for, so
rendering puts fields that were made apart one behind the other.

Results:
1. `makesBuiltIn_of_directiveTable`: the built-in directives make converters of the library only,
   which are additive.
2. `Chain.formatInto_eq_append_join`: a chain of additive converters adds its fields in order,
   whatever it renders into.
3. `isAdditive_of_compile`: a pattern compiles to such a chain if the factories of the table make
   such converters.
-/

namespace LogLayout

open Fitting (Specifier)
open Palette (Terminal)

variable [Libraries] {terminal : Terminal} {r : Record}

/-- The converter only adds text, and what it adds does not depend on the text so far. -/
def Converter.IsAdditive (converter : Converter) : Prop :=
  ∀ (terminal : Terminal) (r : Record) (buffer : String),
    converter.write terminal r buffer = buffer ++ converter.write terminal r ""

/-- Every converter that the factory makes is additive. -/
def Factory.IsAdditive (factory : Factory) : Prop :=
  ∀ options converter, factory options = .ok converter → converter.IsAdditive

/-- Every factory of the table makes additive converters. -/
def TokenTable.IsAdditive (table : TokenTable Factory) : Prop :=
  ∀ token factory, table.get? token = some factory → factory.IsAdditive

/-! ## The built-in directives -/

theorem Converter.IsBuiltIn.isAdditive {converter : Converter} (h : converter.IsBuiltIn) :
    converter.IsAdditive := by
  intro terminal r buffer
  rw [write_eq_append h, write_eq_append h terminal r "", String.empty_append]

namespace Factory

/-- Every converter that the factory makes comes from the library. -/
def MakesBuiltIn (factory : Factory) : Prop :=
  ∀ options converter, factory options = .ok converter → converter.IsBuiltIn

omit [Libraries] in
theorem makesBuiltIn_constant {converter : Converter} (h : converter.IsBuiltIn) :
    (constant converter).MakesBuiltIn := by
  intro options made hmade
  cases hmade
  exact h

/-- A factory that reads its options for what goes into one kind of converter. -/
theorem makesBuiltIn_ofOptions {α : Type} {read : List String → Except OptionError α}
    {make : α → Converter} (h : ∀ a, (make a).IsBuiltIn) :
    (ofOptions fun options => (read options).map make).MakesBuiltIn := by
  intro options converter hmade
  unfold ofOptions at hmade
  dsimp only at hmade
  cases hread : read options with
  | ok a =>
    rw [hread] at hmade
    cases hmade
    exact h a
  | error problem =>
    rw [hread] at hmade
    cases hmade

theorem makesBuiltIn_directives (settings : Settings) :
    ∀ group ∈ directives settings, group.2.MakesBuiltIn := by
  have hproperties : MakesBuiltIn fun options => .ok (.properties options.head?) := by
    intro options converter hmade
    cases hmade
    trivial
  unfold directives
  simp only [List.forall_mem_cons]
  exact ⟨makesBuiltIn_ofOptions fun _ => trivial, makesBuiltIn_ofOptions fun _ => trivial,
    makesBuiltIn_constant trivial, makesBuiltIn_constant trivial, makesBuiltIn_constant trivial,
    makesBuiltIn_constant trivial, makesBuiltIn_constant trivial, makesBuiltIn_constant trivial,
    makesBuiltIn_constant trivial, makesBuiltIn_ofOptions fun _ => trivial,
    makesBuiltIn_constant trivial, makesBuiltIn_constant trivial, makesBuiltIn_constant trivial,
    hproperties, makesBuiltIn_ofOptions fun _ => trivial, makesBuiltIn_constant trivial,
    makesBuiltIn_constant trivial, fun _ h => absurd h List.not_mem_nil⟩

end Factory

theorem makesBuiltIn_of_directiveTable {settings : Settings} {token : String} {factory : Factory}
    (h : (directiveTable settings).get? token = some factory) : factory.MakesBuiltIn := by
  unfold directiveTable at h
  rw [TokenTable.get?_bindAll, TokenTable.get?_empty, Option.or_none] at h
  unfold TokenTable.lastBound? at h
  obtain ⟨group, hgroup, rfl⟩ := Option.map_eq_some_iff.mp h
  exact Factory.makesBuiltIn_directives settings group
    (List.mem_reverse.mp (List.mem_of_find?_eq_some hgroup))

/-- Bindings that the user puts over the built-in ones keep a table additive if they are. -/
theorem isAdditive_extend_directiveTable (settings : Settings) {bindings : TokenTable Factory}
    (h : bindings.IsAdditive) : ((directiveTable settings).extend bindings).IsAdditive := by
  intro token factory hfactory
  rw [TokenTable.get?_extend] at hfactory
  rcases Option.or_eq_some_iff.mp hfactory with huser | ⟨_, hbuiltIn⟩
  · exact h token factory huser
  · intro options converter hmade
    exact (makesBuiltIn_of_directiveTable hbuiltIn options converter hmade).isAdditive

/-! ## Fields -/

/-- The field of a converter alone: its text, fitted where nothing else stands. -/
def Link.field (terminal : Terminal) (r : Record) (link : Link) : String :=
  link.specifier.apply 0 (link.converter.write terminal r "")

theorem Link.field_eq (link : Link) :
    link.field terminal r =
      String.ofList (link.specifier.fit (link.converter.write terminal r "").toList) := by
  have happend := link.specifier.apply_append "" (link.converter.write terminal r "")
  rw [String.empty_append, String.empty_append] at happend
  exact happend

/-- The field behind a text is the field alone: the specifier reaches back to where the converter
began, and not further. -/
theorem Link.write_eq_append {link : Link} (h : link.converter.IsAdditive) (buffer : String) :
    link.write terminal r buffer = buffer ++ link.field terminal r := by
  unfold Link.write
  rw [h terminal r buffer, Specifier.apply_append, field_eq]

namespace Chain

variable {chain : Chain}

theorem formatInto_eq_append_join (h : ∀ link ∈ chain, link.converter.IsAdditive)
    (buffer : String) :
    chain.formatInto terminal r buffer =
      buffer ++ String.join (chain.map (Link.field terminal r)) := by
  unfold formatInto
  induction chain generalizing buffer with
  | nil => rw [List.foldl_nil, List.map_nil, String.join_nil, String.append_empty]
  | cons link chain ih =>
    obtain ⟨hlink, hchain⟩ := List.forall_mem_cons.mp h
    rw [List.foldl_cons, Link.write_eq_append hlink, ih hchain, List.map_cons, String.join_cons,
      String.append_assoc]

theorem format_eq_join (h : ∀ link ∈ chain, link.converter.IsAdditive) :
    chain.format terminal r = String.join (chain.map (Link.field terminal r)) := by
  unfold format
  rw [formatInto_eq_append_join h, String.empty_append]

end Chain

/-! ## Compiled chains -/

namespace Pattern

omit [Libraries] in
theorem directive_notMem_run {run : List (Piece Factory)} {texts : List (List Char)}
    (h : run.map Piece.literal? = texts.map some) (d : Directive Factory) :
    .directive d ∉ run := by
  intro hd
  have hnone : none ∈ texts.map some := by
    rw [← h]
    exact List.mem_map_of_mem (f := Piece.literal?) hd
  obtain ⟨_, _, hsome⟩ := List.mem_map.mp hnone
  cases hsome

/-- A chain is additive iff the converters of the directives in its pieces are. -/
theorem Assembled.isAdditive_iff {pieces : List (Piece Factory)} {chain : Chain}
    (h : Assembled pieces chain) :
    (∀ link ∈ chain, link.converter.IsAdditive) ↔
      ∀ d converter, .directive d ∈ pieces → d.value d.options.options = .ok converter →
        converter.IsAdditive := by
  induction h with
  | nil =>
    constructor
    · exact fun _ d converter hd => absurd hd List.not_mem_nil
    · exact fun _ link hlink => absurd hlink List.not_mem_nil
  | @directive first made pieces chain hvalue _ ih =>
    rw [List.forall_mem_cons, ih]
    constructor
    · rintro ⟨hfirst, hrest⟩ d converter hd hconverter
      rcases List.mem_cons.mp hd with hd | hd
      · cases hd
        obtain rfl := Except.ok.inj (hvalue.symm.trans hconverter)
        exact hfirst
      · exact hrest d converter hd hconverter
    · intro hall
      exact ⟨hall first made List.mem_cons_self hvalue,
        fun d converter hd => hall d converter (List.mem_cons_of_mem _ hd)⟩
  | @literal run pieces texts chain _ htexts _ _ ih =>
    rw [List.forall_mem_cons, ih]
    constructor
    · rintro ⟨_, hrest⟩ d converter hd
      rcases List.mem_append.mp hd with hd | hd
      · exact absurd hd (directive_notMem_run htexts d)
      · exact hrest d converter hd
    · intro hall
      exact ⟨Converter.IsBuiltIn.isAdditive trivial,
        fun d converter hd => hall d converter (List.mem_append_right run hd)⟩

theorem isAdditive_of_compile {table : TokenTable Factory} (htable : table.IsAdditive)
    {pattern : String} {compiled : Compiled} (h : compile table pattern = .ok compiled) :
    ∀ link ∈ compiled.chain, link.converter.IsAdditive := by
  obtain ⟨pieces, hcut, hassembled, _⟩ := compile_eq_ok_iff.mp h
  exact hassembled.isAdditive_iff.mpr fun d converter hd =>
    htable _ _ (hcut.get?_token hd) d.options.options converter

end Pattern

end LogLayout
