import LogLayout.Bundled
import LogLayout.Proofs.Chain.Fields
import LogLayout.Proofs.Layout.Coherence

/-!
# What a layout writes

Whatever is there already, a layout adds the same text for a record: the fields of its chain, each
made apart. This rests on the user's converters being additive, which changes of a layout keep up as
long as they register only such converters.

Results:
1. `isAdditive_run`: the chain of a layout stays additive along a run.
2. `fromUTF8?_formatBytes`: the bytes of a record are the UTF-8 form of its text.
3. At the end of the file: built-in converters, compiled chains and layouts render field by field.
-/

namespace LogLayout

open Palette (Terminal)

/-- A change that registers a factory registers an additive one. -/
def Change.IsAdditive [Libraries] : Change → Prop
  | .register _ factory => factory.IsAdditive
  | _ => True

theorem TokenTable.IsAdditive.bind [Libraries] {bindings : TokenTable Factory} {factory : Factory}
    (h : bindings.IsAdditive) (hfactory : factory.IsAdditive) (tokens : List String) :
    (bindings.bind tokens factory).IsAdditive := by
  intro token found hfound
  rw [TokenTable.get?_bind] at hfound
  split at hfound
  · obtain rfl := Option.some.inj hfound
    exact hfactory
  · exact h token found hfound

/-! ## Bytes -/

theorem toList_loop_eq (bytes : ByteArray) (i : Nat) (read : List UInt8) :
    ByteArray.toList.loop bytes i read = read.reverse ++ bytes.data.toList.drop i := by
  fun_induction ByteArray.toList.loop bytes i read with
  | case1 i read hi ih =>
    have hlength : i < bytes.data.toList.length := hi
    have hget : bytes.get! i = bytes.data.toList[i] := getElem!_pos bytes.data i hi
    rw [ih, List.reverse_cons, List.append_assoc, List.singleton_append, hget,
      ← List.drop_eq_getElem_cons hlength]
  | case2 i read hi =>
    have hlength : bytes.data.toList.length ≤ i := Nat.le_of_not_lt hi
    rw [List.drop_of_length_le hlength, List.append_nil]

/-- The list of the bytes makes up the array again. -/
theorem toByteArray_toList (bytes : ByteArray) : bytes.toList.toByteArray = bytes := by
  refine ByteArray.ext (Array.toList_inj.mp ?_)
  rw [List.toList_data_toByteArray]
  unfold ByteArray.toList
  rw [toList_loop_eq, List.reverse_nil, List.nil_append, List.drop_zero]

namespace Layout

section

variable [Libraries] {config : LayoutConfig} {layout built : Layout} {c : Change}

theorem fromUTF8?_formatBytes (layout : Layout) (terminal : Terminal) (r : Record) :
    String.fromUTF8? (layout.formatBytes terminal r).toByteArray =
      some (layout.format terminal r) := by
  unfold formatBytes
  rw [toByteArray_toList]
  exact dif_pos (layout.format terminal r).isValidUTF8

/-! ## Additive layouts -/

theorem isAdditive_layeredTable (settings : Settings) {bindings : TokenTable Factory}
    (h : bindings.IsAdditive) : (layeredTable settings bindings).IsAdditive :=
  isAdditive_extend_directiveTable settings h

theorem isAdditive_bindings_perform (h : layout.Coherent) (hbindings : layout.bindings.IsAdditive)
    (hc : c.IsAdditive) : (layout.perform c).1.bindings.IsAdditive := by
  cases ha : layout.attempt c with
  | error e =>
    rw [perform_of_error ha]
    exact hbindings
  | ok reached =>
    rw [perform_of_ok ha]
    obtain ⟨_, hconfig, _⟩ := attempt_eq_ok h ha
    have hreached : reached.bindings = (layout.toConfig.after [c]).bindings :=
      congrArg LayoutConfig.bindings hconfig
    rw [hreached]
    cases c with
    | setPattern pattern | setOption option value => exact hbindings
    | register tokens factory => exact hbindings.bind hc tokens

theorem isAdditive_bindings_run (h : layout.Coherent) (hbindings : layout.bindings.IsAdditive)
    {changes : List Change} (hchanges : ∀ c ∈ changes, c.IsAdditive) :
    (layout.run changes).bindings.IsAdditive := by
  induction changes generalizing layout with
  | nil => exact hbindings
  | cons c changes ih =>
    obtain ⟨hc, hchanges⟩ := List.forall_mem_cons.mp hchanges
    exact ih (coherent_perform h c) (isAdditive_bindings_perform h hbindings hc) hchanges

/-- A coherent layout compiled its chain with a table that its bindings are layered into. -/
theorem isAdditive_chain (h : layout.Coherent) (hbindings : layout.bindings.IsAdditive) :
    ∀ link ∈ layout.chain, link.converter.IsAdditive := by
  have hcompile := h.compiled
  rw [compileGiven_eq, mapError_eq_ok_iff, h.layered] at hcompile
  exact Pattern.isAdditive_of_compile (isAdditive_layeredTable layout.settings hbindings) hcompile

theorem isAdditive_run (hb : build config = .ok built) (hbindings : config.bindings.IsAdditive)
    {changes : List Change} (hchanges : ∀ c ∈ changes, c.IsAdditive) :
    ∀ link ∈ (built.run changes).chain, link.converter.IsAdditive := by
  obtain ⟨hbuilt, hconfig, _⟩ := build_eq_ok_iff.mp hb
  have hgiven : built.bindings = config.bindings := congrArg LayoutConfig.bindings hconfig
  rw [← hgiven] at hbindings
  exact isAdditive_chain (coherent_run hbuilt changes)
    (isAdditive_bindings_run hbuilt hbindings hchanges)

/-- Rendering is additive and keeps to the fields. A built-in converter adds its text, whatever is
there already. With additive converters of the user over the built-in ones a table is additive. A
chain that a pattern compiles to with an additive table adds the fields of its links in order, each
the text of its converter alone, fitted where nothing else stands. And a layout, after any run of
changes that register additive converters only, adds what it formats, which is the fields of its
chain, and whose UTF-8 form its bytes are. -/
theorem rendering_adds_fields (hbindings : config.bindings.IsAdditive) :
    (∀ token factory options converter,
      (directiveTable config.settings).get? token = some factory →
      factory options = .ok converter →
      ∀ terminal r buffer,
        converter.write terminal r buffer = buffer ++ converter.text terminal r) ∧
    (layeredTable config.settings config.bindings).IsAdditive ∧
    (∀ table pattern compiled, TokenTable.IsAdditive table →
      Pattern.compile table pattern = .ok compiled →
      ∀ terminal r buffer,
        compiled.chain.formatInto terminal r buffer =
          buffer ++ String.join (compiled.chain.map fun link =>
            link.specifier.apply 0 (link.converter.write terminal r ""))) ∧
    ∀ built, build config = .ok built → ∀ changes : List Change, (∀ c ∈ changes, c.IsAdditive) →
      ∀ terminal r buffer,
        (built.run changes).formatInto terminal r buffer =
          buffer ++ (built.run changes).format terminal r ∧
        (built.run changes).format terminal r =
          String.join ((built.run changes).chain.map fun link =>
            link.specifier.apply 0 (link.converter.write terminal r "")) ∧
        String.fromUTF8? ((built.run changes).formatBytes terminal r).toByteArray =
          some ((built.run changes).format terminal r) := by
  refine ⟨fun token factory options converter hbound hmade terminal r buffer => ?_,
    isAdditive_layeredTable config.settings hbindings,
    fun table pattern compiled htable hcompile terminal r buffer => ?_,
    fun built hb changes hchanges terminal r buffer => ?_⟩
  · exact Converter.write_eq_append
      (makesBuiltIn_of_directiveTable hbound options converter hmade) terminal r buffer
  · exact Chain.formatInto_eq_append_join (Pattern.isAdditive_of_compile htable hcompile) buffer
  · have hadditive := isAdditive_run hb hbindings hchanges
    have hformat : (built.run changes).format terminal r =
        String.join ((built.run changes).chain.map (Link.field terminal r)) :=
      Chain.format_eq_join hadditive
    refine ⟨?_, hformat, fromUTF8?_formatBytes _ terminal r⟩
    rw [hformat]
    exact Chain.formatInto_eq_append_join hadditive buffer

end

/-- The bindings of a user whose directive adds the name of a host. -/
def hostBindings : TokenTable Factory :=
  .bind .empty ["host"] (.constant (.custom ⟨"HostName", fun _ buffer => buffer ++ "db-01"⟩))

/-- A field filled up on its right, one cut on its left, and a directive that is replaced. -/
theorem host_rendering_adds_fields :
    ∃ built, build { pattern := "%-5p|%.2host %m", bindings := hostBindings } = .ok built ∧
      ∀ terminal buffer,
        (built.run [.register ["m"] (.constant (.literal "redacted"))]).formatInto terminal {}
          buffer = buffer ++ "INFO |01 redacted" := by
  have hbindings : hostBindings.IsAdditive := by
    refine TokenTable.IsAdditive.bind (fun token factory h => ?_) (fun options converter h => ?_) _
    · rw [TokenTable.get?_empty] at h
      cases h
    · cases h
      intro terminal r buffer
      show buffer ++ "db-01" = buffer ++ ("" ++ "db-01")
      rw [String.empty_append]
  have hregistered : ∀ c ∈ [Change.register ["m"] (.constant (.literal "redacted"))],
      c.IsAdditive := by
    refine List.forall_mem_singleton.mpr fun options converter h => ?_
    cases h
    exact Converter.IsBuiltIn.isAdditive trivial
  have hcompiled : compileGiven (layeredTable {} hostBindings) "%-5p|%.2host %m" =
      .ok ⟨[⟨.level false, { minWidth := some 5, justification := .left }⟩, ⟨.literal "|", {}⟩,
        ⟨.custom ⟨"HostName", fun _ buffer => buffer ++ "db-01"⟩, { limit := some ⟨2, .tail⟩ }⟩,
        ⟨.literal " ", {}⟩, ⟨.message, {}⟩], []⟩ := by
    rw [compileGiven_eq, Pattern.compile_eq]
    cbv
  have hrecompiled : compileGiven
      (layeredTable {} (hostBindings.bind ["m"] (.constant (.literal "redacted"))))
      "%-5p|%.2host %m" =
        .ok ⟨[⟨.level false, { minWidth := some 5, justification := .left }⟩, ⟨.literal "|", {}⟩,
          ⟨.custom ⟨"HostName", fun _ buffer => buffer ++ "db-01"⟩, { limit := some ⟨2, .tail⟩ }⟩,
          ⟨.literal " ", {}⟩, ⟨.literal "redacted", {}⟩], []⟩ := by
    rw [compileGiven_eq, Pattern.compile_eq]
    cbv
  obtain ⟨built, hb⟩ :
      ∃ built, build { pattern := "%-5p|%.2host %m", bindings := hostBindings } = .ok built := by
    rw [build_eq, hcompiled]
    exact ⟨_, rfl⟩
  obtain ⟨_, hconfig, _⟩ := build_eq_ok_iff.mp hb
  have hpattern : built.pattern = "%-5p|%.2host %m" := congrArg LayoutConfig.pattern hconfig
  have hsettings : built.settings = {} := congrArg LayoutConfig.settings hconfig
  have hgiven : built.bindings = hostBindings := congrArg LayoutConfig.bindings hconfig
  have hperform := perform_eq built (.register ["m"] (.constant (.literal "redacted")))
  simp only [attempt, reconfigured, hpattern, hsettings, hgiven, hrecompiled, Except.map]
    at hperform
  refine ⟨built, hb, fun terminal buffer => ?_⟩
  obtain ⟨_, _, _, hlayouts⟩ :=
    @rendering_adds_fields _ { pattern := "%-5p|%.2host %m", bindings := hostBindings } hbindings
  obtain ⟨hinto, hformat, _⟩ := hlayouts built hb _ hregistered terminal {} buffer
  rw [hinto, hformat]
  show buffer ++ String.join ((built.perform _).1.chain.map _) = _
  rw [hperform]
  cbv

end Layout

end LogLayout
