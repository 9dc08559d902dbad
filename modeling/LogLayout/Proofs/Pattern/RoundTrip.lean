import LogLayout.Proofs.Pattern.Assembly
import LogLayout.Proofs.Pattern.Printer

/-!
# Compiling what was printed

Compilation undoes printing: a printed pattern compiles to one link for each entry. What a piece
takes depends on the text behind it, so the pieces are found from the last entry to the first, and
each is shown to stand before whatever was printed after it.

Results:
1. `directive_stands`: a printed directive is one piece, whatever stands behind it.
2. `exists_cut_print`: the pieces and the chain of a printed pattern.
3. At the end of the file: the round trip, without warnings.
-/

namespace LogLayout.Pattern

open LogLayout.Fitting (Specifier)

variable {table : TokenTable Factory}

namespace Entry

/-- The entry is a literal. -/
def IsLiteral : Entry → Prop
  | .literal _ => True
  | .directive .. => False

/-- The entry can be printed for a table: a literal has some text, and a directive a bound name of
letters, widths in range, and options that its factory accepts and that are not taken for none. -/
def Printable (table : TokenTable Factory) : Entry → Prop
  | .literal text => text ≠ ""
  | .directive token specifier options =>
    token ≠ "" ∧ (∀ c ∈ token.toList, c.isAlpha) ∧
      (∀ width ∈ specifier.minWidth, width ≤ widthLimit) ∧
      (∀ limit ∈ specifier.limit, limit.width ≤ widthLimit) ∧
      options ≠ [""] ∧
      ∃ factory converter, table.get? token = some factory ∧ factory options = .ok converter

/-- The link is that of the entry: its text with the default specifier, or what the factory of its
name makes of its options, with its specifier. -/
def Yields (table : TokenTable Factory) : Entry → Link → Prop
  | .literal text, link => link = ⟨.literal text, {}⟩
  | .directive token specifier options, link =>
    ∃ factory converter, table.get? token = some factory ∧ factory options = .ok converter ∧
      link = ⟨converter, specifier⟩

end Entry

/-! ## Printed literals -/

/-- The pieces of a printed literal. -/
def literalPieces (text : List Char) : List (Piece Factory) :=
  text.map fun c => if c = '%' then .percent else .plain c

theorem cut_literalPieces {rest : List Char} {pieces : List (Piece Factory)}
    (h : Cut table rest pieces) (text : List Char) :
    Cut table ((text.flatMap fun c => if c = '%' then ['%', '%'] else [c]) ++ rest)
      (literalPieces text ++ pieces) := by
  induction text with
  | nil => exact h
  | cons c text ih =>
    unfold literalPieces
    rw [List.flatMap_cons, List.map_cons, List.append_assoc, List.cons_append]
    by_cases hc : c = '%'
    · rw [if_pos hc, if_pos hc]
      exact .cons .percent ih
    · rw [if_neg hc, if_neg hc]
      exact .cons (.plain hc) ih

theorem literal?_literalPieces (text : List Char) :
    (literalPieces text).map Piece.literal? = (text.map fun c => [c]).map some := by
  unfold literalPieces
  rw [List.map_map, List.map_map]
  refine List.map_congr_left fun c _ => ?_
  by_cases hc : c = '%'
  · rw [Function.comp_apply, Function.comp_apply, if_pos hc, hc]
    rfl
  · rw [Function.comp_apply, Function.comp_apply, if_neg hc]
    rfl

theorem warnings_literalPieces {text : List Char} {piece : Piece Factory}
    (h : piece ∈ literalPieces text) (offset : Nat) : piece.warnings offset = [] := by
  obtain ⟨c, _, rfl⟩ := List.mem_map.mp h
  by_cases hc : c = '%'
  · rw [if_pos hc]
    rfl
  · rw [if_neg hc]
    rfl

/-! ## Printed directives -/

/-- The directive that an entry is printed as. -/
def printedDirective (token : String) (specifier : Specifier) (options : List String)
    (factory : Factory) : Directive Factory where
  modifiers := .ofSpecifier specifier
  token := token.toList
  value := factory
  options := .block (.ofOptions options)

theorem printedDirective_source (token : String) (specifier : Specifier) (options : List String)
    (factory : Factory) :
    (printedDirective token specifier options factory).source =
      (Entry.directive token specifier options).print := by
  unfold printedDirective Directive.source Entry.print
  rw [Modifiers.source_ofSpecifier]
  show '%' :: (_ ++ _ ++ (OptionBlock.ofOptions options).source) = _
  rw [OptionBlock.source_ofOptions]

/-- The brace ends the name and the modifiers do not reach into it, so the whole name is the longest
match. -/
theorem directive_stands {token : String} {factory : Factory} (hne : token ≠ "")
    (htoken : ∀ c ∈ token.toList, c.isAlpha) (hbound : table.get? token = some factory)
    (specifier : Specifier) (options : List String) (rest : List Char) :
    Piece.Stands table (.directive (printedDirective token specifier options factory)) rest := by
  have hnil : token.toList ≠ [] := fun h => hne (String.toList_eq_nil_iff.mp h)
  have hsplit : (OptionPart.block (.ofOptions options)).source ++ rest =
      [] ++ ((OptionPart.block (.ofOptions options)).source ++ rest) := rfl
  refine .directive ?_ hsplit ⟨?_, ?_⟩ ⟨hnil, ?_, ?_, ?_⟩
    (.block (OptionBlock.wellFormed_ofOptions options))
  · have hread := Modifiers.read_append (Modifiers.wellFormed_ofSpecifier specifier)
      (stopsModifiers_of_isAlpha hnil htoken
        ((OptionPart.block (.ofOptions options)).source ++ rest))
    exact (Modifiers.read_eq_iff.mp hread).2
  · intro c hc
    rw [List.append_nil] at hc
    exact htoken c hc
  · intro c hc
    obtain rfl : '{' = c := Option.some.inj hc
    decide
  · exact List.prefix_append _ _
  · show table.get? (String.ofList token.toList) = some factory
    rw [String.ofList_toList]
    exact hbound
  · intro longer hlonger hlt
    have hle := hlonger.length_le
    rw [List.append_nil] at hle
    exact absurd hlt (Nat.not_lt.mpr hle)

theorem printedDirective_warnings {specifier : Specifier}
    (hmin : ∀ width ∈ specifier.minWidth, width ≤ widthLimit)
    (hmax : ∀ limit ∈ specifier.limit, limit.width ≤ widthLimit) (token : String)
    (options : List String) (factory : Factory) (offset : Nat) :
    (Piece.directive (printedDirective token specifier options factory)).warnings offset = [] := by
  show Modifiers.warnings _ (.ofSpecifier specifier) ++ [] = []
  rw [Modifiers.warnings_ofSpecifier hmin hmax, List.append_nil]

/-! ## Printed patterns -/

theorem warningsOf_eq_nil {pieces : List (Piece Factory)}
    (h : ∀ piece ∈ pieces, ∀ offset, piece.warnings offset = []) (offset : Nat) :
    warningsOf offset pieces = [] := by
  induction pieces generalizing offset with
  | nil => rfl
  | cons piece pieces ih =>
    unfold warningsOf
    rw [h piece List.mem_cons_self, ih fun piece hpiece => h piece (List.mem_cons_of_mem _ hpiece)]
    rfl

theorem exists_cut_print {entries : List Entry}
    (hprintable : ∀ entry ∈ entries, entry.Printable table)
    (hapart : entries.IsChain fun first second => ¬(first.IsLiteral ∧ second.IsLiteral)) :
    ∃ pieces chain, Cut table (entries.flatMap Entry.print) pieces ∧ Assembled pieces chain ∧
      List.Forall₂ (Entry.Yields table) entries chain ∧
      (∀ piece ∈ pieces, ∀ offset, piece.warnings offset = []) ∧
      ((∀ entry, entries.head? = some entry → ¬entry.IsLiteral) →
        ∀ piece, pieces.head? = some piece → piece.literal? = none) := by
  induction entries with
  | nil =>
    refine ⟨[], [], .nil, .nil, .nil, fun piece hpiece => ?_, fun _ piece hpiece => ?_⟩
    · cases hpiece
    · cases hpiece
  | cons entry entries ih =>
    obtain ⟨hnext, hapart⟩ := List.isChain_cons.mp hapart
    obtain ⟨pieces, chain, hcut, hassembled, hyields, hwarnings, hhead⟩ :=
      ih (fun entry hentry => hprintable entry (List.mem_cons_of_mem _ hentry)) hapart
    have hentry := hprintable entry List.mem_cons_self
    rw [List.flatMap_cons]
    cases entry with
    | literal text =>
      -- the next entry is a directive, so the run of literal pieces ends here
      have hrest := hhead fun next hfirst hliteral => hnext next hfirst ⟨trivial, hliteral⟩
      have hne : literalPieces text.toList ≠ [] := by
        intro hnil
        exact hentry (String.toList_eq_nil_iff.mp (List.map_eq_nil_iff.mp hnil))
      refine ⟨literalPieces text.toList ++ pieces, _, cut_literalPieces hcut text.toList,
        .literal hne (literal?_literalPieces _) hrest hassembled, .cons ?_ hyields, ?_, ?_⟩
      · show Link.mk _ _ = _
        rw [← List.flatMap_def, List.flatMap_singleton', String.ofList_toList]
      · intro piece hpiece
        rcases List.mem_append.mp hpiece with hpiece | hpiece
        · exact warnings_literalPieces hpiece
        · exact hwarnings piece hpiece
      · exact fun hfirst => absurd trivial (hfirst (.literal text) rfl)
    | directive token specifier options =>
      obtain ⟨hne, htoken, hmin, hmax, hoptions, factory, converter, hbound, hmade⟩ := hentry
      have hvalue : factory (OptionBlock.ofOptions options).options = .ok converter := by
        rw [OptionBlock.options_ofOptions hoptions]
        exact hmade
      have hstands := directive_stands hne htoken hbound specifier options
        (entries.flatMap Entry.print)
      refine ⟨.directive (printedDirective token specifier options factory) :: pieces,
        ⟨converter, (Modifiers.ofSpecifier specifier).specifier⟩ :: chain, ?_,
        .directive hvalue hassembled, .cons ?_ hyields, ?_, ?_⟩
      · rw [← printedDirective_source token specifier options factory]
        exact .cons hstands hcut
      · refine ⟨factory, converter, hbound, hmade, ?_⟩
        rw [Modifiers.specifier_ofSpecifier hmin hmax]
      · intro piece hpiece
        rcases List.mem_cons.mp hpiece with rfl | hpiece
        · exact printedDirective_warnings hmin hmax token options factory
        · exact hwarnings piece hpiece
      · intro _ piece hpiece
        cases hpiece
        rfl

/-- Compilation undoes printing. Print a list of entries, no two literals next to each other, each
of them printable for a table: the pattern compiles without a warning, to one link for each entry in
order. -/
theorem compile_printPattern {entries : List Entry}
    (hprintable : ∀ entry ∈ entries, entry.Printable table)
    (hapart : entries.IsChain fun first second => ¬(first.IsLiteral ∧ second.IsLiteral)) :
    ∃ chain, compile table (printPattern entries) = .ok ⟨chain, []⟩ ∧
      List.Forall₂ (Entry.Yields table) entries chain := by
  obtain ⟨pieces, chain, hcut, hassembled, hyields, hwarnings, _⟩ :=
    exists_cut_print hprintable hapart
  refine ⟨chain, compile_eq_ok_iff.mpr ⟨pieces, ?_, hassembled, ?_⟩, hyields⟩
  · unfold printPattern
    rw [String.toList_ofList]
    exact hcut
  · exact (warningsOf_eq_nil hwarnings 0).symm

/-- Two entries, with options that need backslashes. -/
theorem message_entries_compile_printPattern :
    printPattern [.literal "50%", .directive "m" ⟨some 3, .left, some ⟨10, .tail⟩⟩ ["a,\x7d", ""]] =
        "50%%%-3.10m\x7ba\\,\\\x7d,\x7d" ∧
      ∃ link,
        compile (TokenTable.empty.bind ["m"] (.constant .message))
            (printPattern
              [.literal "50%", .directive "m" ⟨some 3, .left, some ⟨10, .tail⟩⟩ ["a,\x7d", ""]]) =
          .ok ⟨[⟨.literal "50%", {}⟩, link], []⟩ ∧
        Entry.Yields (TokenTable.empty.bind ["m"] (.constant .message))
          (.directive "m" ⟨some 3, .left, some ⟨10, .tail⟩⟩ ["a,\x7d", ""]) link := by
  have hbound : (TokenTable.empty.bind ["m"] (Factory.constant .message)).get? "m" =
      some (.constant .message) := by cbv
  have hliteral : (Entry.literal "50%").Printable
      (TokenTable.empty.bind ["m"] (.constant .message)) := by
    show "50%" ≠ ""
    decide
  have hdirective :
      (Entry.directive "m" ⟨some 3, .left, some ⟨10, .tail⟩⟩ ["a,\x7d", ""]).Printable
        (TokenTable.empty.bind ["m"] (.constant .message)) := by
    refine ⟨by decide, ?_, ?_, ?_, by decide, _, .message, hbound, rfl⟩
    · intro c hc
      obtain rfl := List.mem_singleton.mp hc
      rfl
    · rintro _ ⟨⟩
      decide
    · rintro _ ⟨⟩
      decide
  obtain ⟨chain, hcompile, hyields⟩ := compile_printPattern
    (List.forall_mem_cons.mpr ⟨hliteral, List.forall_mem_singleton.mpr hdirective⟩)
    (.cons_cons (fun h => h.2) (.singleton _))
  obtain ⟨first, rest, rfl, hrest, rfl⟩ := List.forall₂_cons_left_iff.mp hyields
  obtain ⟨link, rest, hlink, hnil, rfl⟩ := List.forall₂_cons_left_iff.mp hrest
  obtain rfl := List.forall₂_nil_left_iff.mp hnil
  exact ⟨by decide, link, hcompile, hlink⟩

end LogLayout.Pattern
