import LogLayout.Proofs.Pattern.Cut
import LogLayout.Proofs.Pattern.Parser.Outcome
import LogLayout.Proofs.Programs
import Mathlib

/-!
# From pieces to a chain

Compilation loses no text of a pattern, takes none twice and changes no order: the chain is put
together from the pieces of the one cut, each directive by its factory and each run of other pieces
as one literal.

Results:
1. `links_iff_assembled`: linking the items of pieces succeeds iff a chain can be put together from
   the pieces, and gives that chain.
2. `compile_eq_ok_iff`: what a pattern compiles to, without the scanner.
3. At the end of the file: the pattern is the texts of its pieces, and the chain is theirs.
-/

namespace LogLayout.Pattern

/-- The chain is put together from the pieces: a directive becomes what its factory makes of its
options, with its specifier, and a run of other pieces that ends at a directive or at the end
becomes one literal. -/
inductive Assembled : List (Piece Factory) → Chain → Prop where
  | nil : Assembled [] []
  | directive {d : Directive Factory} {converter : Converter} {pieces : List (Piece Factory)}
    {chain : Chain} :
    d.value d.options.options = .ok converter → Assembled pieces chain →
    Assembled (.directive d :: pieces) (⟨converter, d.modifiers.specifier⟩ :: chain)
  | literal {run pieces : List (Piece Factory)} {texts : List (List Char)} {chain : Chain} :
    run ≠ [] → run.map Piece.literal? = texts.map some →
    (∀ piece, pieces.head? = some piece → piece.literal? = none) → Assembled pieces chain →
    Assembled (run ++ pieces) (⟨.literal (String.ofList texts.flatten), {}⟩ :: chain)

namespace Item

variable {α : Type} {run pieces : List (Piece α)} {piece : Piece α} {text : List Char}
  {texts : List (List Char)} {offset : Nat}

/-! ## Runs of literal pieces -/

theorem consText_ofPieces (h : ∀ piece, pieces.head? = some piece → piece.literal? = none) :
    consText text (ofPieces offset pieces) = .text text :: ofPieces offset pieces := by
  cases pieces with
  | nil => rfl
  | cons piece pieces =>
    have hpiece := h piece rfl
    cases piece with
    | directive d => rfl
    | plain | percent | dangling | nameless | unknown => cases hpiece

theorem ofPieces_run (hrun : run ≠ []) (htexts : run.map Piece.literal? = texts.map some)
    (hpieces : ∀ piece, pieces.head? = some piece → piece.literal? = none) :
    ofPieces offset (run ++ pieces) =
      .text texts.flatten ::
        ofPieces (offset + Text.byteLength (run.flatMap Piece.source)) pieces := by
  induction run generalizing offset texts with
  | nil => exact absurd rfl hrun
  | cons piece run ih =>
    obtain ⟨text, texts, rfl⟩ : ∃ text rest, texts = text :: rest := by
      cases texts with
      | nil => cases htexts
      | cons text texts => exact ⟨text, texts, rfl⟩
    obtain ⟨hpiece, hrest⟩ := List.cons.inj htexts
    rw [List.cons_append, ofPieces_literal hpiece, List.flatten_cons, List.flatMap_cons,
      Text.byteLength_append, ← Nat.add_assoc]
    cases run with
    | nil =>
      -- the last piece of the run, with nothing literal behind it
      obtain rfl : texts = [] := by
        cases texts with
        | nil => rfl
        | cons _ _ => cases hrest
      simp only [List.nil_append, List.flatten_nil, List.append_nil, List.flatMap_nil,
        Text.byteLength_nil, Nat.add_zero]
      exact consText_ofPieces hpieces
    | cons next run =>
      rw [ih (List.cons_ne_nil _ _) hrest]
      rfl

/-- The literal pieces that pieces begin with. -/
theorem exists_run (pieces : List (Piece α)) :
    ∃ (run rest : List (Piece α)) (texts : List (List Char)), pieces = run ++ rest ∧
      run.map Piece.literal? = texts.map some ∧
      ∀ piece, rest.head? = some piece → piece.literal? = none := by
  induction pieces with
  | nil => exact ⟨[], [], [], rfl, rfl, fun _ h => by cases h⟩
  | cons piece pieces ih =>
    cases hpiece : piece.literal? with
    | none =>
      refine ⟨[], piece :: pieces, [], rfl, rfl, fun first hfirst => ?_⟩
      cases hfirst
      exact hpiece
    | some text =>
      obtain ⟨run, rest, texts, rfl, htexts, hrest⟩ := ih
      refine ⟨piece :: run, rest, text :: texts, rfl, ?_, hrest⟩
      rw [List.map_cons, List.map_cons, hpiece, htexts]

end Item

/-! ## Linking -/

theorem mapM_link_cons {item : Item Factory} {items : List (Item Factory)} {chain : Chain} :
    (item :: items).mapM Item.link = .ok chain ↔
      ∃ link links, item.link = .ok link ∧ items.mapM Item.link = .ok links ∧
        chain = link :: links := by
  rw [List.mapM_cons]
  show (item.link.bind fun link => (items.mapM Item.link).bind fun links =>
    .ok (link :: links)) = _ ↔ _
  rw [bind_eq_ok_iff]
  constructor
  · rintro ⟨link, hlink, hrest⟩
    obtain ⟨links, hlinks, he⟩ := bind_eq_ok_iff.mp hrest
    exact ⟨link, links, hlink, hlinks, (Except.ok.inj he).symm⟩
  · rintro ⟨link, links, hlink, hlinks, rfl⟩
    exact ⟨link, hlink, bind_eq_ok_iff.mpr ⟨links, hlinks, rfl⟩⟩

theorem link_directive {offset : Nat} {d : Directive Factory} {link : Link} :
    (Item.directive offset d).link = .ok link ↔
      ∃ converter, d.value d.options.options = .ok converter ∧
        link = ⟨converter, d.modifiers.specifier⟩ := by
  unfold Item.link
  dsimp only
  cases d.value d.options.options with
  | ok converter =>
    constructor
    · intro h
      cases h
      exact ⟨converter, rfl, rfl⟩
    · rintro ⟨_, h, rfl⟩
      cases h
      rfl
  | error cause =>
    constructor
    · intro h
      cases h
    · rintro ⟨_, h, _⟩
      cases h

theorem links_of_assembled {pieces : List (Piece Factory)} {chain : Chain}
    (h : Assembled pieces chain) (offset : Nat) :
    (Item.ofPieces offset pieces).mapM Item.link = .ok chain := by
  induction h generalizing offset with
  | nil => rfl
  | directive hvalue _ ih =>
    exact mapM_link_cons.mpr ⟨_, _, link_directive.mpr ⟨_, hvalue, rfl⟩, ih _, rfl⟩
  | literal hrun htexts hpieces _ ih =>
    rw [Item.ofPieces_run hrun htexts hpieces]
    exact mapM_link_cons.mpr ⟨_, _, rfl, ih _, rfl⟩

theorem assembled_of_links {pieces : List (Piece Factory)} {chain : Chain} {offset : Nat}
    (h : (Item.ofPieces offset pieces).mapM Item.link = .ok chain) : Assembled pieces chain := by
  cases pieces with
  | nil =>
    cases h
    exact .nil
  | cons piece pieces =>
    cases hpiece : piece.literal? with
    | some text =>
      -- the whole run that begins here goes into one literal
      obtain ⟨run, rest, texts, rfl, htexts, hrest⟩ := Item.exists_run pieces
      have hrun : (piece :: run).map Piece.literal? = (text :: texts).map some := by
        rw [List.map_cons, List.map_cons, hpiece, htexts]
      rw [← List.cons_append, Item.ofPieces_run (List.cons_ne_nil _ _) hrun hrest] at h
      obtain ⟨link, links, hlink, hlinks, rfl⟩ := mapM_link_cons.mp h
      cases hlink
      exact .literal (List.cons_ne_nil piece run) hrun hrest (assembled_of_links hlinks)
    | none =>
      cases piece with
      | directive d =>
        obtain ⟨link, links, hlink, hlinks, rfl⟩ := mapM_link_cons.mp h
        obtain ⟨converter, hvalue, rfl⟩ := link_directive.mp hlink
        exact .directive hvalue (assembled_of_links hlinks)
      | plain | percent | dangling | nameless | unknown => cases hpiece
termination_by pieces.length
decreasing_by
  · subst_vars
    exact Nat.lt_succ_self _
  · subst_vars
    simp only [List.length_cons, List.length_append]
    omega

theorem links_iff_assembled {pieces : List (Piece Factory)} {chain : Chain} (offset : Nat) :
    (Item.ofPieces offset pieces).mapM Item.link = .ok chain ↔ Assembled pieces chain :=
  ⟨assembled_of_links, fun h => links_of_assembled h offset⟩

/-! ## Compiling -/

theorem compile_eq_ok_iff {table : TokenTable Factory} {pattern : String} {compiled : Compiled} :
    compile table pattern = .ok compiled ↔
      ∃ pieces, Cut table pattern.toList pieces ∧ Assembled pieces compiled.chain ∧
        compiled.warnings = warningsOf 0 pieces := by
  rw [compile_eq, map_eq_ok_iff]
  simp only [cut_iff_scan, exists_eq_left, ← links_iff_assembled 0]
  constructor
  · rintro ⟨chain, hchain, rfl⟩
    exact ⟨hchain, rfl⟩
  · rintro ⟨hchain, hwarnings⟩
    exact ⟨compiled.chain, hchain, by rw [← hwarnings]⟩

/-- Compilation neither loses nor repeats nor moves text. If a pattern compiles, there is exactly
one list of pieces that it is cut into; their texts in order are the pattern; and the chain is the
one that is put together from them. -/
theorem compile_lossless {table : TokenTable Factory} {pattern : String} {compiled : Compiled}
    (h : compile table pattern = .ok compiled) :
    ∃ pieces, Cut table pattern.toList pieces ∧
      (∀ others, Cut table pattern.toList others → others = pieces) ∧
      pieces.flatMap Piece.source = pattern.toList ∧
      Assembled pieces compiled.chain ∧
      ∀ other, Assembled pieces other → other = compiled.chain := by
  obtain ⟨pieces, hcut, hchain, _⟩ := compile_eq_ok_iff.mp h
  refine ⟨pieces, hcut, fun others hothers => ?_, hcut.source, hchain, fun other hother => ?_⟩
  · rw [cut_iff_scan.mp hothers, cut_iff_scan.mp hcut]
  · have hlinks := links_of_assembled hother 0
    rw [links_of_assembled hchain 0] at hlinks
    exact (Except.ok.inj hlinks).symm

/-- Text around a directive, and behind an unknown name a brace that is never closed. -/
theorem message_pattern_compile_lossless :
    ∃ pieces, Cut (TokenTable.empty.bind ["m"] (.constant .message)) "100%% %-3mx%q\x7b%".toList
        pieces ∧
      pieces.flatMap Piece.source = "100%% %-3mx%q\x7b%".toList ∧
      Assembled pieces
        [⟨.literal "100% ", {}⟩, ⟨.message, { minWidth := some 3, justification := .left }⟩,
          ⟨.literal "x%q\x7b%", {}⟩] := by
  have hcompile :
      compile (TokenTable.empty.bind ["m"] (.constant .message)) "100%% %-3mx%q\x7b%" =
        .ok ⟨[⟨.literal "100% ", {}⟩,
            ⟨.message, { minWidth := some 3, justification := .left }⟩,
            ⟨.literal "x%q\x7b%", {}⟩],
          [⟨13, .unterminatedBlock⟩, ⟨11, .unknownName ['q']⟩, ⟨14, .danglingPercent⟩]⟩ := by
    rw [compile_eq]
    cbv
  obtain ⟨pieces, hcut, _, hsource, hchain, _⟩ := compile_lossless hcompile
  exact ⟨pieces, hcut, hsource, hchain⟩

end LogLayout.Pattern
