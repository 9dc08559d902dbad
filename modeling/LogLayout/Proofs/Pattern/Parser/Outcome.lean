import LogLayout.Pattern.Compile
import LogLayout.Pattern.Item
import LogLayout.Proofs.Pattern.Parser.Turns

/-!
# What the parser leaves behind

The chain of the parser and the literal text that is waiting are those of the items that it has gone
over. So the parser comes to what the pieces of the pattern say: the links of their items, and their
warnings.

Results:
1. `outcome_absorbAll`: what the parser leaves behind when it has taken pieces.
2. `compile_eq`: what a pattern compiles to, without the parser.
-/

namespace LogLayout.Pattern

open Text (byteLength)

/-! ## Waiting text -/

/-- The literal text that a piece stands for. Malformed pieces stand for themselves, and a directive
for no text. -/
def Piece.literal? {α : Type} : Piece α → Option (List Char)
  | .plain c => some [c]
  | .percent => some ['%']
  | .directive _ => none
  | piece => some piece.source

namespace Item

variable {α : Type} {pieces : List (Piece α)} {piece : Piece α} {text : List Char} {offset : Nat}

theorem ofPieces_literal (h : piece.literal? = some text) :
    ofPieces offset (piece :: pieces) =
      consText text (ofPieces (offset + Text.byteLength piece.source) pieces) := by
  cases piece <;> cases h <;> rfl

theorem ofPieces_directive (before : List Char) (d : Directive α) (pieces : List (Piece α)) :
    ofPieces (byteLength before) (.directive d :: pieces) =
      .directive (byteLength before) d ::
        ofPieces (byteLength (before ++ (Piece.directive d).source)) pieces := by
  rw [Text.byteLength_append]
  rfl

theorem consText_consText (first second : List Char) (items : List (Item α)) :
    consText first (consText second items) = consText (first ++ second) items := by
  cases items with
  | nil => rfl
  | cons item items =>
    cases item with
    | directive offset d => rfl
    | text more =>
      show Item.text (first ++ (second ++ more)) :: items = .text (first ++ second ++ more) :: items
      rw [List.append_assoc]

/-- Puts literal text that is waiting before the items. -/
def consWaiting (literal : String) (items : List (Item α)) : List (Item α) :=
  if literal = "" then items else consText literal.toList items

theorem consWaiting_empty (items : List (Item α)) : consWaiting "" items = items :=
  if_pos rfl

theorem consWaiting_append (literal : String) (h : text ≠ []) (items : List (Item α)) :
    consWaiting (literal ++ String.ofList text) items =
      consWaiting literal (consText text items) := by
  have hne : literal ++ String.ofList text ≠ "" := by
    intro hempty
    have hlist := congrArg String.toList hempty
    rw [String.toList_append, String.toList_ofList] at hlist
    exact h (List.append_eq_nil_iff.mp hlist).2
  unfold consWaiting
  rw [if_neg hne, String.toList_append, String.toList_ofList, ← consText_consText]
  split
  · rename_i hliteral
    subst hliteral
    cases items with
    | nil => rfl
    | cons item items => cases item <;> rfl
  · rfl

end Item

/-- The literal that waiting text becomes. -/
def waitingLinks (literal : String) : Chain :=
  if literal = "" then [] else [⟨.literal literal, {}⟩]

theorem Parser.flush_eq (parser : Parser) :
    parser.flush =
      { parser with literal := "", chain := parser.chain ++ waitingLinks parser.literal } := by
  unfold flush waitingLinks
  split
  · rename_i h
    rw [List.append_nil, ← h]
  · rfl

theorem Parser.flush_push_literal (parser : Parser) (link : Link) :
    (parser.flush.push link).literal = "" := by
  rw [flush_eq]
  rfl

theorem Parser.flush_push_chain (parser : Parser) (link : Link) :
    (parser.flush.push link).chain = parser.chain ++ waitingLinks parser.literal ++ [link] := by
  rw [flush_eq]
  rfl

theorem Parser.flush_push_warnings (parser : Parser) (link : Link) :
    (parser.flush.push link).warnings = parser.warnings := by
  rw [flush_eq]
  rfl

/-! ## Linking -/

variable {d : Directive Factory} {converter : Converter} {cause : Report}

theorem link_of_ok (offset : Nat) (h : d.value d.options.options = .ok converter) :
    (Item.directive offset d).link = .ok ⟨converter, d.modifiers.specifier⟩ := by
  unfold Item.link
  dsimp only
  rw [h]

theorem link_of_error (offset : Nat) (h : d.value d.options.options = .error cause) :
    (Item.directive offset d).link = .error ⟨String.ofList d.token, offset, cause⟩ := by
  unfold Item.link
  dsimp only
  rw [h]

theorem mapM_link_cons_of_ok {item : Item Factory} {items : List (Item Factory)} {link : Link}
    (h : item.link = .ok link) :
    (item :: items).mapM Item.link = (items.mapM Item.link).map fun links => link :: links := by
  rw [List.mapM_cons, h]
  show (items.mapM Item.link).bind _ = _
  cases items.mapM Item.link <;> rfl

theorem mapM_link_consWaiting (literal : String) {items : List (Item Factory)}
    (h : ∀ text, items.head? ≠ some (.text text)) :
    (Item.consWaiting literal items).mapM Item.link =
      (items.mapM Item.link).map fun links => waitingLinks literal ++ links := by
  unfold Item.consWaiting waitingLinks
  split
  · cases items.mapM Item.link <;> rfl
  · have hcons : Item.consText literal.toList items = .text literal.toList :: items := by
      cases items with
      | nil => rfl
      | cons item items =>
        cases item with
        | directive offset d => rfl
        | text text => exact absurd rfl (h text)
    rw [hcons]
    have hlink : (Item.text literal.toList : Item Factory).link = .ok ⟨.literal literal, {}⟩ := by
      unfold Item.link
      dsimp only
      rw [String.ofList_toList]
    exact mapM_link_cons_of_ok hlink

/-! ## Pieces -/

theorem Parser.absorb_of_literal (parser : Parser) (before : List Char) {piece : Piece Factory}
    {text : List Char} (h : piece.literal? = some text) :
    parser.absorb before piece =
      (.goesOn, ((parser.warned (piece.warnings (byteLength before))).behind
        (before ++ piece.source)).write (String.ofList text)) := by
  cases piece <;> cases h <;> rfl

/-- What waits in the parser before pieces goes in front of their items. -/
theorem outcome_absorbAll (parser : Parser) (before : List Char) (pieces : List (Piece Factory)) :
    outcome (parser.absorbAll before pieces) =
      ((Item.consWaiting parser.literal (Item.ofPieces (byteLength before) pieces)).mapM
        Item.link).map fun links =>
          ⟨parser.chain ++ links, parser.warnings ++ warningsOf (byteLength before) pieces⟩ := by
  -- a literal piece adds to what is waiting, and a directive leaves nothing waiting, so the parser
  -- is another one at each piece
  induction pieces generalizing parser before with
  | nil =>
    rw [mapM_link_consWaiting _ fun _ h => by cases h]
    show Except.ok (parser.behind before).compiled = Except.ok _
    unfold Parser.compiled warningsOf
    rw [Parser.flush_eq]
    show _ = Except.ok (Compiled.mk (_ ++ (_ ++ [])) _)
    simp only [List.append_nil]
    rfl
  | cons piece pieces ih =>
    unfold Parser.absorbAll warningsOf
    rw [← List.append_assoc, ← Text.byteLength_append]
    cases hpiece : piece.literal? with
    | some text =>
      have hne : text ≠ [] := by
        rintro rfl
        cases piece <;> cases hpiece
      rw [Parser.absorb_of_literal parser before hpiece, Item.ofPieces_literal hpiece,
        ← Item.consWaiting_append _ hne, ← Text.byteLength_append]
      exact ih _ _
    | none =>
      cases piece with
      | directive d =>
        rw [Item.ofPieces_directive, mapM_link_consWaiting _ fun _ h => by cases h]
        cases hvalue : d.value d.options.options with
        | error cause =>
          rw [Parser.absorb_of_error parser before hvalue, List.mapM_cons, link_of_error _ hvalue]
          rfl
        | ok converter =>
          rw [Parser.absorb_of_ok parser before hvalue,
            mapM_link_cons_of_ok (link_of_ok _ hvalue)]
          refine (ih _ _).trans ?_
          rw [Parser.flush_push_literal, Parser.flush_push_chain, Parser.flush_push_warnings,
            Item.consWaiting_empty]
          generalize (Item.ofPieces _ pieces).mapM Item.link = links
          cases links with
          | error e => rfl
          | ok links =>
            show Except.ok (Compiled.mk (_ ++ _ ++ [_] ++ links) _) =
              Except.ok (Compiled.mk (_ ++ (_ ++ (_ :: links))) _)
            rw [List.append_assoc, List.append_assoc]
            rfl
      | plain | percent | dangling | nameless | unknown => cases hpiece

/-- The account of accesses does not count. -/
theorem outcome_accesses (turn : Turn) (parser : Parser) (accesses : List Access) :
    outcome (turn, { parser with accesses := accesses }) = outcome (turn, parser) := by
  have hcompiled : ({ parser with accesses := accesses } : Parser).compiled = parser.compiled := by
    unfold Parser.compiled
    rw [Parser.flush_eq, Parser.flush_eq]
  cases turn with
  | rejects e => rfl
  | goesOn => exact congrArg Except.ok hcompiled
  | ends => exact congrArg Except.ok hcompiled

theorem compile_of_run {table : TokenTable Factory} {pattern : String} {turn : Turn}
    {last : Parser} (h : Parse.run table pattern {} = some (turn, last)) :
    compile table pattern = outcome (turn, last) := by
  unfold compile parse?
  rw [h]
  rfl

theorem compile_eq (table : TokenTable Factory) (pattern : String) :
    compile table pattern =
      ((Item.ofPieces 0 (Piece.scan table pattern.toList)).mapM Item.link).map fun chain =>
        ⟨chain, warningsOf 0 (Piece.scan table pattern.toList)⟩ := by
  have hruns : Runs pattern (Parse.run table pattern) (({} : Parser).behind [])
      (({} : Parser).absorbAll [] (Piece.scan table pattern.toList)).1
      (({} : Parser).absorbAll [] (Piece.scan table pattern.toList)).2 :=
    runs_run {} (cut_scan table pattern.toList) rfl
  obtain ⟨accesses, hrun, -⟩ := hruns []
  rw [compile_of_run hrun, outcome_accesses, outcome_absorbAll]
  rfl

end LogLayout.Pattern
