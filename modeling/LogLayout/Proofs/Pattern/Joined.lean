import LogLayout.Bundled
import LogLayout.Proofs.Chain.Fields
import LogLayout.Proofs.Pattern.Boundary
import LogLayout.Proofs.Pattern.Rejection

/-!
# Patterns one behind the other

A pattern may be compiled in parts. Where no piece waits for the text that is put behind it, the
pieces of both parts are the pieces of the whole: errors and warnings of the second part move by the
bytes of the first, and the renderings stand one behind the other, although a literal that ends the
first chain and one that begins the second become one.

Results:
1. `warningsOf_append`, `warningsOf_add`: the warnings of pieces one behind the other, and of pieces
   that begin further on.
2. `Assembled.format_eq_join`: a rendering is the fields of the pieces.
3. `cut_append`: when the pieces of both parts are those of the whole.
4. At the end of the file: compilation of a pattern in two parts.
-/

namespace LogLayout.Pattern

open Palette (Terminal)

variable {table : TokenTable Factory}

/-! ## Further on in a text -/

/-- The warning for the same text behind so many bytes. -/
def Warning.behind (bytes : Nat) (w : Warning) : Warning :=
  { w with offset := bytes + w.offset }

/-- The error for the same text behind so many bytes. -/
def CompileError.behind (bytes : Nat) (e : CompileError) : CompileError :=
  { e with offset := bytes + e.offset }

section Positions

variable {α : Type} (bytes offset : Nat)

theorem MaximumText.warnings_add (m : MaximumText) :
    m.warnings (bytes + offset) = (m.warnings offset).map (Warning.behind bytes) := by
  unfold warnings
  split
  · simp only [List.map_cons, List.map_nil, Warning.behind, Nat.add_assoc]
  · split
    · simp only [List.map_cons, List.map_nil, Warning.behind, Nat.add_assoc]
    · rfl

theorem Modifiers.warnings_add (m : Modifiers) :
    m.warnings (bytes + offset) = (m.warnings offset).map (Warning.behind bytes) := by
  unfold warnings
  simp only [List.map_append, Nat.add_assoc]
  congr 1
  · split
    · rfl
    · rfl
  · cases m.maximum with
    | none => rfl
    | some text => exact text.warnings_add bytes _

theorem OptionPart.warnings_add (options : OptionPart) :
    options.warnings (bytes + offset) = (options.warnings offset).map (Warning.behind bytes) := by
  cases options <;> rfl

theorem namedWarnings_add (m : Modifiers) (name : List Char) (options : OptionPart) :
    namedWarnings (bytes + offset) m name options =
      (namedWarnings offset m name options).map (Warning.behind bytes) := by
  unfold namedWarnings
  rw [List.map_append, ← Modifiers.warnings_add, ← OptionPart.warnings_add]
  simp only [Nat.add_assoc]

theorem Piece.warnings_add (piece : Piece α) :
    piece.warnings (bytes + offset) = (piece.warnings offset).map (Warning.behind bytes) := by
  cases piece with
  | plain | percent => rfl
  | dangling => rfl
  | nameless m =>
    simp only [warnings, List.map_append, Nat.add_assoc, Modifiers.warnings_add]
    rfl
  | unknown m word options =>
    simp only [warnings, List.map_append, namedWarnings_add]
    rfl
  | directive d => exact namedWarnings_add bytes offset d.modifiers d.token d.options

theorem warningsOf_add (pieces : List (Piece α)) :
    warningsOf (bytes + offset) pieces = (warningsOf offset pieces).map (Warning.behind bytes) := by
  induction pieces generalizing offset with
  | nil => rfl
  | cons piece pieces ih =>
    unfold warningsOf
    rw [List.map_append, Piece.warnings_add, Nat.add_assoc, ih]

theorem warningsOf_append (pieces others : List (Piece α)) :
    warningsOf offset (pieces ++ others) =
      warningsOf offset pieces ++
        warningsOf (offset + Text.byteLength (pieces.flatMap Piece.source)) others := by
  induction pieces generalizing offset with
  | nil => rfl
  | cons piece pieces ih =>
    rw [List.cons_append, warningsOf, warningsOf, ih, List.append_assoc, List.flatMap_cons,
      Text.byteLength_append, Nat.add_assoc]

end Positions

theorem isFirstRejected_append_iff {pieces others before : List (Piece Factory)}
    {d : Directive Factory} {cause : Report} (h : AllAccepted pieces) :
    IsFirstRejected (pieces ++ others) before d cause ↔
      ∃ behind, before = pieces ++ behind ∧ IsFirstRejected others behind d cause := by
  induction pieces generalizing before with
  | nil => simp
  | cons piece pieces ih =>
    have hpiece : ∀ d, piece = .directive d → d.Accepted := by
      rintro d rfl
      exact h d List.mem_cons_self
    have hpieces : AllAccepted pieces := fun d hd => h d (List.mem_cons_of_mem _ hd)
    rw [List.cons_append, isFirstRejected_cons_iff]
    constructor
    · rintro (⟨_, rfl, hrejected⟩ | ⟨rest, rfl, _, hfirst⟩)
      · exact absurd hrejected (hpiece d rfl).not_rejected
      · obtain ⟨behind, rfl, hbehind⟩ := (ih hpieces).mp hfirst
        exact ⟨behind, rfl, hbehind⟩
    · rintro ⟨behind, rfl, hfirst⟩
      exact .inr ⟨_, rfl, hpiece, (ih hpieces).mpr ⟨behind, rfl, hfirst⟩⟩

/-! ## Renderings -/

/-- What a piece adds to a rendering: its literal text, or the field of its converter. -/
def Piece.field [Libraries] (terminal : Terminal) (r : Record) : Piece Factory → String
  | .directive d =>
    match d.value d.options.options with
    | .ok converter => Link.field terminal r ⟨converter, d.modifiers.specifier⟩
    | .error _ => ""
  | piece => String.ofList (piece.literal?.getD [])

section Renderings

variable [Libraries] {terminal : Terminal} {r : Record} {pieces : List (Piece Factory)}
  {chain : Chain}

theorem Piece.field_of_literal {piece : Piece Factory} {text : List Char}
    (h : piece.literal? = some text) : piece.field terminal r = String.ofList text := by
  cases piece <;> cases h <;> rfl

theorem field_literal (text : String) :
    Link.field terminal r ⟨.literal text, {}⟩ = text := by
  rw [Link.field_eq]
  show String.ofList (Fitting.Specifier.fit {} ("" ++ text).toList) = text
  rw [Fitting.Specifier.fit_of_isNeutral rfl, String.ofList_toList, String.empty_append]

theorem join_fields_run {run : List (Piece Factory)} {texts : List (List Char)}
    (h : run.map Piece.literal? = texts.map some) :
    String.join (run.map (Piece.field terminal r)) = String.ofList texts.flatten := by
  induction run generalizing texts with
  | nil =>
    cases texts with
    | nil => rfl
    | cons text texts => cases h
  | cons piece run ih =>
    cases texts with
    | nil => cases h
    | cons text texts =>
      obtain ⟨hpiece, hrest⟩ := List.cons.inj h
      rw [List.map_cons, String.join_cons, Piece.field_of_literal hpiece, ih hrest,
        List.flatten_cons, String.ofList_append]

/-- The fields of a chain are those of its pieces, put together. -/
theorem Assembled.join_fields (h : Assembled pieces chain) :
    String.join (chain.map (Link.field terminal r)) =
      String.join (pieces.map (Piece.field terminal r)) := by
  induction h with
  | nil => rfl
  | @directive d converter pieces chain hvalue _ ih =>
    have hfield : (Piece.directive d).field terminal r =
        Link.field terminal r ⟨converter, d.modifiers.specifier⟩ := by
      simp only [Piece.field, hvalue]
    rw [List.map_cons, List.map_cons, String.join_cons, String.join_cons, ih, hfield]
  | literal _ htexts _ _ ih =>
    rw [List.map_cons, String.join_cons, field_literal, ih, List.map_append, String.join_append,
      join_fields_run htexts]

theorem Assembled.format_eq_join (h : Assembled pieces chain)
    (hadditive : ∀ link ∈ chain, link.converter.IsAdditive) :
    chain.format terminal r = String.join (pieces.map (Piece.field terminal r)) := by
  rw [Chain.format_eq_join hadditive, h.join_fields]

end Renderings

theorem Assembled.allAccepted {pieces : List (Piece Factory)} {chain : Chain}
    (h : Assembled pieces chain) : AllAccepted pieces := by
  induction h with
  | nil => exact fun d hd => absurd hd List.not_mem_nil
  | directive hvalue _ ih =>
    intro d hd
    rcases List.mem_cons.mp hd with hd | hd
    · cases hd
      exact ⟨_, hvalue⟩
    · exact ih d hd
  | literal _ htexts _ _ ih =>
    intro d hd
    rcases List.mem_append.mp hd with hd | hd
    · exact absurd hd (directive_notMem_run htexts d)
    · exact ih d hd

/-! ## The pieces of the whole -/

/-- Both ends of the place where a text is put behind another one let it be: a text is empty, or the
second one begins with a percent sign, or the last piece of the first one is closed and no word goes
on. -/
def Joinable (table : TokenTable Factory) (first second : String) : Prop :=
  second = "" ∨ (∃ rest, second = "%" ++ rest) ∨ first = "" ∨
    (∃ before last, Cut table first.toList (before ++ [last]) ∧ last.IsClosed) ∧
      WordsApart first.toList second.toList

/-- Pieces of which nothing is warned that waits for the end of the pattern are finished. -/
theorem isFinished_of_warnings {piece : Piece Factory} {offset : Nat}
    (h : ∀ w ∈ piece.warnings offset,
      w.problem ≠ .danglingPercent ∧ w.problem ≠ .unterminatedBlock) : piece.IsFinished := by
  have hblock : ∀ m name, ∃ w ∈ namedWarnings offset m name .unterminated,
      w.problem = .unterminatedBlock :=
    fun m name => ⟨_, List.mem_append_right _ List.mem_cons_self, rfl⟩
  cases piece with
  | plain | percent | nameless => trivial
  | dangling => exact absurd rfl (h _ List.mem_cons_self).1
  | unknown m word options =>
    rintro rfl
    obtain ⟨w, hw, hproblem⟩ := hblock m word
    exact (h w (List.mem_append_left _ hw)).2 hproblem
  | directive d =>
    intro hoptions
    obtain ⟨w, hw, hproblem⟩ := hblock d.modifiers d.token
    rw [← hoptions] at hw
    exact (h w hw).2 hproblem

theorem isFinished_of_warningsOf {pieces : List (Piece Factory)} {offset : Nat}
    (h : ∀ w ∈ warningsOf offset pieces,
      w.problem ≠ .danglingPercent ∧ w.problem ≠ .unterminatedBlock) :
    ∀ piece ∈ pieces, piece.IsFinished := by
  induction pieces generalizing offset with
  | nil => exact fun piece hpiece => absurd hpiece List.not_mem_nil
  | cons piece pieces ih =>
    refine List.forall_mem_cons.mpr ⟨?_, ih fun w hw => h w (List.mem_append_right _ hw)⟩
    exact isFinished_of_warnings fun w hw => h w (List.mem_append_left _ hw)

variable {p q : String} {pieces others : List (Piece Factory)}

theorem Joinable.ends (h : Joinable table p q) (hcut : Cut table p.toList pieces) :
    (∀ piece, pieces.getLast? = some piece → piece.IsClosed ∨ BeginsPiece q.toList) ∧
      WordsApart p.toList q.toList := by
  rcases h with rfl | ⟨rest, rfl⟩ | rfl | ⟨⟨before, last, hclosed, hlast⟩, hapart⟩
  · have hempty : ∀ c, ("" : String).toList.head? = some c → c = '%' := by
      intro c hc
      cases hc
    refine ⟨fun _ _ => .inr hempty, fun a c _ hc => ?_⟩
    cases hc
  · have hpercent : BeginsPiece ("%" ++ rest).toList := by
      intro c hc
      rw [String.toList_append] at hc
      exact (Option.some.inj hc).symm
    exact ⟨fun _ _ => .inr hpercent, fun _ c _ hc _ => hpercent.not_isAlpha c hc⟩
  · obtain rfl := hcut.eq_nil
    refine ⟨fun piece hpiece => ?_, fun a c ha => ?_⟩
    · cases hpiece
    · cases ha
  · rw [cut_iff_scan.mp hcut, ← cut_iff_scan.mp hclosed]
    refine ⟨fun piece hpiece => .inl ?_, hapart⟩
    rw [List.getLast?_concat] at hpiece
    obtain rfl := Option.some.inj hpiece
    exact hlast

theorem cut_append (hcut : Cut table p.toList pieces)
    (hfinished : ∀ piece ∈ pieces, piece.IsFinished) (h : Joinable table p q)
    (hothers : Cut table q.toList others) :
    Cut table (p ++ q).toList (pieces ++ others) := by
  obtain ⟨hlast, hapart⟩ := h.ends hcut
  rw [String.toList_append]
  exact hcut.append hfinished hlast hapart hothers

/-! ## Compiling the whole -/

section Compile

variable {first second whole : Compiled}

/-- The pieces of a pattern take as many bytes as it has. -/
theorem Cut.byteLength {pieces : List (Piece Factory)} (h : Cut table p.toList pieces) :
    Text.byteLength (pieces.flatMap Piece.source) = p.utf8ByteSize := by
  rw [h.source, Text.byteLength_toList]

theorem compile_append_eq_error_iff {e : CompileError} (hp : Cut table p.toList pieces)
    (hq : Cut table q.toList others) (hcut : Cut table (p ++ q).toList (pieces ++ others))
    (haccepted : AllAccepted pieces) :
    compile table (p ++ q) = .error e ↔
      ∃ cause, compile table q = .error cause ∧ e = cause.behind p.utf8ByteSize := by
  simp only [compile_eq_error_iff, cut_iff_scan]
  rw [cut_iff_scan] at hq hcut
  have hposition : ∀ before, Text.byteLength ((pieces ++ before).flatMap Piece.source) =
      p.utf8ByteSize + Text.byteLength (before.flatMap Piece.source) := by
    intro before
    rw [List.flatMap_append, Text.byteLength_append, hp.byteLength]
  constructor
  · rintro ⟨_, before, d, cause, rfl, hfirst, rfl⟩
    rw [← hcut] at hfirst
    obtain ⟨behind, rfl, hbehind⟩ := (isFirstRejected_append_iff haccepted).mp hfirst
    refine ⟨_, ⟨_, behind, d, cause, rfl, hq ▸ hbehind, rfl⟩, ?_⟩
    rw [hposition]
    rfl
  · rintro ⟨_, ⟨_, before, d, cause, rfl, hfirst, rfl⟩, rfl⟩
    rw [← hq] at hfirst
    refine ⟨_, pieces ++ before, d, cause, hcut,
      (isFirstRejected_append_iff haccepted).mpr ⟨before, rfl, hfirst⟩, ?_⟩
    rw [hposition]
    rfl

theorem format_append [Libraries] {chain more whole : Chain} (hfirst : Assembled pieces chain)
    (hsecond : Assembled others more) (hwhole : Assembled (pieces ++ others) whole)
    (hadditive : ∀ link ∈ chain ++ more, link.converter.IsAdditive) (terminal : Terminal)
    (r : Record) :
    whole.format terminal r = chain.format terminal r ++ more.format terminal r := by
  obtain ⟨hchain, hmore⟩ := List.forall_mem_append.mp hadditive
  have hpieces : ∀ link ∈ whole, link.converter.IsAdditive := by
    refine hwhole.isAdditive_iff.mpr fun d converter hd => ?_
    rcases List.mem_append.mp hd with hd | hd
    · exact hfirst.isAdditive_iff.mp hchain d converter hd
    · exact hsecond.isAdditive_iff.mp hmore d converter hd
  rw [hwhole.format_eq_join hpieces, hfirst.format_eq_join hchain, hsecond.format_eq_join hmore,
    List.map_append, String.join_append]

/-- Compilation goes piece by piece. Take a pattern that compiles and of which no percent sign and
no block waits for the end, and one that can be put behind it. The whole compiles iff the second
pattern does. If it does not, the error is that of the second pattern, further on by the bytes of
the first. If it does, the warnings are those of the first and then those of the second, further on
by as much; and where converters are additive, the whole renders as the first pattern and behind it
the second. -/
theorem compile_append [Libraries] (hp : compile table p = .ok first)
    (hfinished : ∀ w ∈ first.warnings,
      w.problem ≠ .danglingPercent ∧ w.problem ≠ .unterminatedBlock)
    (hjoinable : Joinable table p q) :
    ((∃ whole, compile table (p ++ q) = .ok whole) ↔ ∃ second, compile table q = .ok second) ∧
    (∀ e, compile table q = .error e →
      compile table (p ++ q) = .error (e.behind p.utf8ByteSize)) ∧
    ∀ second, compile table q = .ok second →
      ∃ whole, compile table (p ++ q) = .ok whole ∧
        whole.warnings =
          first.warnings ++ second.warnings.map (Warning.behind p.utf8ByteSize) ∧
        ((∀ link ∈ first.chain ++ second.chain, link.converter.IsAdditive) →
          ∀ terminal r, whole.chain.format terminal r =
            first.chain.format terminal r ++ second.chain.format terminal r) := by
  obtain ⟨pieces, hpieces, hfirst, hwarnings⟩ := compile_eq_ok_iff.mp hp
  have hothers := cut_scan table q.toList
  rw [hwarnings] at hfinished ⊢
  have hcut := cut_append hpieces (isFinished_of_warningsOf hfinished) hjoinable hothers
  have herror : ∀ e, compile table (p ++ q) = .error e ↔
      ∃ cause, compile table q = .error cause ∧ e = cause.behind p.utf8ByteSize := fun _ =>
    compile_append_eq_error_iff hpieces hothers hcut hfirst.allAccepted
  -- the first pattern rejects nothing, so an error of the whole would be one of the second
  have hok : ∀ second, compile table q = .ok second →
      ∃ whole, compile table (p ++ q) = .ok whole := by
    intro second hq
    cases hwhole : compile table (p ++ q) with
    | ok whole => exact ⟨whole, rfl⟩
    | error e =>
      obtain ⟨cause, hcause, _⟩ := (herror e).mp hwhole
      rw [hq] at hcause
      cases hcause
  refine ⟨⟨?_, fun ⟨second, hq⟩ => hok second hq⟩,
    fun e hq => (herror _).mpr ⟨e, hq, rfl⟩, fun second hq => ?_⟩
  · rintro ⟨whole, hwhole⟩
    cases hq : compile table q with
    | ok second => exact ⟨second, rfl⟩
    | error e =>
      rw [(herror _).mpr ⟨e, hq, rfl⟩] at hwhole
      cases hwhole
  · -- each text has one cut, so both chains are put together from the pieces at hand
    obtain ⟨whole, hwhole⟩ := hok second hq
    obtain ⟨_, hq', hsecond, hsecondWarnings⟩ := compile_eq_ok_iff.mp hq
    obtain ⟨_, hcut', hchain, hwholeWarnings⟩ := compile_eq_ok_iff.mp hwhole
    rw [cut_iff_scan.mp hq', ← cut_iff_scan.mp hothers] at hsecond hsecondWarnings
    rw [cut_iff_scan.mp hcut', ← cut_iff_scan.mp hcut] at hchain hwholeWarnings
    refine ⟨whole, hwhole, ?_, format_append hfirst hsecond hchain⟩
    rw [hwholeWarnings, hsecondWarnings, warningsOf_append, Nat.zero_add, hpieces.byteLength,
      ← warningsOf_add, Nat.add_zero]

/-- Modifiers without a name go up to the percent sign of the second pattern, and the literal texts
on both sides of it become one. -/
theorem message_compile_append :
    ∃ first second whole,
      compile (TokenTable.empty.bind ["m"] (.constant .message)) "é%mx%-5." = .ok first ∧
      compile (TokenTable.empty.bind ["m"] (.constant .message)) "%q %m" = .ok second ∧
      compile (TokenTable.empty.bind ["m"] (.constant .message)) ("é%mx%-5." ++ "%q %m") =
        .ok whole ∧
      whole.warnings = [⟨9, .missingMaximum⟩, ⟨5, .missingName⟩, ⟨9, .unknownName ['q']⟩] ∧
      ∀ terminal r, whole.chain.format terminal r =
        first.chain.format terminal r ++ second.chain.format terminal r := by
  have hp : compile (TokenTable.empty.bind ["m"] (.constant .message)) "é%mx%-5." =
      .ok ⟨[⟨.literal "é", {}⟩, ⟨.message, {}⟩, ⟨.literal "x%-5.", {}⟩],
        [⟨9, .missingMaximum⟩, ⟨5, .missingName⟩]⟩ := by
    cbv
  have hq : compile (TokenTable.empty.bind ["m"] (.constant .message)) "%q %m" =
      .ok ⟨[⟨.literal "%q ", {}⟩, ⟨.message, {}⟩], [⟨0, .unknownName ['q']⟩]⟩ := by
    cbv
  have hjoinable : Joinable (TokenTable.empty.bind ["m"] (.constant .message)) "é%mx%-5." "%q %m" :=
    .inr (.inl ⟨"q %m", rfl⟩)
  obtain ⟨_, _, hok⟩ := compile_append hp (by decide) hjoinable
  obtain ⟨whole, hwhole, hwarnings, hformat⟩ := hok _ hq
  refine ⟨_, _, whole, hp, hq, hwhole, hwarnings.trans (by decide), hformat ?_⟩
  simp only [List.cons_append, List.nil_append, List.forall_mem_cons]
  exact ⟨Converter.IsBuiltIn.isAdditive trivial, Converter.IsBuiltIn.isAdditive trivial,
    Converter.IsBuiltIn.isAdditive trivial, Converter.IsBuiltIn.isAdditive trivial,
    Converter.IsBuiltIn.isAdditive trivial, fun _ h => absurd h List.not_mem_nil⟩

end Compile

end LogLayout.Pattern
