import LogLayout.Pattern.Piece
import LogLayout.Proofs.Pattern.Modifiers
import LogLayout.Proofs.Pattern.OptionBlock
import LogLayout.Proofs.TokenTable.Lookup

/-!
# The one way to cut a pattern

Which pieces a pattern has is said here without a scanner: each piece is a text of its kind that
stands before the rest of the pattern, and each kind takes as much as it can.

Results:
1. `Piece.read_eq_iff`: the piece that is read is the one that stands at the beginning of the text.
2. `cut_iff_scan`: there is one way to cut a text, and scanning finds it.
-/

namespace LogLayout.Pattern

variable {α : Type} {table : TokenTable α}

namespace Piece

/-- The piece stands before the rest of a text. -/
inductive Stands (table : TokenTable α) : Piece α → List Char → Prop where
  | plain {c : Char} {rest : List Char} : c ≠ '%' → Stands table (.plain c) rest
  | percent {rest : List Char} : Stands table .percent rest
  | dangling : Stands table .dangling []
  | nameless {m : Modifiers} {rest : List Char} :
    m.source ++ rest ≠ [] → (m.source ++ rest).head? ≠ some '%' →
    m.IsLongest rest → IsRun Char.isAlpha [] rest →
    Stands table (.nameless m) rest
  | unknown {m : Modifiers} {word rest : List Char} {options : OptionPart} :
    m.IsLongest (word ++ (options.source ++ rest)) →
    word ≠ [] → IsRun Char.isAlpha word (options.source ++ rest) →
    (∀ token, token <+: word → token ≠ [] → table.get? (String.ofList token) = none) →
    options.Stands rest →
    Stands table (.unknown m word options) rest
  /-- The letters behind the token, which no longer match belongs to, are left for plain pieces. -/
  | directive {d : Directive α} {more behind rest : List Char} :
    d.modifiers.IsLongest (d.token ++ (d.options.source ++ rest)) →
    d.options.source ++ rest = more ++ behind → IsRun Char.isAlpha (d.token ++ more) behind →
    table.IsLongestMatch (d.token ++ more) d.token d.value →
    d.options.Stands rest →
    Stands table (.directive d) rest

variable {m : Modifiers} {c : Char} {cs word token more after rest : List Char} {value : α}
  {piece : Piece α}

/-! ## Reading what follows a percent sign -/

theorem read_percent (hne : cs ≠ []) (hhead : cs.head? ≠ some '%') :
    read table '%' cs = readDirective table cs := by
  unfold read
  rw [if_pos rfl]
  split
  · exact absurd rfl hne
  · exact absurd rfl hhead
  · rfl

/-- Modifiers and letters are neither the end of a text nor begin with another percent sign. -/
theorem head?_modifiers_word (hm : m.WellFormed) (hne : word ≠ [])
    (hword : ∀ c ∈ word, c.isAlpha) :
    ∃ c, (m.source ++ (word ++ after)).head? = some c ∧ c ≠ '%' := by
  obtain ⟨c, behind, hsource⟩ : ∃ c behind, m.source ++ word = c :: behind :=
    List.exists_cons_of_ne_nil fun hnil => hne (List.append_eq_nil_iff.mp hnil).2
  refine ⟨c, by rw [← List.append_assoc, hsource]; rfl, ?_⟩
  rintro rfl
  have hmem : '%' ∈ m.source ++ word := by
    rw [hsource]
    exact List.mem_cons_self
  rcases List.mem_append.mp hmem with hmem | hmem
  · exact Modifiers.percent_notMem_source hm hmem
  · exact absurd (hword '%' hmem) (by decide)

theorem read_percent_word (hm : m.WellFormed) (hne : word ≠ [])
    (hword : ∀ c ∈ word, c.isAlpha) :
    read table '%' (m.source ++ (word ++ after)) =
      readDirective table (m.source ++ (word ++ after)) := by
  obtain ⟨c, hhead, hc⟩ : ∃ c, (m.source ++ (word ++ after)).head? = some c ∧ c ≠ '%' :=
    head?_modifiers_word hm hne hword
  refine read_percent (fun hnil => ?_) (fun hpercent => ?_)
  · rw [hnil] at hhead
    cases hhead
  · rw [hhead] at hpercent
    exact hc (Option.some.inj hpercent)

theorem readDirective_nameless (hm : m.IsLongest rest) (hrest : IsRun Char.isAlpha [] rest) :
    readDirective table (m.source ++ rest) = (.nameless m, rest) := by
  have hword := hrest.takeWhile_append
  rw [List.nil_append] at hword
  unfold readDirective
  simp only [Modifiers.read_eq_iff.mpr ⟨rfl, hm⟩, hword, if_pos]

theorem readDirective_unknown (hm : m.IsLongest (word ++ after)) (hne : word ≠ [])
    (hword : IsRun Char.isAlpha word after) (hmatch : table.longestMatch? word = none) :
    readDirective table (m.source ++ (word ++ after)) =
      (.unknown m word (OptionPart.read after).1, (OptionPart.read after).2) := by
  unfold readDirective
  simp only [Modifiers.read_eq_iff.mpr ⟨rfl, hm⟩, hword.takeWhile_append, if_neg hne, hmatch,
    List.drop_left]

theorem readDirective_directive (hm : m.IsLongest (token ++ (more ++ after)))
    (hword : IsRun Char.isAlpha (token ++ more) after)
    (hlongest : table.IsLongestMatch (token ++ more) token value) :
    readDirective table (m.source ++ (token ++ (more ++ after))) =
      (.directive ⟨m, token, value, (OptionPart.read (more ++ after)).1⟩,
        (OptionPart.read (more ++ after)).2) := by
  have hne : token ++ more ≠ [] := fun hnil => hlongest.ne_nil (List.append_eq_nil_iff.mp hnil).1
  have htake := hword.takeWhile_append
  rw [List.append_assoc] at htake
  unfold readDirective
  simp only [Modifiers.read_eq_iff.mpr ⟨rfl, hm⟩, htake, if_neg hne,
    TokenTable.longestMatch?_eq_some_iff.mpr hlongest, List.drop_left]

/-! ## The piece that is read -/

theorem readDirective_stands (hne : cs ≠ []) (hhead : cs.head? ≠ some '%') :
    (readDirective table cs).1.Stands table (readDirective table cs).2 := by
  rcases hread : Modifiers.read cs with ⟨m, behind⟩
  obtain ⟨rfl, hm⟩ := Modifiers.read_eq_iff.mp hread
  have hword := isRun_takeWhile Char.isAlpha behind
  have hsplit := List.takeWhile_append_dropWhile (p := Char.isAlpha) (l := behind)
  generalize behind.takeWhile Char.isAlpha = word at hword hsplit
  generalize behind.dropWhile Char.isAlpha = after at hword hsplit
  subst hsplit
  by_cases hnil : word = []
  · subst hnil
    rw [List.nil_append] at hm hne hhead ⊢
    rw [readDirective_nameless hm hword]
    exact .nameless hne hhead hm hword
  · cases hmatch : table.longestMatch? word with
    | none =>
      rw [readDirective_unknown hm hnil hword hmatch]
      rcases hread : OptionPart.read after with ⟨options, rest⟩
      obtain ⟨rfl, hstands⟩ := OptionPart.read_eq_iff.mp hread
      exact .unknown hm hnil hword (TokenTable.longestMatch?_eq_none_iff.mp hmatch) hstands
    | some found =>
      obtain ⟨token, value⟩ := found
      have hlongest := TokenTable.longestMatch?_eq_some_iff.mp hmatch
      obtain ⟨more, rfl⟩ := hlongest.begins
      rw [List.append_assoc] at hm ⊢
      rw [readDirective_directive hm hword hlongest]
      rcases hread : OptionPart.read (more ++ after) with ⟨options, rest⟩
      obtain ⟨hoptions, hstands⟩ := OptionPart.read_eq_iff.mp hread
      rw [← hoptions] at hm
      exact .directive hm hoptions hword hlongest hstands

theorem read_stands (table : TokenTable α) (c : Char) (cs : List Char) :
    (read table c cs).1.Stands table (read table c cs).2 := by
  by_cases hc : c = '%'
  · subst hc
    by_cases hne : cs = []
    · subst hne
      exact .dangling
    · by_cases hhead : cs.head? = some '%'
      · obtain ⟨rest, rfl⟩ := List.head?_eq_some_iff.mp hhead
        exact .percent
      · rw [read_percent hne hhead]
        exact readDirective_stands hne hhead
  · unfold read
    rw [if_neg hc]
    exact .plain hc

theorem read_of_stands (h : piece.Stands table rest) (hsource : piece.source ++ rest = c :: cs) :
    read table c cs = (piece, rest) := by
  cases h with
  | plain hc =>
    cases hsource
    exact if_neg hc
  | percent =>
    cases hsource
    rfl
  | dangling =>
    cases hsource
    rfl
  | @nameless m rest hne hhead hm hrest =>
    obtain ⟨rfl, rfl⟩ := List.cons.inj hsource
    show read table '%' (m.source ++ rest) = _
    rw [read_percent hne hhead, readDirective_nameless hm hrest]
  | @unknown m word rest options hm hne hword hunbound hoptions =>
    simp only [source, List.cons_append, List.append_assoc] at hsource
    obtain ⟨rfl, rfl⟩ := List.cons.inj hsource
    have hmatch := TokenTable.longestMatch?_eq_none_iff.mpr hunbound
    rw [read_percent_word hm.wellFormed hne hword.all, readDirective_unknown hm hne hword hmatch,
      OptionPart.read_eq_iff.mpr ⟨rfl, hoptions⟩]
  | @directive d more behind rest hm hbehind hword hlongest hoptions =>
    simp only [source, Directive.source, List.cons_append, List.append_assoc] at hsource
    obtain ⟨rfl, rfl⟩ := List.cons.inj hsource
    -- the letters behind the token stand at the beginning of what its options are read from
    have htoken : ∀ c ∈ d.token, c.isAlpha := fun c hc =>
      hword.all c (List.mem_append_left more hc)
    rw [read_percent_word hm.wellFormed hlongest.ne_nil htoken]
    rw [hbehind] at hm ⊢
    rw [readDirective_directive hm hword hlongest, ← hbehind,
      OptionPart.read_eq_iff.mpr ⟨rfl, hoptions⟩]

theorem read_eq_iff :
    read table c cs = (piece, rest) ↔ piece.source ++ rest = c :: cs ∧ piece.Stands table rest := by
  constructor
  · intro h
    have hsource := read_source table c cs
    have hstands := read_stands table c cs
    rw [h] at hsource hstands
    exact ⟨hsource, hstands⟩
  · rintro ⟨hsource, hstands⟩
    exact read_of_stands hstands hsource

end Piece

/-! ## Cutting a text -/

/-- The text is cut into the pieces: it is their texts one behind the other, and each of them stands
before what follows it. -/
inductive Cut (table : TokenTable α) : List Char → List (Piece α) → Prop where
  | nil : Cut table [] []
  | cons {piece : Piece α} {rest : List Char} {pieces : List (Piece α)} :
    piece.Stands table rest → Cut table rest pieces →
    Cut table (piece.source ++ rest) (piece :: pieces)

theorem Cut.source {cs : List Char} {pieces : List (Piece α)} (h : Cut table cs pieces) :
    pieces.flatMap Piece.source = cs := by
  induction h with
  | nil => rfl
  | cons _ _ ih => rw [List.flatMap_cons, ih]

theorem cut_scan (table : TokenTable α) (cs : List Char) : Cut table cs (Piece.scan table cs) := by
  fun_induction Piece.scan table cs with
  | case1 => exact .nil
  | case2 c cs ih =>
    have hcut := Cut.cons (Piece.read_stands table c cs) ih
    rw [Piece.read_source] at hcut
    exact hcut

theorem cut_iff_scan {cs : List Char} {pieces : List (Piece α)} :
    Cut table cs pieces ↔ pieces = Piece.scan table cs := by
  constructor
  · intro h
    induction h with
    | nil => rw [Piece.scan]
    | @cons piece rest pieces hstands _ ih =>
      cases hsource : piece.source ++ rest with
      | nil =>
        have hpos := Piece.source_length_pos piece
        rw [(List.append_eq_nil_iff.mp hsource).1] at hpos
        exact absurd hpos (Nat.lt_irrefl 0)
      | cons c cs => rw [Piece.scan, Piece.read_of_stands hstands hsource, ih]
  · rintro rfl
    exact cut_scan table cs

theorem Cut.of_append {cs : List Char} {before after : List (Piece α)}
    (h : Cut table cs (before ++ after)) :
    Cut table (after.flatMap Piece.source) after := by
  induction before generalizing cs with
  | nil =>
    have hsource := h.source
    rw [List.nil_append] at h hsource
    rwa [hsource]
  | cons piece before ih =>
    cases h with
    | cons _ hrest => exact ih hrest

/-- A piece of a cut stands before the texts of the pieces behind it, which are cut into these. -/
theorem Cut.stands {cs : List Char} {piece : Piece α} {after : List (Piece α)}
    (h : Cut table cs (piece :: after)) :
    piece.Stands table (after.flatMap Piece.source) ∧
      Cut table (after.flatMap Piece.source) after := by
  cases h with
  | cons hstands hafter =>
    rw [hafter.source]
    exact ⟨hstands, hafter⟩

/-- The token of a directive is bound to its value. -/
theorem Cut.get?_token {cs : List Char} {pieces : List (Piece α)} {d : Directive α}
    (h : Cut table cs pieces) (hd : .directive d ∈ pieces) :
    table.get? (String.ofList d.token) = some d.value := by
  induction h with
  | nil => cases hd
  | cons hstands _ ih =>
    rcases List.mem_cons.mp hd with rfl | hd
    · cases hstands with
      | directive _ _ _ hlongest _ => exact hlongest.bound
    · exact ih hd

end LogLayout.Pattern
