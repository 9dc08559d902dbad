import LogLayout.TokenTable
import Mathlib.Data.List.Forall2

/-!
# Look-ups in a token table

What a look-up gives, said without the order in which a table is searched or filled.

Results:
1. `get?_bindAll`: after groups of tokens were bound in order, a token has the value of the last
   group that holds it.
2. `longestMatch?_eq_some_iff`, `longestMatch?_eq_none_iff`: the match in a word is its longest
   bound prefix, and there is none iff no prefix but the empty one is bound.
3. `longestMatch?_bind`: bindings of tokens that begin no word leave the match as it is.
4. `Corresponds.longestMatch?`: tables that bind the same tokens match the same one in a word.
-/

namespace LogLayout.TokenTable

variable {α β : Type} {table : TokenTable α} {word token : List Char} {value : α}

/-! ## Groups bound in order -/

/-- The value of the last group that holds the token. -/
def lastBound? (groups : List (List String × α)) (token : String) : Option α :=
  (groups.reverse.find? fun group => token ∈ group.1).map Prod.snd

theorem lastBound?_cons (tokens : List String) (value : α) (groups : List (List String × α))
    (token : String) :
    lastBound? ((tokens, value) :: groups) token =
      (lastBound? groups token).or (if token ∈ tokens then some value else none) := by
  unfold lastBound?
  rw [List.reverse_cons, List.find?_append, Option.map_or]
  by_cases h : token ∈ tokens <;> simp [h]

/-- The last writer wins. -/
theorem get?_bindAll (table : TokenTable α) (groups : List (List String × α)) (token : String) :
    (table.bindAll groups).get? token = (lastBound? groups token).or (table.get? token) := by
  induction groups generalizing table with
  | nil => rfl
  | cons group groups ih =>
    obtain ⟨tokens, value⟩ := group
    show ((table.bind tokens value).bindAll groups).get? token = _
    rw [ih, get?_bind, lastBound?_cons, Option.or_assoc]
    split <;> rfl

/-! ## The longest bound prefix -/

/-- The token is the longest bound prefix of the word, and not empty. -/
structure IsLongestMatch (table : TokenTable α) (word token : List Char) (value : α) : Prop where
  ne_nil : token ≠ []
  begins : token <+: word
  bound : table.get? (String.ofList token) = some value
  longest : ∀ longer, longer <+: word → token.length < longer.length →
    table.get? (String.ofList longer) = none

/-- Searching a range from its end finds the greatest number that has a value. -/
theorem findSome?_range_reverse_eq_some_iff {f : Nat → Option β} {k : Nat} {b : β} :
    (List.range k).reverse.findSome? f = some b ↔
      ∃ n < k, f n = some b ∧ ∀ m < k, n < m → f m = none := by
  induction k with
  | zero => simp
  | succ k ih =>
    rw [List.range_succ, List.reverse_append, List.reverse_singleton, List.singleton_append,
      List.findSome?_cons]
    -- the end of the range decides, and otherwise the range before it
    cases hk : f k with
    | some c =>
      constructor
      · rintro h
        cases h
        exact ⟨k, Nat.lt_succ_self k, hk, fun m hm hkm => by omega⟩
      · rintro ⟨n, hn, hfn, hgreatest⟩
        rcases Nat.lt_succ_iff_lt_or_eq.mp hn with hlt | rfl
        · have := hgreatest k (Nat.lt_succ_self k) hlt
          rw [hk] at this
          cases this
        · rw [← hk, hfn]
    | none =>
      rw [ih]
      constructor
      · rintro ⟨n, hn, hfn, hgreatest⟩
        refine ⟨n, Nat.lt_succ_of_lt hn, hfn, fun m hm hnm => ?_⟩
        rcases Nat.lt_succ_iff_lt_or_eq.mp hm with hlt | rfl
        · exact hgreatest m hlt hnm
        · exact hk
      · rintro ⟨n, hn, hfn, hgreatest⟩
        rcases Nat.lt_succ_iff_lt_or_eq.mp hn with hlt | rfl
        · exact ⟨n, hlt, hfn, fun m hm hnm => hgreatest m (Nat.lt_succ_of_lt hm) hnm⟩
        · rw [hk] at hfn
          cases hfn

theorem longestMatch?_eq_some_iff :
    table.longestMatch? word = some (token, value) ↔ table.IsLongestMatch word token value := by
  unfold longestMatch?
  rw [findSome?_range_reverse_eq_some_iff]
  constructor
  · rintro ⟨n, hn, hfound, hgreatest⟩
    -- prefixes correspond to their lengths, which the search runs through less one
    obtain ⟨v, hv, he⟩ := Option.map_eq_some_iff.mp hfound
    cases he
    have hlength : (word.take (n + 1)).length = n + 1 := by
      rw [List.length_take]
      omega
    refine ⟨?_, List.take_prefix _ _, hv, fun longer hlonger hlt => ?_⟩
    · intro hnil
      rw [hnil] at hlength
      cases hlength
    · rw [hlength] at hlt
      have hle := hlonger.length_le
      obtain ⟨m, hm⟩ : ∃ m, longer.length = m + 1 := ⟨longer.length - 1, by omega⟩
      have htake : longer = word.take (m + 1) := by
        rw [← hm]
        exact List.prefix_iff_eq_take.mp hlonger
      have hnone := hgreatest m (by omega) (by omega)
      rw [Option.map_eq_none_iff, ← htake] at hnone
      exact hnone
  · rintro ⟨hne, hbegins, hbound, hlongest⟩
    have hle := hbegins.length_le
    obtain ⟨n, hn⟩ : ∃ n, token.length = n + 1 :=
      ⟨token.length - 1, by have := List.length_pos_iff.mpr hne; omega⟩
    have htake : token = word.take (n + 1) := by
      rw [← hn]
      exact List.prefix_iff_eq_take.mp hbegins
    refine ⟨n, by omega, ?_, fun m hm hnm => ?_⟩
    · show ((table.get? (String.ofList (word.take (n + 1)))).map fun value => _) = _
      rw [← htake, hbound]
      rfl
    · rw [Option.map_eq_none_iff]
      refine hlongest _ (List.take_prefix _ _) ?_
      rw [List.length_take]
      omega

theorem longestMatch?_eq_none_iff :
    table.longestMatch? word = none ↔
      ∀ token, token <+: word → token ≠ [] → table.get? (String.ofList token) = none := by
  unfold longestMatch?
  rw [List.findSome?_eq_none_iff]
  constructor
  · intro h token hbegins hne
    have hle := hbegins.length_le
    have hpos := List.length_pos_iff.mpr hne
    have hnone := h (token.length - 1) (by simp only [List.mem_reverse, List.mem_range]; omega)
    rw [Option.map_eq_none_iff, Nat.sub_add_cancel hpos,
      ← List.prefix_iff_eq_take.mp hbegins] at hnone
    exact hnone
  · intro h n hn
    rw [List.mem_reverse, List.mem_range] at hn
    rw [Option.map_eq_none_iff]
    refine h _ (List.take_prefix _ _) ?_
    intro hnil
    rw [List.take_eq_nil_iff] at hnil
    rcases hnil with hzero | rfl
    · cases hzero
    · cases hn

/-- The match asks for no token that does not begin the word. -/
theorem longestMatch?_congr {other : TokenTable α}
    (h : ∀ token, token <+: word → token ≠ [] →
      other.get? (String.ofList token) = table.get? (String.ofList token)) :
    other.longestMatch? word = table.longestMatch? word := by
  cases hmatch : table.longestMatch? word with
  | none =>
    refine longestMatch?_eq_none_iff.mpr fun token hbegins hne => ?_
    rw [h token hbegins hne]
    exact longestMatch?_eq_none_iff.mp hmatch token hbegins hne
  | some found =>
    obtain ⟨token, value⟩ := found
    obtain ⟨hne, hbegins, hbound, hlongest⟩ := longestMatch?_eq_some_iff.mp hmatch
    refine longestMatch?_eq_some_iff.mpr ⟨hne, hbegins, ?_, fun longer hlonger hlt => ?_⟩
    · rw [h token hbegins hne, hbound]
    · rw [h longer hlonger (List.ne_nil_of_length_pos (Nat.zero_lt_of_lt hlt))]
      exact hlongest longer hlonger hlt

theorem longestMatch?_bind {tokens : List String} (table : TokenTable α) (value : α)
    (h : ∀ token ∈ tokens, token.toList <+: word → token = "") :
    (table.bind tokens value).longestMatch? word = table.longestMatch? word := by
  refine longestMatch?_congr fun token hbegins hne => ?_
  rw [get?_bind, if_neg]
  intro hmem
  have hempty := h _ hmem
  rw [String.toList_ofList] at hempty
  have htoken := congrArg String.toList (hempty hbegins)
  rw [String.toList_ofList] at htoken
  exact hne htoken

/-! ## Two tables -/

/-- The tables bind the same tokens, to values that are related at their token. -/
def Corresponds (rel : String → α → β → Prop) (table : TokenTable α) (other : TokenTable β) :
    Prop :=
  ∀ token, Option.Rel (rel token) (table.get? token) (other.get? token)

/-- What two tables find in a word: the same token, with related values. -/
def MatchAlike (rel : String → α → β → Prop) :
    Option (List Char × α) → Option (List Char × β) → Prop :=
  Option.Rel fun found other => found.1 = other.1 ∧ rel (String.ofList found.1) found.2 other.2

section Corresponds

variable {rel : String → α → β → Prop} {other : TokenTable β}

theorem MatchAlike.mono {wider : String → α → β → Prop} {found : Option (List Char × α)}
    {second : Option (List Char × β)} (h : MatchAlike rel found second)
    (hwider : ∀ token a b, rel token a b → wider token a b) : MatchAlike wider found second := by
  cases h with
  | none => exact .none
  | some hfound => exact .some ⟨hfound.1, hwider _ _ _ hfound.2⟩

theorem Corresponds.get?_eq_none (h : Corresponds rel table other) {token : String}
    (hnone : table.get? token = none) : other.get? token = none := by
  have htoken := h token
  rw [hnone] at htoken
  cases hother : other.get? token with
  | none => rfl
  | some value =>
    rw [hother] at htoken
    cases htoken

theorem Corresponds.longestMatch? (h : Corresponds rel table other) (word : List Char) :
    MatchAlike rel (table.longestMatch? word) (other.longestMatch? word) := by
  cases hmatch : table.longestMatch? word with
  | none =>
    have hnone := longestMatch?_eq_none_iff.mp hmatch
    rw [longestMatch?_eq_none_iff.mpr fun token hbegins hne =>
      h.get?_eq_none (hnone token hbegins hne)]
    exact .none
  | some found =>
    obtain ⟨token, value⟩ := found
    obtain ⟨hne, hbegins, hbound, hlongest⟩ := longestMatch?_eq_some_iff.mp hmatch
    have htoken := h (String.ofList token)
    rw [hbound] at htoken
    cases hother : other.get? (String.ofList token) with
    | none =>
      rw [hother] at htoken
      cases htoken
    | some second =>
      rw [hother] at htoken
      cases htoken with
      | some hrel =>
        rw [longestMatch?_eq_some_iff.mpr ⟨hne, hbegins, hother, fun longer hlonger hlt =>
          h.get?_eq_none (hlongest longer hlonger hlt)⟩]
        exact .some ⟨rfl, hrel⟩

theorem corresponds_empty : Corresponds rel empty empty := by
  intro token
  rw [get?_empty, get?_empty]
  exact .none

theorem Corresponds.bind (h : Corresponds rel table other) {tokens : List String} {value : α}
    {second : β} (hrel : ∀ token ∈ tokens, rel token value second) :
    Corresponds rel (table.bind tokens value) (other.bind tokens second) := by
  intro token
  rw [get?_bind, get?_bind]
  by_cases hmem : token ∈ tokens
  · rw [if_pos hmem, if_pos hmem]
    exact .some (hrel token hmem)
  · rw [if_neg hmem, if_neg hmem]
    exact h token

theorem Corresponds.bindAll (h : Corresponds rel table other)
    {groups : List (List String × α)} {others : List (List String × β)}
    (hgroups : List.Forall₂ (fun group second =>
      group.1 = second.1 ∧ ∀ token ∈ group.1, rel token group.2 second.2) groups others) :
    Corresponds rel (table.bindAll groups) (other.bindAll others) := by
  induction hgroups generalizing table other with
  | nil => exact h
  | @cons group second _ _ hgroup _ ih =>
    obtain ⟨tokens, value⟩ := group
    obtain ⟨_, second⟩ := second
    obtain ⟨rfl, hrel⟩ := hgroup
    exact ih (h.bind hrel)

end Corresponds

end LogLayout.TokenTable
