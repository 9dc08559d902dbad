import LogLayout.Bundled
import LogLayout.Proofs.Layout.Coherence
import LogLayout.Proofs.Pattern.Lookups

/-!
# Bindings that a pattern does not use

A table matters to a pattern by its answers to the look-ups that the pattern leads to, and by
nothing else. So a binding that no look-up can find may come and go.

Results:
1. `compile_eq_of_matchAlike`: tables that find the same in the runs that are looked up compile a
   pattern to the same.
2. `compile_bind_of_not_begins`, `compile_bind_of_not_word`: bindings of tokens that begin none of
   these runs, or are no words at all, change no compilation.
3. `perform_register_of_not_begins`: a layout takes such bindings, and goes on as before.
-/

namespace LogLayout

open Pattern (compile Compiled Lookup lookups)

variable {table other : TokenTable Factory} {pattern : String} {tokens : List String}
  {factory : Factory}

namespace Pattern

theorem Compiled.Corresponds.eq {first second : Compiled} (h : first.Corresponds Eq second) :
    first = second := by
  obtain ⟨chain, warnings⟩ := first
  obtain ⟨others, _⟩ := second
  obtain ⟨hchain, rfl⟩ := h
  have hlinks : chain = others := by
    refine List.forall₂_eq_eq_eq ▸ hchain.imp fun link other hlink => ?_
    obtain ⟨converter, specifier⟩ := link
    obtain ⟨rfl, rfl⟩ := hlink
    rfl
  rw [hlinks]

/-- The match in a run that is looked up is all that a table is asked for. -/
theorem compile_eq_of_matchAlike
    (h : ∀ l ∈ lookups table pattern.toList,
      TokenTable.MatchAlike (fun _ factory second => ∀ options, factory options = second options)
        (table.longestMatch? l.word) (other.longestMatch? l.word)) :
    compile table pattern = compile other pattern := by
  have hanswers : ∀ l ∈ lookups table pattern.toList, l.AnswersAlike Eq table other := by
    intro l hl
    refine (h l hl).mono fun token factory second hequal => ?_
    rw [hequal]
    exact .refl fun _ _ => rfl
  have hends := compile_endsAlike (fun _ => rfl) (correspond_scan hanswers)
  exact (hends.mono fun first second h => h.eq).eq

/-! ## Bindings that are never found -/

/-- Bindings of tokens that begin no run that is looked up. -/
theorem compile_bind_of_not_begins
    (h : ∀ token ∈ tokens, ∀ l ∈ lookups table pattern.toList,
      token.toList <+: l.word → token = "") :
    compile (table.bind tokens factory) pattern = compile table pattern := by
  refine (compile_eq_of_matchAlike fun l hl => ?_).symm
  rw [TokenTable.longestMatch?_bind table factory fun token htoken => h token htoken l hl]
  cases table.longestMatch? l.word with
  | none => exact .none
  | some found => exact .some ⟨rfl, fun _ => rfl⟩

/-- Only words are looked up. -/
theorem compile_bind_of_not_word
    (h : ∀ token ∈ tokens, token = "" ∨ ∃ c ∈ token.toList, c.isAlpha = false) :
    compile (table.bind tokens factory) pattern = compile table pattern := by
  refine compile_bind_of_not_begins fun token htoken l _ hbegins => ?_
  rcases h token htoken with hempty | ⟨c, hc, hletter⟩
  · exact hempty
  · have hword : c.isAlpha = true :=
      List.mem_takeWhile_imp (hbegins.subset hc)
    rw [hletter] at hword
    cases hword

end Pattern

namespace Layout

/-! ## Layouts -/

section

variable [Libraries]

theorem layeredTable_bind (settings : Settings) (bindings : TokenTable Factory)
    (tokens : List String) (factory : Factory) :
    layeredTable settings (bindings.bind tokens factory) =
      (layeredTable settings bindings).bind tokens factory := by
  refine TokenTable.ext fun token => ?_
  unfold layeredTable
  rw [TokenTable.get?_extend, TokenTable.get?_bind, TokenTable.get?_bind, TokenTable.get?_extend]
  split <;> rfl

theorem perform_register_of_not_begins {layout : Layout} (h : layout.Coherent)
    (htokens : ∀ token ∈ tokens,
      ∀ l ∈ lookups layout.table (effectivePattern layout.pattern).toList,
        ¬ token.toList <+: l.word) :
    let after := layout.perform (.register tokens factory)
    after.2 = none ∧ after.1.pattern = layout.pattern ∧ after.1.chain = layout.chain ∧
      after.1.warnings = layout.warnings := by
  have hcompile : compileGiven (layeredTable layout.settings (layout.bindings.bind tokens factory))
      layout.pattern = .ok ⟨layout.chain, layout.warnings⟩ := by
    rw [← h.compiled, layeredTable_bind, ← h.layered, compileGiven_eq, compileGiven_eq,
      Pattern.compile_bind_of_not_begins fun token htoken l hl hbegins =>
        absurd hbegins (htokens token htoken l hl)]
  have hattempt := perform_eq layout (.register tokens factory)
  simp only [attempt, reconfigured, hcompile, Except.map] at hattempt
  rw [hattempt]
  exact ⟨rfl, rfl, rfl, rfl⟩

/-- Compilation knows a table by what it finds in the runs of letters that it looks up. Take two
tables that, in every run that is looked up to compile a pattern with the first one, both find
nothing, or both the same token, bound to factories that come to the same for all options: both
compile the pattern to the same result. So bindings of the empty token, and of tokens with a
character that is no ASCII letter, change no compilation. And after any run of changes a layout
takes a binding of tokens that begin no run that is looked up for its pattern, whatever the factory,
and keeps its pattern, its chain and its warnings. -/
theorem compile_by_lookups :
    (∀ (table other : TokenTable Factory) (pattern : String),
      (∀ l ∈ lookups table pattern.toList,
        TokenTable.MatchAlike
          (fun _ factory second => ∀ options, factory options = second options)
          (table.longestMatch? l.word) (other.longestMatch? l.word)) →
      compile table pattern = compile other pattern) ∧
    (∀ (table : TokenTable Factory) (tokens : List String) (factory : Factory),
      (∀ token ∈ tokens, token = "" ∨ ∃ c ∈ token.toList, c.isAlpha = false) →
      ∀ pattern, compile (table.bind tokens factory) pattern = compile table pattern) ∧
    ∀ config built, build config = .ok built → ∀ (changes : List Change) (tokens : List String)
      (factory : Factory),
      (∀ token ∈ tokens,
        ∀ l ∈ lookups (built.run changes).table
            (effectivePattern (built.run changes).pattern).toList,
          ¬ token.toList <+: l.word) →
      let after := (built.run changes).perform (.register tokens factory)
      after.2 = none ∧ after.1.pattern = (built.run changes).pattern ∧
        after.1.chain = (built.run changes).chain ∧
        after.1.warnings = (built.run changes).warnings := by
  refine ⟨fun table other pattern h => Pattern.compile_eq_of_matchAlike h,
    fun table tokens factory h pattern => Pattern.compile_bind_of_not_word h,
    fun config built hb changes tokens factory h => ?_⟩
  have hbuilt := (build_eq_ok_iff.mp hb).1
  exact perform_register_of_not_begins (coherent_run hbuilt changes) h

end

/-- The block behind `%m` is for its options, so `q` is not looked up there; and what a default
layout looks up are `m` and `n`. -/
theorem block_compile_by_lookups :
    (compile (TokenTable.empty.bind ["m"] (.constant .message)) "%m\x7b%q\x7d" =
        compile ((TokenTable.empty.bind ["m"] (.constant .message)).bind ["q", "em"]
          (.constant .pid)) "%m\x7b%q\x7d") ∧
    (compile (TokenTable.empty.bind ["", "m1", "é"] (.constant .pid)) "%m1é" =
        compile TokenTable.empty "%m1é") ∧
    ∃ built, build {} = .ok built ∧
      ((built.run []).perform (.register ["mn", "d"] (.constant .pid))).2 = none ∧
      ((built.run []).perform (.register ["mn", "d"] (.constant .pid))).1.chain =
        (built.run []).chain := by
  have hblock : lookups (TokenTable.empty.bind ["m"] (.constant .message))
      "%m\x7b%q\x7d".toList = [⟨"m\x7b%q\x7d".toList⟩] := by cbv
  have hmessage : Pattern.Piece.read (layeredTable {} .empty) '%' ['m', '%', 'n'] =
      (.directive ⟨⟨false, [], none⟩, ['m'], .constant .message, .absent⟩, ['%', 'n']) := by cbv
  have hend : Pattern.Piece.read (layeredTable {} .empty) '%' ['n'] =
      (.directive ⟨⟨false, [], none⟩, ['n'], .constant .lineBreak, .absent⟩, []) := by cbv
  have hdefault : lookups (layeredTable {} .empty) ['%', 'm', '%', 'n'] =
      [⟨['m', '%', 'n']⟩, ⟨['n']⟩] := by
    rw [lookups, hmessage, lookups, hend, lookups]
    rfl
  have hcompiled : compileGiven (layeredTable {} .empty) "" =
      .ok ⟨[⟨.message, {}⟩, ⟨.lineBreak, {}⟩], []⟩ := by
    rw [compileGiven_eq, Pattern.compile_eq]
    cbv
  have hnotWords : ∀ token ∈ ["", "m1", "é"],
      token = "" ∨ ∃ c ∈ token.toList, c.isAlpha = false := by simp
  obtain ⟨hsame, hwords, hlayouts⟩ := compile_by_lookups
  refine ⟨hsame _ _ _ fun l hl => ?_, hwords .empty _ (.constant .pid) hnotWords _, ?_⟩
  · rw [TokenTable.longestMatch?_bind (TokenTable.empty.bind ["m"] _)]
    · cases TokenTable.longestMatch? _ l.word with
      | none => exact .none
      | some found => exact .some ⟨rfl, fun _ => rfl⟩
    · rw [hblock] at hl
      revert l
      decide
  · obtain ⟨built, hb⟩ : ∃ built, build {} = .ok built := by
      rw [build_eq, hcompiled]
      exact ⟨_, rfl⟩
    obtain ⟨hbuilt, hconfig, _⟩ := build_eq_ok_iff.mp hb
    have hpattern : built.pattern = "" := congrArg LayoutConfig.pattern hconfig
    have hsettings : built.settings = {} := congrArg LayoutConfig.settings hconfig
    have hbindings : built.bindings = .empty := congrArg LayoutConfig.bindings hconfig
    have htable : built.table = layeredTable {} .empty := by
      rw [hbuilt.layered, hsettings, hbindings]
    have hlooked : lookups built.table (effectivePattern built.pattern).toList =
        [⟨['m', '%', 'n']⟩, ⟨['n']⟩] := by
      rw [htable, hpattern, ← hdefault]
      rfl
    obtain ⟨hnone, _, hchain, _⟩ := hlayouts {} built hb [] ["mn", "d"] (.constant .pid) (by
      rw [show built.run [] = built from rfl, hlooked]
      decide)
    exact ⟨built, hb, hnone, hchain⟩

end Layout

end LogLayout
