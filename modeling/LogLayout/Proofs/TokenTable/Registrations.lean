import LogLayout.Proofs.TokenTable.Lookup
import LogLayout.TokenTable.Registrar
import Mathlib

/-!
# The last call that bound a token

Several tables are filled by calls in any order: values are registered, shared under more tokens,
and copied from one table to another. What a token is bound to then is told by the calls alone, and
so is which tokens are bound to one and the same registration.

Results:
1. `get?_after_snoc`: what one call does to all tables.
2. `get?_after_iff`: a token is bound as the last call that bound it says.
3. `made_of_lastBound`, `Made.eq_of_serial_eq`: every bound value got its number in a call, and no
   other value has that number.
4. At the end of the file: what the tables hold after calls.
-/

namespace LogLayout.Registrar

variable {α : Type} {n : Nat}

/-- So many empty tables. -/
def opened (n : Nat) : Registrar α :=
  { tables := List.replicate n .empty }

/-- A call on one of so many tables. -/
inductive Call (n : Nat) (α : Type) where
  /-- A value gets its number before any token is bound to it. -/
  | stamp (value : α)
  | register (index : Fin n) (tokens : List String) (value : α)
  | share (index : Fin n) (tokens : List String) (shared : Stamped α)
  /-- The bindings of another table are copied, in the order of the entries. -/
  | extend (index other : Fin n) (entries : List (String × Stamped α))

def Call.perform (registrar : Registrar α) : Call n α → Registrar α
  | .stamp value => (registrar.stamp value).2
  | .register index tokens value => registrar.register index tokens value
  | .share index tokens shared => registrar.share index tokens shared
  | .extend index _ entries => registrar.copy index entries

/-- The tables after calls, which were empty before them. -/
def after (calls : List (Call n α)) : Registrar α :=
  calls.foldl Call.perform (opened n)

/-- The value that gets a number in the call. -/
def Call.value? : Call n α → Option α
  | .stamp value | .register _ _ value => some value
  | .share _ _ _ | .extend _ _ _ => none

/-- What the call binds a token of the table at the index to. To copy bindings is to bind all tokens
that are bound in the other table then. -/
def Call.bound? (registrar : Registrar α) (index : Fin n) (token : String) :
    Call n α → Option (Stamped α)
  | .stamp _ => none
  | .register changed tokens value =>
    if changed = index ∧ token ∈ tokens then some ⟨registrar.issued, value⟩ else none
  | .share changed tokens shared =>
    if changed = index ∧ token ∈ tokens then some shared else none
  | .extend changed other _ =>
    if changed = index then (registrar.table other).get? token else none

/-- The last of the calls that bound the token bound it to the value. -/
inductive LastBound : List (Call n α) → Fin n → String → Stamped α → Prop where
  | last {calls : List (Call n α)} {call : Call n α} {index : Fin n} {token : String}
    {stamped : Stamped α} : call.bound? (after calls) index token = some stamped →
    LastBound (calls ++ [call]) index token stamped
  | earlier {calls : List (Call n α)} {call : Call n α} {index : Fin n} {token : String}
    {stamped : Stamped α} : call.bound? (after calls) index token = none →
    LastBound calls index token stamped → LastBound (calls ++ [call]) index token stamped

/-- One of the calls gave the value its number, which says how many got one before. -/
def Made (calls : List (Call n α)) (stamped : Stamped α) : Prop :=
  (calls.filterMap Call.value?)[stamped.serial]? = some stamped.value

/-- The call can be made behind others: what it shares has got its number in one of them, and what it
copies are the bindings of the other table, in any order. -/
def Call.Possible (calls : List (Call n α)) : Call n α → Prop
  | .stamp _ | .register _ _ _ => True
  | .share _ _ shared => Made calls shared
  | .extend _ other entries => entries.Perm ((after calls).table other).toList

/-- Calls that can be made one behind the other. -/
inductive Session : List (Call n α) → Prop where
  | nil : Session []
  | snoc {calls : List (Call n α)} {call : Call n α} :
    Session calls → call.Possible calls → Session (calls ++ [call])

/-- None of the calls, which are made behind others, binds the token. -/
def Spared (calls : List (Call n α)) (index : Fin n) (token : String) :
    List (Call n α) → Prop
  | [] => True
  | call :: later =>
    call.bound? (after calls) index token = none ∧ Spared (calls ++ [call]) index token later

variable {registrar : Registrar α} {calls : List (Call n α)} {call : Call n α}
  {index other : Fin n} {token : String} {stamped : Stamped α}

/-! ## What one call does -/

theorem after_snoc (calls : List (Call n α)) (call : Call n α) :
    after (calls ++ [call]) = call.perform (after calls) :=
  List.foldl_concat _ _ _ _

/-- To extend a table by another one is the call that copies in the order of the tokens. -/
theorem extend_eq_perform (registrar : Registrar α) (index other : Fin n) :
    registrar.extend index other =
      (Call.extend index other (registrar.table other).toList).perform registrar := rfl

theorem Call.possible_extend (calls : List (Call n α)) (index other : Fin n) :
    (Call.extend index other ((after calls).table other).toList).Possible calls :=
  List.Perm.refl _

theorem length_perform (registrar : Registrar α) (call : Call n α) :
    (call.perform registrar).tables.length = registrar.tables.length := by
  cases call with
  | stamp => rfl
  | register | share | extend => exact List.length_modify _ _ _

theorem length_after (calls : List (Call n α)) : (after calls).tables.length = n := by
  unfold after
  induction calls using List.reverseRecOn with
  | nil => exact List.length_replicate
  | append_singleton calls call ih => rw [List.foldl_concat, length_perform, ih]

theorem table_update (h : registrar.tables.length = n)
    (change : TokenTable (Stamped α) → TokenTable (Stamped α)) (index other : Fin n) :
    (registrar.update index change).table other =
      if index = other then change (registrar.table index) else registrar.table other := by
  have hother : other.val < registrar.tables.length := h ▸ other.isLt
  unfold table update
  rw [List.getElem?_modify, List.getElem?_eq_getElem hother]
  by_cases heq : index = other
  · subst heq
    rw [if_pos rfl, List.getElem?_eq_getElem hother]
    exact if_pos rfl
  · rw [if_neg heq]
    exact if_neg (Fin.val_ne_of_ne heq)

theorem get?_table_share (h : registrar.tables.length = n) (changed index : Fin n)
    (tokens : List String) (shared : Stamped α) (token : String) :
    ((registrar.share changed tokens shared).table index).get? token =
      (if changed = index ∧ token ∈ tokens then some shared else none).or
        ((registrar.table index).get? token) := by
  unfold share
  rw [table_update h]
  by_cases heq : changed = index
  · subst heq
    rw [if_pos rfl, TokenTable.get?_bind]
    by_cases hmem : token ∈ tokens
    · rw [if_pos hmem, if_pos ⟨rfl, hmem⟩, Option.some_or]
    · rw [if_neg hmem, if_neg fun hboth => hmem hboth.2, Option.none_or]
  · rw [if_neg heq, if_neg fun hboth => heq hboth.1, Option.none_or]

theorem get?_table_copy (h : registrar.tables.length = n) (changed index other : Fin n)
    {entries : List (String × Stamped α)} (hentries : entries.Perm (registrar.table other).toList)
    (token : String) :
    ((registrar.copy changed entries).table index).get? token =
      (if changed = index then (registrar.table other).get? token else none).or
        ((registrar.table index).get? token) := by
  unfold copy
  rw [table_update h]
  by_cases heq : changed = index
  · subst heq
    rw [if_pos rfl, if_pos rfl, TokenTable.get?_insertAll_of_perm _ hentries]
  · rw [if_neg heq, if_neg heq, Option.none_or]

/-- A token is bound to what the call binds it to, and otherwise as it was before. -/
theorem get?_after_snoc (h : call.Possible calls) (index : Fin n) (token : String) :
    ((after (calls ++ [call])).table index).get? token =
      (call.bound? (after calls) index token).or (((after calls).table index).get? token) := by
  have hlength := length_after calls
  rw [after_snoc]
  cases call with
  | stamp value => rfl
  | register changed tokens value =>
    have hstamp : ((after calls).stamp value).2.tables.length = n := hlength
    exact get?_table_share hstamp changed index tokens ⟨(after calls).issued, value⟩ token
  | share changed tokens shared =>
    exact get?_table_share hlength changed index tokens shared token
  | extend changed other entries => exact get?_table_copy hlength changed index other h token

/-! ## What calls have done -/

theorem session_snoc_iff : Session (calls ++ [call]) ↔ Session calls ∧ call.Possible calls := by
  constructor
  · intro h
    generalize hall : calls ++ [call] = all at h
    cases h with
    | nil => exact absurd hall (List.append_ne_nil_of_right_ne_nil calls (List.cons_ne_nil _ _))
    | snoc hcalls hcall =>
      obtain ⟨rfl, hlast⟩ := List.append_inj' hall rfl
      obtain rfl := List.singleton_inj.mp hlast
      exact ⟨hcalls, hcall⟩
  · exact fun h => .snoc h.1 h.2

theorem lastBound_snoc_iff :
    LastBound (calls ++ [call]) index token stamped ↔
      call.bound? (after calls) index token = some stamped ∨
        call.bound? (after calls) index token = none ∧ LastBound calls index token stamped := by
  constructor
  · intro h
    generalize hall : calls ++ [call] = all at h
    cases h with
    | last hbound =>
      obtain ⟨rfl, hlast⟩ := List.append_inj' hall rfl
      obtain rfl := List.singleton_inj.mp hlast
      exact .inl hbound
    | earlier hnone hbound =>
      obtain ⟨rfl, hlast⟩ := List.append_inj' hall rfl
      obtain rfl := List.singleton_inj.mp hlast
      exact .inr ⟨hnone, hbound⟩
  · rintro (hbound | ⟨hnone, hbound⟩)
    · exact .last hbound
    · exact .earlier hnone hbound

theorem get?_after_nil (index : Fin n) (token : String) :
    ((after ([] : List (Call n α))).table index).get? token = none := by
  show ((List.replicate n (TokenTable.empty : TokenTable (Stamped α)))[index.val]?.getD
    .empty).get? token = none
  rw [List.getElem?_replicate_of_lt index.isLt]
  exact TokenTable.get?_empty token

/-- The last writer wins. -/
theorem get?_after_iff (h : Session calls) :
    ((after calls).table index).get? token = some stamped ↔
      LastBound calls index token stamped := by
  induction h with
  | nil =>
    rw [get?_after_nil]
    constructor
    · intro hnone
      cases hnone
    · intro hbound
      generalize hall : ([] : List (Call n α)) = all at hbound
      cases hbound with
      | last | earlier =>
        exact absurd hall.symm (List.append_ne_nil_of_right_ne_nil _ (List.cons_ne_nil _ _))
  | @snoc calls call _ hcall ih =>
    rw [get?_after_snoc hcall, Option.or_eq_some_iff, lastBound_snoc_iff, ih]

theorem Session.of_append {later : List (Call n α)} (h : Session (calls ++ later)) :
    Session calls := by
  induction later using List.reverseRecOn with
  | nil => rwa [List.append_nil] at h
  | append_singleton later call ih =>
    rw [← List.append_assoc] at h
    exact ih (session_snoc_iff.mp h).1

/-- A token that no later call binds is bound as it was. -/
theorem get?_after_of_spared {later : List (Call n α)} (h : Session (calls ++ later))
    (hspared : Spared calls index token later) :
    ((after (calls ++ later)).table index).get? token =
      ((after calls).table index).get? token := by
  induction later generalizing calls with
  | nil => rw [List.append_nil]
  | cons call later ih =>
    obtain ⟨hnone, hlater⟩ := hspared
    rw [List.append_cons] at h ⊢
    have hcall := (session_snoc_iff.mp h.of_append).2
    rw [ih h hlater, get?_after_snoc hcall, hnone, Option.none_or]

/-! ## Numbers -/

theorem issued_after (calls : List (Call n α)) :
    (after calls).issued = (calls.filterMap Call.value?).length := by
  induction calls using List.reverseRecOn with
  | nil => rfl
  | append_singleton calls call ih =>
    rw [after_snoc, List.filterMap_append, List.length_append, ← ih]
    cases call <;> rfl

theorem Made.snoc (h : Made calls stamped) (call : Call n α) : Made (calls ++ [call]) stamped := by
  unfold Made at h ⊢
  obtain ⟨hlt, _⟩ := List.getElem?_eq_some_iff.mp h
  rw [List.filterMap_append, List.getElem?_append_left hlt, h]

theorem made_register (calls : List (Call n α)) (tokens : List String) (value : α) :
    Made (calls ++ [.register index tokens value]) ⟨(after calls).issued, value⟩ := by
  unfold Made
  rw [List.filterMap_append, issued_after]
  exact List.getElem?_concat_length

/-- Every value that a token is bound to got its number in one of the calls. -/
theorem made_of_lastBound (h : Session calls) (hbound : LastBound calls index token stamped) :
    Made calls stamped := by
  induction h generalizing index token stamped with
  | nil =>
    rw [← get?_after_iff .nil, get?_after_nil] at hbound
    cases hbound
  | @snoc calls call hcalls hcall ih =>
    rcases lastBound_snoc_iff.mp hbound with hlast | ⟨_, hearlier⟩
    · cases call with
      | stamp value => cases hlast
      | register changed tokens value =>
        obtain ⟨_, hstamped⟩ := Option.ite_none_right_eq_some.mp hlast
        obtain rfl := Option.some.inj hstamped
        exact made_register calls tokens value
      | share changed tokens shared =>
        obtain ⟨_, hstamped⟩ := Option.ite_none_right_eq_some.mp hlast
        obtain rfl := Option.some.inj hstamped
        exact Made.snoc hcall _
      | extend changed other entries =>
        obtain ⟨_, hother⟩ := Option.ite_none_right_eq_some.mp hlast
        exact (ih ((get?_after_iff hcalls).mp hother)).snoc _
    · exact (ih hearlier).snoc call

/-- A number belongs to one value. -/
theorem Made.eq_of_serial_eq {first second : Stamped α} (h : Made calls first)
    (hsecond : Made calls second) (hserial : first.serial = second.serial) : first = second := by
  obtain ⟨serial, value⟩ := first
  obtain ⟨_, other⟩ := second
  subst hserial
  have hvalue : value = other := Option.some.inj (h.symm.trans hsecond)
  rw [hvalue]

theorem issued_lt_of_append (calls later : List (Call n α)) (tokens : List String) (value : α) :
    (after calls).issued < (after (calls ++ .register index tokens value :: later)).issued := by
  rw [issued_after, issued_after, List.filterMap_append, List.length_append]
  exact Nat.lt_add_of_pos_right (Nat.succ_pos _)

/-! ## What the tables hold -/

/-- The table has the tokens that were bound by a call, each once, and counts them. -/
structure Lists (table : TokenTable (Stamped α)) (bound : String → Stamped α → Prop) : Prop where
  get? : ∀ token stamped, table.get? token = some stamped ↔ bound token stamped
  contains : ∀ token, table.contains token = true ↔ ∃ stamped, bound token stamped
  tokens : ∀ token, token ∈ table.tokens ↔ ∃ stamped, bound token stamped
  nodup : table.tokens.Nodup
  size : table.size = table.tokens.length
  isEmpty : table.isEmpty = true ↔ ∀ token stamped, ¬bound token stamped

theorem lists_after (h : Session calls) (index : Fin n) :
    Lists ((after calls).table index) (LastBound calls index) where
  get? := fun _ _ => get?_after_iff h
  contains := fun token => by
    rw [TokenTable.contains_eq_isSome_get?, Option.isSome_iff_exists]
    exact exists_congr fun _ => get?_after_iff h
  tokens := fun token => by
    rw [TokenTable.mem_tokens_iff]
    exact exists_congr fun _ => get?_after_iff h
  nodup := TokenTable.nodup_tokens _
  size := (TokenTable.length_tokens _).symm
  isEmpty := by
    rw [TokenTable.isEmpty_iff]
    simp only [Option.eq_none_iff_forall_ne_some, ne_eq, get?_after_iff h]

/-- Two tokens are bound by the same registration iff they are bound to one value with one
number. -/
theorem same?_eq_some_true_iff {a b : String} (h : Session calls) :
    (after calls).same? index a b = some true ↔
      ∃ stamped, LastBound calls index a stamped ∧ LastBound calls index b stamped := by
  simp only [← get?_after_iff h]
  unfold same?
  cases ha : ((after calls).table index).get? a with
  | none => simp
  | some first =>
    cases hb : ((after calls).table index).get? b with
    | none => simp
    | some second =>
      have hfirst := made_of_lastBound h ((get?_after_iff h).mp ha)
      have hsecond := made_of_lastBound h ((get?_after_iff h).mp hb)
      show some (first.serial == second.serial) = some true ↔ _
      rw [Option.some.injEq, beq_iff_eq]
      constructor
      · intro hserial
        obtain rfl := hfirst.eq_of_serial_eq hsecond hserial
        exact ⟨first, rfl, rfl⟩
      · rintro ⟨stamped, hstamped, hother⟩
        rw [Option.some.inj hstamped, Option.some.inj hother]

/-- After a registration its tokens are bound to the value with the next number, and so they are
behind later calls that spare them. -/
theorem lastBound_register {before later : List (Call n α)} {tokens : List String} {value : α}
    (h : Session (before ++ .register index tokens value :: later)) (htoken : token ∈ tokens)
    (hspared : Spared (before ++ [.register index tokens value]) index token later) :
    LastBound (before ++ .register index tokens value :: later) index token
      ⟨(after before).issued, value⟩ := by
  rw [← get?_after_iff h]
  rw [List.append_cons] at h ⊢
  rw [get?_after_of_spared h hspared, get?_after_iff h.of_append]
  exact .last (if_pos ⟨rfl, htoken⟩)

/-- A table is a map in which the last writer wins. After any calls that can be made, on any number
of tables, each of them lists what the last call that bound a token bound it to. Bindings may be
copied in any order, which changes no other table. The tokens of a registration that later calls
spare are bound to one value with one number; two registrations have different numbers; and tokens
are bound by the same registration iff one value with one number is bound to them. In every word the
longest bound prefix but the empty one is found, with the value it is bound to. -/
theorem last_writer_wins {calls : List (Call n α)} (h : Session calls) :
    (∀ index : Fin n, Lists ((after calls).table index) (LastBound calls index)) ∧
    (∀ (index other : Fin n) (entries : List (String × Stamped α)),
      entries.Perm ((after calls).table other).toList →
      (after (calls ++ [.extend index other entries])).table index =
        ((after calls).table index).extend ((after calls).table other) ∧
      ∀ third : Fin n, index ≠ third →
        (after (calls ++ [.extend index other entries])).table third =
          (after calls).table third) ∧
    (∀ before index tokens value later, calls = before ++ .register index tokens value :: later →
      ∀ token ∈ tokens, Spared (before ++ [.register index tokens value]) index token later →
        LastBound calls index token ⟨(after before).issued, value⟩) ∧
    (∀ before index tokens value middle other more second later,
      calls = before ++ .register index tokens value :: (middle ++
        .register other more second :: later) →
      (after before).issued ≠ (after (before ++ .register index tokens value :: middle)).issued) ∧
    (∀ (index other : Fin n) (a b : String) (first second : Stamped α),
      LastBound calls index a first → LastBound calls other b second →
      first.serial = second.serial → first = second) ∧
    (∀ (index : Fin n) (a b : String), (after calls).same? index a b = some true ↔
      ∃ stamped, LastBound calls index a stamped ∧ LastBound calls index b stamped) ∧
    ∀ (index : Fin n) (word : List Char),
      (∀ token stamped,
        ((after calls).table index).longestMatch? word = some (token, stamped) ↔
          token ≠ [] ∧ token <+: word ∧ LastBound calls index (String.ofList token) stamped ∧
          ∀ longer, longer <+: word → token.length < longer.length →
            ∀ other, ¬LastBound calls index (String.ofList longer) other) ∧
      (((after calls).table index).longestMatch? word = none ↔
        ∀ token, token <+: word → token ≠ [] →
          ∀ stamped, ¬LastBound calls index (String.ofList token) stamped) := by
  have hnone : ∀ (index : Fin n) (token : String),
      ((after calls).table index).get? token = none ↔
        ∀ stamped, ¬LastBound calls index token stamped := fun index token => by
    simp only [Option.eq_none_iff_forall_ne_some, ne_eq, get?_after_iff h]
  refine ⟨lists_after h, fun index other entries hentries => ⟨?_, fun third hthird => ?_⟩, ?_,
    ?_, ?_, fun index a b => same?_eq_some_true_iff h,
    fun index word => ⟨fun token stamped => ?_, ?_⟩⟩
  · rw [after_snoc]
    show ((after calls).copy index entries).table index = _
    unfold copy
    rw [table_update (length_after calls), if_pos rfl, TokenTable.insertAll_of_perm _ hentries]
  · rw [after_snoc]
    show ((after calls).copy index entries).table third = _
    unfold copy
    rw [table_update (length_after calls), if_neg hthird]
  · intro before index tokens value later hcalls token htoken hspared
    subst hcalls
    exact lastBound_register h htoken hspared
  · intro before index tokens value middle other more second later hcalls
    exact Nat.ne_of_lt (issued_lt_of_append before middle tokens value)
  · intro index other a b first second hfirst hsecond
    exact (made_of_lastBound h hfirst).eq_of_serial_eq (made_of_lastBound h hsecond)
  · rw [TokenTable.longestMatch?_eq_some_iff]
    constructor
    · rintro ⟨hne, hbegins, hbound, hlongest⟩
      refine ⟨hne, hbegins, (get?_after_iff h).mp hbound, fun longer hlonger hlt => ?_⟩
      exact (hnone index _).mp (hlongest longer hlonger hlt)
    · rintro ⟨hne, hbegins, hbound, hlongest⟩
      refine ⟨hne, hbegins, (get?_after_iff h).mpr hbound, fun longer hlonger hlt => ?_⟩
      exact (hnone index _).mpr (hlongest longer hlonger hlt)
  · rw [TokenTable.longestMatch?_eq_none_iff]
    simp only [hnone]

/-- A token that is bound again by copying, in an order that is not that of the tokens, and a value
that is shared across tables. -/
def borrowing : List (Call 2 Nat) :=
  [.register 0 ["d", "date"] 10, .register 1 ["d", "", "d"] 20,
    .extend 0 1 [("d", ⟨1, 20⟩), ("", ⟨1, 20⟩)], .share 1 ["x"] ⟨0, 10⟩]

theorem session_borrowing : Session borrowing := by
  have hlist : ((after ([.register 0 ["d", "date"] 10, .register 1 ["d", "", "d"] 20] :
      List (Call 2 Nat))).table (1 : Fin 2)).toList = [("", ⟨1, 20⟩), ("d", ⟨1, 20⟩)] := by
    cbv
  have hcopied : (Call.extend 0 1 [("d", ⟨1, 20⟩), ("", ⟨1, 20⟩)] : Call 2 Nat).Possible
      [.register 0 ["d", "date"] 10, .register 1 ["d", "", "d"] 20] := by
    show List.Perm _ _
    rw [hlist]
    exact List.Perm.swap _ _ _
  have hempty : Session ([] : List (Call 2 Nat)) := .nil
  have hfirst : Session ([] ++ [.register 0 ["d", "date"] 10] : List (Call 2 Nat)) :=
    hempty.snoc trivial
  have hsecond : Session ([] ++ [.register 0 ["d", "date"] 10] ++
      [.register 1 ["d", "", "d"] 20] : List (Call 2 Nat)) := hfirst.snoc trivial
  have hthird : Session ([] ++ [.register 0 ["d", "date"] 10] ++
      [.register 1 ["d", "", "d"] 20] ++ [.extend 0 1 [("d", ⟨1, 20⟩), ("", ⟨1, 20⟩)]] :
      List (Call 2 Nat)) := hsecond.snoc hcopied
  have hshared : (Call.share 1 ["x"] ⟨0, 10⟩ : Call 2 Nat).Possible
      ([] ++ [.register 0 ["d", "date"] 10] ++ [.register 1 ["d", "", "d"] 20] ++
        [.extend 0 1 [("d", ⟨1, 20⟩), ("", ⟨1, 20⟩)]]) := rfl
  exact hthird.snoc hshared

theorem borrowing_last_writer_wins :
    Session borrowing ∧
      LastBound borrowing 0 "d" ⟨1, 20⟩ ∧ LastBound borrowing 0 "date" ⟨0, 10⟩ ∧
      LastBound borrowing 1 "x" ⟨0, 10⟩ ∧ (after borrowing).same? 0 "d" "" = some true ∧
      ((after borrowing).table 1).longestMatch? "dates".toList = some ("d".toList, ⟨1, 20⟩) := by
  obtain ⟨hlists, _, _, _, _, hsame, _⟩ := last_writer_wins session_borrowing
  have hd : LastBound borrowing 0 "d" ⟨1, 20⟩ := ((hlists 0).get? _ _).mp (by cbv)
  have hnil : LastBound borrowing 0 "" ⟨1, 20⟩ := ((hlists 0).get? _ _).mp (by cbv)
  have hdate : LastBound borrowing 0 "date" ⟨0, 10⟩ := ((hlists 0).get? _ _).mp (by cbv)
  have hx : LastBound borrowing 1 "x" ⟨0, 10⟩ := ((hlists 1).get? _ _).mp (by cbv)
  exact ⟨session_borrowing, hd, hdate, hx, (hsame 0 "d" "").mpr ⟨_, hd, hnil⟩, by cbv⟩

end LogLayout.Registrar
