import Std.Data.ExtTreeMap

/-!
# Token tables

A token table binds the names of directives to values. A name is bound to the value it was bound
to last. Names are compared exactly, so `c` and `C` may be bound to different values.

Look-ups determine a table (`ext`); `get?_insert`, `get?_bind` and `get?_extend` say what the
operations do to them. Entries of another table may be copied in any order (`insertAll_of_perm`).
-/

namespace LogLayout

structure TokenTable (α : Type) where
  entries : Std.ExtTreeMap String α

namespace TokenTable

variable {α : Type}

def empty : TokenTable α := ⟨∅⟩

def get? (table : TokenTable α) (token : String) : Option α :=
  table.entries[token]?

def contains (table : TokenTable α) (token : String) : Bool :=
  table.entries.contains token

def size (table : TokenTable α) : Nat :=
  table.entries.size

def isEmpty (table : TokenTable α) : Bool :=
  table.entries.isEmpty

/-- The bound tokens in the order of their code points. -/
def tokens (table : TokenTable α) : List String :=
  table.entries.keys

def toList (table : TokenTable α) : List (String × α) :=
  table.entries.toList

def insert (table : TokenTable α) (token : String) (value : α) : TokenTable α :=
  ⟨table.entries.insert token value⟩

/-- Binds every one of the tokens to the value. -/
def bind (table : TokenTable α) (tokens : List String) (value : α) : TokenTable α :=
  tokens.foldl (fun table token => table.insert token value) table

/-- Binds tokens to values of their own, one after the other. -/
def insertAll (table : TokenTable α) (entries : List (String × α)) : TokenTable α :=
  entries.foldl (fun table (token, value) => table.insert token value) table

/-- Binds every token of the other table as it is bound there. -/
def extend (table other : TokenTable α) : TokenTable α :=
  table.insertAll other.toList

/-- Binds groups of tokens one after the other. -/
def bindAll (table : TokenTable α) (groups : List (List String × α)) : TokenTable α :=
  groups.foldl (fun table (tokens, value) => table.bind tokens value) table

/-- The longest prefix of the word that is bound, with its value. The empty prefix does not
count. -/
def longestMatch? (table : TokenTable α) (word : List Char) : Option (List Char × α) :=
  (List.range word.length).reverse.findSome? fun n =>
    let token := word.take (n + 1)
    (table.get? (String.ofList token)).map fun value => (token, value)

/-! ## Look-ups after binding -/

@[simp] theorem get?_empty (token : String) : (empty : TokenTable α).get? token = none := by
  simp [get?, empty]

@[simp] theorem get?_insert (table : TokenTable α) (token other : String) (value : α) :
    (table.insert token value).get? other = if token = other then some value
      else table.get? other := by
  simp [get?, insert, Std.ExtTreeMap.getElem?_insert]

/-- A token of the list is bound to the value, every other one as before. -/
theorem get?_bind (table : TokenTable α) (tokens : List String) (value : α) (token : String) :
    (table.bind tokens value).get? token = if token ∈ tokens then some value
      else table.get? token := by
  unfold bind
  induction tokens generalizing table with
  | nil => simp
  | cons first rest ih =>
    rw [List.foldl_cons, ih, get?_insert]
    by_cases hr : token ∈ rest
    · simp [hr]
    · by_cases hf : first = token
      · simp [hr, hf]
      · simp [hr, hf, Ne.symm hf]

theorem ext {a b : TokenTable α} (h : ∀ token, a.get? token = b.get? token) : a = b := by
  obtain ⟨a⟩ := a
  obtain ⟨b⟩ := b
  exact congrArg TokenTable.mk (Std.ExtTreeMap.ext_getElem? h)

/-! ## Listing what is bound -/

theorem contains_eq_isSome_get? (table : TokenTable α) (token : String) :
    table.contains token = (table.get? token).isSome :=
  Std.ExtTreeMap.contains_eq_isSome_getElem?

theorem mem_tokens_iff {table : TokenTable α} {token : String} :
    token ∈ table.tokens ↔ ∃ value, table.get? token = some value := by
  rw [← Option.isSome_iff_exists, ← contains_eq_isSome_get?]
  exact Std.ExtTreeMap.mem_keys

theorem nodup_tokens (table : TokenTable α) : table.tokens.Nodup :=
  Std.ExtTreeMap.nodup_keys

theorem length_tokens (table : TokenTable α) : table.tokens.length = table.size :=
  Std.ExtTreeMap.length_keys

theorem isEmpty_iff {table : TokenTable α} :
    table.isEmpty = true ↔ ∀ token, table.get? token = none := by
  have hkeys : table.tokens.isEmpty = table.isEmpty := Std.ExtTreeMap.isEmpty_keys
  rw [← hkeys, List.isEmpty_iff, List.eq_nil_iff_forall_not_mem]
  simp only [mem_tokens_iff, not_exists, Option.eq_none_iff_forall_ne_some, ne_eq]

/-! ## Copying entries -/

theorem mem_toList_iff {table : TokenTable α} {token : String} {value : α} :
    (token, value) ∈ table.toList ↔ table.get? token = some value :=
  Std.ExtTreeMap.mem_toList_iff_getElem?_eq_some

theorem nodup_toList (table : TokenTable α) : (table.toList.map Prod.fst).Nodup := by
  unfold toList
  rw [Std.ExtTreeMap.map_fst_toList_eq_keys]
  exact Std.ExtTreeMap.nodup_keys

theorem get?_insertAll_of_forall_notMem (table : TokenTable α) {entries : List (String × α)}
    {token : String} (h : ∀ value, (token, value) ∉ entries) :
    (table.insertAll entries).get? token = table.get? token := by
  unfold insertAll
  induction entries generalizing table with
  | nil => rfl
  | cons entry entries ih =>
    obtain ⟨first, value⟩ := entry
    have hne : first ≠ token := fun heq => h value (heq ▸ List.mem_cons_self)
    rw [List.foldl_cons, ih _ fun other hother => h other (List.mem_cons_of_mem _ hother),
      get?_insert, if_neg hne]

theorem get?_insertAll_of_mem (table : TokenTable α) {entries : List (String × α)}
    {token : String} {value : α} (hnodup : (entries.map Prod.fst).Nodup)
    (h : (token, value) ∈ entries) : (table.insertAll entries).get? token = some value := by
  induction entries generalizing table with
  | nil => cases h
  | cons entry entries ih =>
    obtain ⟨hfirst, hrest⟩ := List.nodup_cons.mp hnodup
    rcases List.mem_cons.mp h with rfl | h
    · -- no entry behind this one has its token
      have hlast : ∀ other, (token, other) ∉ entries :=
        fun other hother => hfirst (List.mem_map.mpr ⟨_, hother, rfl⟩)
      have hget := get?_insertAll_of_forall_notMem (table.insert token value) hlast
      rwa [get?_insert, if_pos rfl] at hget
    · exact ih (table.insert entry.1 entry.2) hrest h

/-- A token of the other table is bound as there, every other one as before, in whatever order the
entries of the other table are copied. -/
theorem get?_insertAll_of_perm (table : TokenTable α) {other : TokenTable α}
    {entries : List (String × α)} (h : entries.Perm other.toList) (token : String) :
    (table.insertAll entries).get? token = (other.get? token).or (table.get? token) := by
  have hmem : ∀ value, (token, value) ∈ entries ↔ other.get? token = some value :=
    fun value => h.mem_iff.trans mem_toList_iff
  cases hother : other.get? token with
  | none =>
    rw [Option.none_or]
    refine get?_insertAll_of_forall_notMem table fun value hvalue => ?_
    exact Option.some_ne_none value (((hmem value).mp hvalue).symm.trans hother)
  | some value =>
    rw [Option.some_or]
    have hnodup : (entries.map Prod.fst).Nodup :=
      (h.map Prod.fst).nodup_iff.mpr other.nodup_toList
    exact get?_insertAll_of_mem table hnodup ((hmem value).mpr hother)

/-- A token of the other table is bound as there, every other one as before. -/
@[simp] theorem get?_extend (table other : TokenTable α) (token : String) :
    (table.extend other).get? token = (other.get? token).or (table.get? token) :=
  get?_insertAll_of_perm table (List.Perm.refl other.toList) token

/-- The order in which entries are copied makes no difference. -/
theorem insertAll_of_perm (table : TokenTable α) {other : TokenTable α}
    {entries : List (String × α)} (h : entries.Perm other.toList) :
    table.insertAll entries = table.extend other :=
  ext fun token => by rw [get?_insertAll_of_perm table h, get?_extend]

end TokenTable

end LogLayout
