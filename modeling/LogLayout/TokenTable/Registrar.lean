import LogLayout.TokenTable

/-!
# Registrations

Two equal values need not be the same registration. A registrar keeps several token tables and
numbers the values as they are registered, so that it can be told whether two tokens, perhaps of
different tables, were bound by one and the same call. Copies of a binding keep its number.
-/

namespace LogLayout

structure Stamped (α : Type) where
  serial : Nat
  value : α
  deriving DecidableEq, Repr

/-- Token tables with numbered values, and how many numbers have been issued. -/
structure Registrar (α : Type) where
  tables : List (TokenTable (Stamped α)) := []
  issued : Nat := 0

namespace Registrar

variable {α : Type}

/-- The table at an index; there is an empty one at every index not used yet. -/
def table (registrar : Registrar α) (index : Nat) : TokenTable (Stamped α) :=
  registrar.tables[index]?.getD .empty

/-- One more table, empty, at the index given back. -/
def addTable (registrar : Registrar α) : Nat × Registrar α :=
  (registrar.tables.length, { registrar with tables := registrar.tables ++ [.empty] })

/-- Changes the table at an index. -/
def update (registrar : Registrar α) (index : Nat)
    (change : TokenTable (Stamped α) → TokenTable (Stamped α)) : Registrar α :=
  { registrar with tables := registrar.tables.modify index change }

/-- Gives a value a number of its own. -/
def stamp (registrar : Registrar α) (value : α) : Stamped α × Registrar α :=
  (⟨registrar.issued, value⟩, { registrar with issued := registrar.issued + 1 })

/-- Binds the tokens to a value that has its number already. -/
def share (registrar : Registrar α) (index : Nat) (tokens : List String)
    (stamped : Stamped α) : Registrar α :=
  registrar.update index (·.bind tokens stamped)

/-- Registers a value under the tokens, with a number of its own. -/
def register (registrar : Registrar α) (index : Nat) (tokens : List String) (value : α) :
    Registrar α :=
  let (stamped, registrar) := registrar.stamp value
  registrar.share index tokens stamped

/-- Copies entries, one after the other. -/
def copy (registrar : Registrar α) (index : Nat) (entries : List (String × Stamped α)) :
    Registrar α :=
  registrar.update index (·.insertAll entries)

/-- Copies every binding of another table. -/
def extend (registrar : Registrar α) (index other : Nat) : Registrar α :=
  registrar.copy index (registrar.table other).toList

/-- Whether two tokens of a table are bound by the same registration; nothing when one of them is
not bound. -/
def same? (registrar : Registrar α) (index : Nat) (a b : String) : Option Bool := do
  let first ← (registrar.table index).get? a
  let second ← (registrar.table index).get? b
  return first.serial == second.serial

end Registrar

end LogLayout
