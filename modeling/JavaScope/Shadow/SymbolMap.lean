/-
# Symbol maps

A symbol map binds names to declarations.  A name may be bound more than once; its bindings
keep the order in which they were inserted, and so do the names.
-/

namespace JavaScope

/-- A map from names to their bindings, in order of first insertion. -/
structure SymbolMap (α : Type) where
  buckets : List (String × List α) := []
deriving Inhabited

namespace SymbolMap

variable {α : Type}

/-- The map that binds nothing. -/
def empty : SymbolMap α := {}

/-- The bindings of a name, in order. -/
def find (m : SymbolMap α) (name : String) : List α := (m.buckets.lookup name).getD []

/-- Puts a binding behind those of its name, or a new name behind the others. -/
def insertInto (name : String) (a : α) : List (String × List α) → List (String × List α)
  | [] => [(name, [a])]
  | (n, bucket) :: rest =>
    if n = name then (n, bucket ++ [a]) :: rest else (n, bucket) :: insertInto name a rest

/-- Adds a binding. -/
def insert (m : SymbolMap α) (name : String) (a : α) : SymbolMap α :=
  ⟨insertInto name a m.buckets⟩

/-- Adds bindings, the first in the list first. -/
def insertAll (m : SymbolMap α) (bindings : List (String × α)) : SymbolMap α :=
  bindings.foldl (fun m (name, a) => m.insert name a) m

/-- The map with these bindings. -/
def ofList (bindings : List (String × α)) : SymbolMap α := empty.insertAll bindings

/-- The names, in order of first insertion. -/
def names (m : SymbolMap α) : List String := m.buckets.map (·.1)

/-- The number of bindings. -/
def size (m : SymbolMap α) : Nat := (m.buckets.flatMap (·.2)).length

/-- The map binds nothing. -/
def isEmpty (m : SymbolMap α) : Bool := m.buckets.isEmpty

end SymbolMap

end JavaScope
