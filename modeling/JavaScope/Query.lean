/-
# Queries

Names that live outside a source file are looked up on the classpath.  A query is a
computation that may ask for class stubs by internal name and may raise warnings; it knows
nothing of where stubs come from or whether they were asked for before.  A run answers
queries from its store; against a fixed table of stubs a query has a plain value.
-/
import JavaScope.Diagnostic
import JavaScope.Stub.Basic

namespace JavaScope

/-- A computation that asks for class stubs and raises warnings. -/
inductive Query (α : Type) : Type
  | done (result : α)
  /-- Asks for the stub of the class with an internal name; there may be none. -/
  | ask (name : String) (next : Option ClassStub → Query α)
  /-- Raises a warning. -/
  | warn (diagnostic : Diagnostic) (next : Query α)

namespace Query

variable {α β : Type}

/-- Goes on with the result of a query. -/
def bind : Query α → (α → Query β) → Query β
  | done a, f => f a
  | ask name next, f => ask name fun stub => (next stub).bind f
  | warn d next, f => warn d (next.bind f)

instance : Monad Query where
  pure := done
  bind := bind

/-- The value of a query if `stubs` answers what it asks, and the warnings that it
raises. -/
def eval (stubs : String → Option ClassStub) : Query α → α × List Diagnostic
  | done a => (a, [])
  | ask name next => (next (stubs name)).eval stubs
  | warn d next => ((next.eval stubs).1, d :: (next.eval stubs).2)

/-! ## Asking for classes -/

/-- The stub of the class with an internal name. -/
def stub (internal : String) : Query (Option ClassStub) := ask internal done

/-- The stub of the class with a binary name. -/
def stubOfBinary (binary : String) : Query (Option ClassStub) := stub (Name.toInternal binary)

/-- The first class that there is among these internal names.  None is asked for after
that. -/
def firstStub : List String → Query (Option ClassStub)
  | [] => return none
  | name :: rest => do
    match ← stub name with
    | some c => return some c
    | none => firstStub rest

/-- The class that a dotted source name stands for, with the longest possible package. -/
def resolveDotted (dotted : String) : Query (Option ClassStub) :=
  firstStub (Name.candidates dotted)

/-- Raises a warning. -/
def raise (d : Diagnostic) : Query Unit := warn d (done ())

/-! ## Lists of queries -/

/-- The results for all items, in order. -/
def forEach (f : α → Query β) : List α → Query (List β)
  | [] => return []
  | a :: rest => do
    let b ← f a
    let bs ← forEach f rest
    return b :: bs

/-- The results that there are, in order. -/
def filterMap (f : α → Query (Option β)) (as : List α) : Query (List β) := do
  return (← forEach f as).filterMap id

end Query

end JavaScope
