/-
# Workers

The files of a run may be analysed at the same time, each by a worker of its own.  The workers share
the store and take turns in any order.  What a worker does to the store in one turn is not
interrupted: it looks for an entry, keeps an entry that it made, reports a class without a stub, or
raises a warning.

No worker holds up the others while it reads a class file.  So two workers may ask the classpath for
the same name and both make an entry; the first to keep its entry decides, and the other goes on
with that one.
-/
import JavaScope.Analysis

namespace JavaScope

namespace Store

/-- Keeps a new entry, which is yet to be reported. -/
def keep (s : Store) (internal : String) (e : StubEntry) : Store :=
  { s with entries := (internal, e) :: s.entries }

/-- Reports the class of an entry if it has no stub. -/
def report (s : Store) (internal : String) (e : StubEntry) : Store :=
  match e.error? with
  | some error => { s with log := s.log.add (error.report internal) }
  | none => s

end Store

/-- A worker, by what it does in its next turn. -/
inductive Worker (α : Type)
  /-- Goes on with a query, unless it has the result. -/
  | running (q : Query α)
  /-- Keeps an entry that it made, if there is still none of that name. -/
  | keeping (internal : String) (e : StubEntry) (next : Option ClassStub → Query α)
  /-- Reports on the class of an entry that it kept. -/
  | reporting (internal : String) (e : StubEntry) (next : Option ClassStub → Query α)

namespace Worker

variable {α : Type}

/-- The result, if the worker is done. -/
def result? : Worker α → Option α
  | running (.done a) => some a
  | _ => none

/-- One turn of a worker. -/
def turn (p : Classpath) (s : Store) : Worker α → Worker α × Store
  | running (.done a) => (running (.done a), s)
  | running (.ask internal next) =>
    match s.entry? internal with
    | some e => (running (next e.stub?), s)
    | none =>
      (keeping internal (p.entry internal) next, { s with requests := internal :: s.requests })
  | running (.warn d next) => (running next, { s with log := s.log.add d })
  | keeping internal e next =>
    match s.entry? internal with
    | some kept => (running (next kept.stub?), s)
    | none => (reporting internal e next, s.keep internal e)
  | reporting internal e next => (running (next e.stub?), s.report internal e)

end Worker

/-- Workers that share a store. -/
structure Crew (α : Type) where
  classpath : Classpath
  store : Store
  workers : List (Worker α)

namespace Crew

variable {α : Type}

/-- One turn of the worker at a place; without a worker there, nothing happens. -/
def turn (c : Crew α) (place : Nat) : Crew α :=
  match c.workers[place]? with
  | some w =>
    let (w, store) := w.turn c.classpath c.store
    { c with store, workers := c.workers.set place w }
  | none => c

/-- Turns of the workers at these places, one after the other. -/
def run (c : Crew α) (schedule : List Nat) : Crew α := schedule.foldl turn c

/-- The results that there are so far. -/
def results (c : Crew α) : List (Option α) := c.workers.map Worker.result?

end Crew

/-- A worker for each file, to build its tables. -/
def Analysis.crew (a : Analysis) (units : List CompilationUnit) : Crew ScopeTables where
  classpath := a.classpath
  store := a.store
  workers := units.map fun u => .running (JavaScope.buildTables a.config u)

end JavaScope
