/-
# Stub stores

A run keeps the stub of every class that was asked for, under its internal name.  Names
without a class and classes without a stub are kept too, so that every later request for a
name gets the same answer and the classpath is asked for it once.  When a class turns out
to have no stub although it has bytes, that is reported.
-/
import JavaScope.Classpath.Basic
import JavaScope.Query
import JavaScope.Stub.Draft

namespace JavaScope

/-- What is known about a name. -/
inductive StubEntry
  | resolved (stub : ClassStub)
  /-- The classpath has no class of that name. -/
  | missing
  /-- The class has no stub. -/
  | failed (error : ClassError)
deriving Inhabited

namespace StubEntry

/-- The stub, if there is one. -/
def stub? : StubEntry → Option ClassStub
  | resolved c => some c
  | _ => none

/-- There is a stub. -/
def isResolved (e : StubEntry) : Bool := e.stub?.isSome

/-- The error, if the class has no stub. -/
def error? : StubEntry → Option ClassError
  | failed e => some e
  | _ => none

end StubEntry

/-- The entry that a classpath gives rise to.  A class file must declare the class that it
was asked for. -/
def Classpath.entry (p : Classpath) (internal : String) : StubEntry :=
  match p.classBytes internal with
  | .error e => .failed (.unreadable e)
  | .ok none => .missing
  | .ok (some bytes) =>
    match ClassStub.ofBytes bytes with
    | .error e => .failed e
    | .ok c =>
      if c.internalName = internal then .resolved c
      else .failed (.nameMismatch internal c.internalName)

/-- The diagnostic code of an error. -/
def ClassError.code : ClassError → String
  | unsupportedVersion _ => Diagnostic.unsupportedClassVersion
  | nameMismatch .. => Diagnostic.classNameMismatch
  | unreadable _ => Diagnostic.classpathUnreadable
  | inconsistent _ => Diagnostic.inconsistency
  | malformed .. | badMagic _ | badDescriptor _ => Diagnostic.malformedClass

/-- The report of a class without a stub. -/
def ClassError.report (e : ClassError) (internal : String) : Diagnostic where
  subject := Name.toBinary internal
  severity := .error
  code := some e.code
  message := e.message

/-- What a run remembers. -/
structure Store where
  /-- The entries made so far, the latest first. -/
  entries : List (String × StubEntry) := []
  /-- The names that the classpath was asked for, the latest first. -/
  requests : List String := []
  log : DiagnosticLog := {}
deriving Inhabited

namespace Store

/-- The entry of a name, if one was made. -/
def entry? (s : Store) (internal : String) : Option StubEntry := s.entries.lookup internal

/-- Keeps a new entry, and reports it if the class has no stub. -/
def commit (s : Store) (internal : String) (e : StubEntry) : Store where
  entries := (internal, e) :: s.entries
  requests := s.requests
  log :=
    match e.error? with
    | some error => s.log.add (error.report internal)
    | none => s.log

/-- The entry of a name, which is made at the first request. -/
def entry (p : Classpath) (s : Store) (internal : String) : StubEntry × Store :=
  match s.entry? internal with
  | some e => (e, s)
  | none =>
    let e := p.entry internal
    (e, { s with requests := internal :: s.requests }.commit internal e)

/-- Answers a query. -/
def run {α : Type} (p : Classpath) : Query α → Store → α × Store
  | .done a, s => (a, s)
  | .ask name next, s =>
    let (e, s) := s.entry p name
    run p (next e.stub?) s
  | .warn d next, s => run p next { s with log := s.log.add d }

/-- The number of entries. -/
def size (s : Store) : Nat := s.entries.length

/-- The names whose classes have no stub, in order of their characters, with the reason. -/
def failures (s : Store) : List (String × ClassError) :=
  (s.entries.filterMap fun (name, e) => e.error?.map (name, ·)).mergeSort
    fun a b => a.1 ≤ b.1

/-- A store in a trace. -/
def trace (s : Store) (stopOnInconsistency : Bool) : String :=
  "StubCache \x7b entries: " ++ toString s.size ++ ", panic_on_internal_error: "
    ++ (if stopOnInconsistency then "true" else "false") ++ ", .. \x7d"

end Store

end JavaScope
