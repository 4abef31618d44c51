/-
# Analysis runs

An analysis run builds the tables of any number of files with one configuration over one
classpath.  The files share a store of class stubs and a log of diagnostics, and nothing
else.
-/
import JavaScope.Store
import JavaScope.Tables.ScopeTables

namespace JavaScope

/-- A run in progress. -/
structure Analysis where
  config : Config
  classpath : Classpath
  store : Store := {}

namespace Analysis

/-- A new run, if the configuration is valid. -/
def new (config : Config) (classpath : Classpath) : Except ConfigError Analysis := do
  config.check
  return { config, classpath }

/-- Answers a query. -/
def answer {α : Type} (a : Analysis) (q : Query α) : α × Analysis :=
  let (result, store) := Store.run a.classpath q a.store
  (result, { a with store })

/-- The entry of a class by internal name. -/
def entry (a : Analysis) (internal : String) : StubEntry × Analysis :=
  let (e, store) := a.store.entry a.classpath internal
  (e, { a with store })

/-- Builds the tables of a file. -/
def buildTables (a : Analysis) (u : CompilationUnit) : ScopeTables × Analysis :=
  a.answer (JavaScope.buildTables a.config u)

/-- Builds the tables of files, in order. -/
def analyzeFiles (a : Analysis) : List CompilationUnit → List ScopeTables × Analysis
  | [] => ([], a)
  | u :: rest =>
    let (tables, a) := a.buildTables u
    let (others, a) := a.analyzeFiles rest
    (tables :: others, a)

/-- Takes all diagnostics away. -/
def takeDiagnostics (a : Analysis) : List Diagnostic × Analysis :=
  let (taken, log) := a.store.log.take
  (taken, { a with store := { a.store with log } })

end Analysis

end JavaScope
