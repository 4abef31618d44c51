/-
# Diagnostics

A diagnostic is attached to a subject: a class that cannot be read, or an imported name
that cannot be found.  A run collects them and reports each pair of code and subject once,
so that a class used by a thousand files is complained about once.
-/
import JavaScope.Ident

namespace JavaScope

/-- How serious a diagnostic is. -/
inductive Severity
  | error
  | warning
  | info
deriving DecidableEq, Repr, Inhabited

namespace Severity

/-- All severities. -/
def all : List Severity := [error, warning, info]

/-- The name of a severity in traces. -/
def label : Severity → String
  | error => "Error"
  | warning => "Warning"
  | info => "Info"

end Severity

/-- A problem with one subject. -/
structure Diagnostic where
  /-- The qualified name that the diagnostic is about. -/
  subject : String
  /-- The file whose analysis met the problem first, if any. -/
  file : Option FileId := none
  severity : Severity
  code : Option String := none
  message : String
deriving DecidableEq, Repr, Inhabited

namespace Diagnostic

/-- What a diagnostic is compared by: its code and its subject. -/
def key (d : Diagnostic) : Option String × String := (d.code, d.subject)

/-! ## Codes -/

/-- Class bytes that are no class file. -/
def malformedClass : String := "E0101"

/-- A class file older than the oldest version that can be read. -/
def unsupportedClassVersion : String := "E0102"

/-- A class file that declares another class than its place on the classpath says. -/
def classNameMismatch : String := "E0103"

/-- The classpath cannot be read. -/
def classpathUnreadable : String := "E0104"

/-- An inconsistency of the class-file reader itself. -/
def inconsistency : String := "E0199"

/-- An import of a class that is not on the classpath. -/
def unresolvedImport : String := "W0101"

/-- Supertypes too far away to be looked at. -/
def supertypeDepthExceeded : String := "W0102"

end Diagnostic

/-- The diagnostics of a run. -/
structure DiagnosticLog where
  /-- The keys of all diagnostics ever added, the latest first. -/
  seen : List (Option String × String) := []
  /-- The diagnostics not yet taken away, the oldest first. -/
  diagnostics : List Diagnostic := []
deriving Repr, Inhabited

namespace DiagnosticLog

/-- A log without entries. -/
def empty : DiagnosticLog := {}

/-- Whether a diagnostic with this code and subject was ever added. -/
def contains (l : DiagnosticLog) (d : Diagnostic) : Bool := l.seen.contains d.key

/-- Adds a diagnostic unless one with its code and subject was added before. -/
def add (l : DiagnosticLog) (d : Diagnostic) : DiagnosticLog :=
  if l.contains d then l else ⟨d.key :: l.seen, l.diagnostics ++ [d]⟩

/-- Takes all diagnostics away.  Their subjects stay suppressed. -/
def take (l : DiagnosticLog) : List Diagnostic × DiagnosticLog :=
  (l.diagnostics, { l with diagnostics := [] })

/-- The diagnostics about one subject. -/
def forSubject (l : DiagnosticLog) (subject : String) : List Diagnostic :=
  l.diagnostics.filter (·.subject = subject)

/-- The number of diagnostics of one severity. -/
def count (l : DiagnosticLog) (s : Severity) : Nat :=
  l.diagnostics.countP (·.severity = s)

/-- There are errors. -/
def hasErrors (l : DiagnosticLog) : Bool := 0 < l.count .error

end DiagnosticLog

end JavaScope
