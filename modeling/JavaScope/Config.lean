/-
# Configuration

The settings of one analysis run.  They are given explicitly and checked before the run.
-/
import JavaScope.Name

namespace JavaScope

/-- The settings of a run. -/
structure Config where
  /-- The packages that every file imports on demand (dotted names). -/
  implicitImports : List String := ["java.lang"]
  /-- Type bodies see the members of their supertypes. -/
  inheritedMembers : Bool := true
  /-- The greatest distance of a supertype whose members are inherited. -/
  maxSupertypeDepth : Nat := 64
  /-- An inconsistency of the class-file reader itself ends the program. -/
  stopOnInconsistency : Bool := false
deriving DecidableEq, Repr, Inhabited

/-- Why settings are refused. -/
inductive ConfigError
  | invalidPackage (package : String)
  | zeroSupertypeDepth
deriving DecidableEq, Repr, Inhabited

/-- The error as shown to a reader. -/
def ConfigError.message : ConfigError → String
  | invalidPackage p => s!"invalid implicit import package `{p}`"
  | zeroSupertypeDepth => "max_supertype_depth must be at least 1"

namespace Config

/-- A dotted package name: non-empty segments without `/`, `*` and spaces. -/
def isPackage (package : String) : Bool :=
  (Name.segments (· = '.') package.toList).all fun s =>
    !s.isEmpty && s.all fun c => c ≠ '/' && c ≠ '*' && c ≠ ' '

/-- The first thing wrong with the settings, the depth before the packages. -/
def check (c : Config) : Except ConfigError Unit :=
  if c.maxSupertypeDepth = 0 then .error .zeroSupertypeDepth
  else
    match c.implicitImports.find? fun p => !isPackage p with
    | some p => .error (.invalidPackage p)
    | none => .ok ()

end Config

end JavaScope
