/-
# Imports

The frames of a compilation unit.  A type imported by name hides types of the package, and
these hide types imported on demand; static imports do the same for variables and methods.
An imported type that cannot be found is bound to a placeholder and warned about once.
-/
import JavaScope.Tables.Inheritance

namespace JavaScope

/-! ## Static imports -/

/-- The supertypes of the classes of a level, level by level, `remaining` levels at
most. -/
def superclassesFrom : (remaining : Nat) → (level : List ClassStub) → (visited : List String) →
    Query (List ClassStub)
  | 0, _, _ => return []
  | remaining + 1, level, visited => do
    let (names, visited) := unvisited id visited (level.flatMap (·.supertypes))
    let next ← Query.filterMap Query.stubOfBinary names
    if next.isEmpty then return []
    else
      let others ← superclassesFrom remaining next visited
      return next ++ others

/-- The class that a static import names, with its supertypes on the classpath. -/
def staticOwner (config : Config) (c : ClassStub) : Query StaticOwner := do
  let supers ← superclassesFrom config.maxSupertypeDepth [c] [c.binaryName]
  return ⟨c :: supers⟩

/-! ## What imports bring in -/

/-- What the imports of a file bring in. -/
structure Imported where
  /-- The packages and classes imported on demand, without repeats. -/
  onDemand : List String
  singleTypes : SymbolMap TypeSymbol := {}
  staticOwners : List StaticOwner := []
  staticFields : SymbolMap VariableSymbol := {}
  staticMethods : SymbolMap MethodSymbol := {}
deriving Inhabited

/-- The first occurrence of each name. -/
def withoutRepeats (names : List String) : List String :=
  names.foldl (fun kept n => if kept.contains n then kept else kept ++ [n]) []

/-- The warning about an imported name that is not on the classpath. -/
def importWarning (file : FileId) (name : String) : Diagnostic where
  subject := name
  file := some file
  severity := .warning
  code := some Diagnostic.unresolvedImport
  message := s!"cannot find `{name}` on the classpath"

/-- A type imported by name. -/
def importType (file : FileId) (acc : Imported) (i : Import) : Query Imported := do
  match ← Query.resolveDotted i.name with
  | some c => return { acc with singleTypes := acc.singleTypes.insert i.simpleName c.symbol }
  | none =>
    Query.raise (importWarning file i.name)
    return { acc with
      singleTypes := acc.singleTypes.insert i.simpleName (.placeholder i.name) }

/-- All static members of a class. -/
def importStatics (config : Config) (file : FileId) (acc : Imported) (i : Import) :
    Query Imported := do
  match ← Query.resolveDotted i.name with
  | some c => return { acc with staticOwners := acc.staticOwners ++ [← staticOwner config c] }
  | none =>
    Query.raise (importWarning file i.name)
    return acc

/-- The static members of one name of a class. -/
def importStatic (config : Config) (file : FileId) (acc : Imported) (i : Import) :
    Query Imported := do
  match ← Query.resolveDotted i.qualifier with
  | some c =>
    let owner ← staticOwner config c
    let name := i.simpleName
    return { acc with
      staticFields := acc.staticFields.insertAll ((owner.fields name).map fun f => (name, f))
      staticMethods :=
        acc.staticMethods.insertAll ((owner.methods name).map fun m => (name, m)) }
  | none =>
    Query.raise (importWarning file i.qualifier)
    return acc

/-- What one more import brings in. -/
def Imported.add (config : Config) (file : FileId) (acc : Imported) (i : Import) :
    Query Imported :=
  match i.isStatic, i.onDemand with
  | false, true => return { acc with onDemand := withoutRepeats (acc.onDemand ++ [i.name]) }
  | false, false => importType file acc i
  | true, true => importStatics config file acc i
  | true, false => importStatic config file acc i

/-- What a list of imports brings in. -/
def Imported.addAll (config : Config) (file : FileId) : Imported → List Import → Query Imported
  | acc, [] => return acc
  | acc, i :: rest => do (← acc.add config file i).addAll config file rest

/-- What all imports of a file bring in, the implicit ones first. -/
def importsOf (config : Config) (u : CompilationUnit) : Query Imported :=
  Imported.addAll config u.file { onDemand := withoutRepeats config.implicitImports } u.imports

end JavaScope
