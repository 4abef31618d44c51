/-
# Inheritance

A type inherits the members of its supertypes.  The supertypes are gathered breadth first,
so that there is one level of members for each distance, nearer levels hiding farther ones.
Each type is gathered once, at its shortest distance, which ends the walk also in cyclic
hierarchies; supertypes beyond the configured distance are ignored with a warning.
-/
import JavaScope.Config
import JavaScope.Tables.Declared
import JavaScope.Tables.Overriding

namespace JavaScope

/-! ## Supertypes -/

/-- A supertype that was found. -/
inductive Supertype
  /-- On the classpath. -/
  | stub (stub : ClassStub)
  /-- In the file, by the node of its body and its header. -/
  | source (node : NodeId) (header : TypeHeader)
deriving Inhabited

/-- The binary name of a supertype. -/
def Supertype.binaryName : Supertype → String
  | stub c => c.binaryName
  | source _ h => h.binaryName

/-- The supertype with a binary name that the file declares. -/
def FileIndex.supertype? (x : FileIndex) (binaryName : String) : Option Supertype :=
  (x.body? binaryName).map fun (node, h) => .source node h

/-- The supertype that source code names, in the file or on the classpath.  Type arguments
do not matter.  A binary name of the file comes first; other names with a dot are looked
for on the classpath, and names without one in the scope. -/
def resolveSupertype (x : FileIndex) (scope : SymbolTable) (written : String) :
    Query (Option Supertype) :=
  let name := WrittenType.head written
  match x.supertype? name with
  | some s => return some s
  | none =>
    if name.toList.contains '.' then do
      return (← Query.resolveDotted name).map .stub
    else do
      match ← scope.resolveType name with
      | none => return none
      | some found =>
        let t := found.result
        match t.origin with
        | .source _ => return x.supertype? t.binaryName
        | .stub .. => return (← Query.stubOfBinary t.binaryName).map .stub
        | .unresolved _ => return none

/-- The items whose names are not yet visited, the first of each name, and the names
visited then. -/
def unvisited {α : Type} (name : α → String) :
    List String → List α → List α × List String
  | visited, [] => ([], visited)
  | visited, a :: rest =>
    if visited.contains (name a) then unvisited name visited rest
    else
      let (as, visited) := unvisited name (name a :: visited) rest
      (a :: as, visited)

/-- The direct supertypes of a type in source that were not visited before. -/
def supertypesOfSource (x : FileIndex) (scope : SymbolTable) (header : TypeHeader)
    (visited : List String) : Query (List Supertype × List String) := do
  let found ← Query.filterMap (resolveSupertype x scope) header.supertypes
  return unvisited Supertype.binaryName visited found

/-- The direct supertypes of a class on the classpath that were not visited before.  Names
without a class count as visited too. -/
def supertypesOfStub (c : ClassStub) (visited : List String) :
    Query (List Supertype × List String) := do
  let (names, visited) := unvisited id visited c.supertypes
  let found ← Query.filterMap Query.stubOfBinary names
  return (found.map .stub, visited)

/-! ## Members -/

/-- The members that a type body gets from one distance. -/
structure Members where
  vars : List VariableSymbol := []
  types : List TypeSymbol := []
  methods : List MethodSymbol := []
deriving Inhabited

/-- The members of one and then those of the other. -/
def Members.append (a b : Members) : Members :=
  ⟨a.vars ++ b.vars, a.types ++ b.types, a.methods ++ b.methods⟩

/-- The inheritable members of a class on the classpath, but for overridden methods. -/
def membersOfStub (overriders : Overriders) (c : ClassStub) : Query Members := do
  let types ← Query.filterMap (fun t => Query.stubOfBinary t.binaryName)
    c.inheritableMemberTypes
  return {
    vars := c.fieldSymbols
    types := types.map (·.symbol)
    methods := c.methodSymbols.filter fun m =>
      (c.kind.passesOnStaticMethods || !m.modifiers.isStatic)
        && !overriders.cover m.name m.parameters }

/-- The methods that a type of this kind in source passes on, overridden or not. -/
def passedOnMethods (kind : TypeKind) (ms : List MethodSymbol) : List MethodSymbol :=
  ms.filter fun m =>
    !m.modifiers.isPrivate && !m.isConstructor
      && (kind.passesOnStaticMethods || !m.modifiers.isStatic)

/-- The inheritable members of a type in source, but for overridden methods. -/
def membersOfSource (scope : SymbolTable) (overriders : Overriders) (kind : TypeKind)
    (d : Declared) : Query Members := do
  let methods ← Query.filterMap
    (fun m => do
      let parameters ← erasedParameters scope m
      return if overriders.cover m.name parameters then none else some m)
    (passedOnMethods kind d.methods)
  return {
    vars := d.vars.filter fun v => !v.modifiers.isPrivate
    types := d.types.filter fun t => !t.modifiers.isPrivate
    methods := methods }

/-! ## The walk -/

/-- The members of the types at one distance, and the types at the next. -/
structure Level where
  members : Members := {}
  next : List Supertype := []
  visited : List String
deriving Inhabited

/-- Takes one more type at the distance of a level. -/
def Level.add (x : FileIndex) (scope : SymbolTable) (overriders : Overriders) (l : Level) :
    Supertype → Query Level
  | .stub c => do
    let members ← membersOfStub overriders c
    let (next, visited) ← supertypesOfStub c l.visited
    return ⟨l.members.append members, l.next ++ next, visited⟩
  | .source node header => do
    let members ← membersOfSource scope overriders (x.kindOf header.binaryName)
      (x.declaredAt node)
    let (next, visited) ← supertypesOfSource x scope header l.visited
    return ⟨l.members.append members, l.next ++ next, visited⟩

/-- Takes all types at the distance of a level. -/
def Level.addAll (x : FileIndex) (scope : SymbolTable) (overriders : Overriders) :
    Level → List Supertype → Query Level
  | l, [] => return l
  | l, s :: rest => do (← l.add x scope overriders s).addAll x scope overriders rest

/-- The warning about supertypes that are too far away. -/
def depthWarning (file : FileId) (maxDepth : Nat) (binaryName : String) : Diagnostic where
  subject := binaryName
  file := some file
  severity := .warning
  code := some Diagnostic.supertypeDepthExceeded
  message := s!"supertypes deeper than {maxDepth} are ignored"

/-- The levels from a frontier outwards, `remaining` of them at most. -/
def levelsFrom (x : FileIndex) (scope : SymbolTable) (tooDeep : Diagnostic) :
    (remaining : Nat) → (frontier : List Supertype) → (visited : List String) →
    (overriders : Overriders) → Query (List Members)
  | _, [], _, _ => return []
  | 0, _ :: _, _, _ => do
    Query.raise tooDeep
    return []
  | remaining + 1, s :: rest, visited, overriders => do
    let level ← Level.addAll x scope overriders { visited } (s :: rest)
    let more ← overridersOf scope level.members.methods
    let others ← levelsFrom x scope tooDeep remaining level.next level.visited
      (overriders ++ more)
    return level.members :: others

/-- The members that a type body inherits, one entry for each distance, the direct
supertypes first. -/
def inheritedLevels (config : Config) (x : FileIndex) (scope : SymbolTable)
    (header : TypeHeader) (own : Declared) : Query (List Members) := do
  let overriders ← overridersOf scope own.methods
  let (frontier, visited) ← supertypesOfSource x scope header [header.binaryName]
  levelsFrom x scope (depthWarning x.file config.maxSupertypeDepth header.binaryName)
    config.maxSupertypeDepth frontier visited overriders

end JavaScope
