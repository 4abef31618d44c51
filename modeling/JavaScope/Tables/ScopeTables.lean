/-
# Scope tables

The symbol tables of a file, one for each scope, inside the table of the scope around it.
Frames are pushed outermost first, so that the innermost declaration wins:

    compilation unit    types      OnDemandImport < SamePackage < SingleTypeImport < FileTypes
                        variables  StaticOnDemandImport < SingleStaticImport
                        methods    StaticOnDemandImport < SingleStaticImport
    type body           Inherited (the farthest supertypes first) < TypeParameters < Members
    method body         TypeParameters, Locals; Formals
    lambda              TypeParameters, Locals; Formals
    block, catch, for   Locals

Names that live outside the file are asked for as queries.
-/
import JavaScope.Tables.Imports

namespace JavaScope

/-! ## The table of a scope -/

/-- The file and settings that the tables of all scopes share. -/
structure FileContext where
  config : Config
  unit : CompilationUnit
  index : FileIndex
deriving Inhabited

/-- The place of a new table: the table around it and the number of its scope, which stamps
the table and its frames. -/
structure TablePlace where
  parent : SymbolTable
  number : Nat
deriving Inhabited

namespace TablePlace

/-- Pushes declared types. -/
def pushTypes (p : TablePlace) (kind : FrameKind) (types : List TypeSymbol) (g : TypeGroup) :
    TypeGroup :=
  g.push (3 * p.number) kind (.declared (bindTypes types))

/-- Pushes declared variables. -/
def pushVariables (p : TablePlace) (kind : FrameKind) (vars : List VariableSymbol)
    (g : VariableGroup) : VariableGroup :=
  g.push (3 * p.number + 1) kind (.declared (bindVariables vars))

/-- Pushes declared methods. -/
def pushMethods (p : TablePlace) (kind : FrameKind) (methods : List MethodSymbol)
    (g : MethodGroup) : MethodGroup :=
  g.push (3 * p.number + 2) kind (.declared (bindMethods methods))

/-- The table of a compilation unit. -/
def unitTable (p : TablePlace) (package : String) (i : Imported) (d : Declared) : SymbolTable :=
  let types := p.parent.types.push (3 * p.number) .onDemandImport (.onDemand i.onDemand)
  let types := types.push (3 * p.number) .samePackage (.ofPackage package)
  let types := types.push (3 * p.number) .singleTypeImport (.declared i.singleTypes)
  let types := p.pushTypes .fileTypes d.types types
  let vars :=
    p.parent.vars.push (3 * p.number + 1) .staticOnDemandImport (.statics i.staticOwners)
  let vars :=
    vars.push (3 * p.number + 1) .singleStaticImport (.declared i.staticFields)
  let methods :=
    p.parent.methods.push (3 * p.number + 2) .staticOnDemandImport (.statics i.staticOwners)
  let methods := methods.push (3 * p.number + 2) .singleStaticImport (.declared i.staticMethods)
  .inside p.parent p.number vars types methods

/-- The table of a type body, given what it inherits, the nearest level first. -/
def bodyTable (p : TablePlace) (levels : List Members) (d : Declared) : SymbolTable :=
  let vars := levels.foldr (fun l g => p.pushVariables .inherited l.vars g)
    p.parent.vars
  let types := levels.foldr (fun l g => p.pushTypes .inherited l.types g) p.parent.types
  let methods := levels.foldr (fun l g => p.pushMethods .inherited l.methods g) p.parent.methods
  .inside p.parent p.number
    (p.pushVariables .members d.vars vars)
    (p.pushTypes .members d.types (p.pushTypes .typeParameters d.typeParameters types))
    (p.pushMethods .members d.methods methods)

/-- The table of a method body or lambda. -/
def methodTable (p : TablePlace) (d : Declared) : SymbolTable :=
  .inside p.parent p.number
    (p.pushVariables .formals d.vars p.parent.vars)
    (p.pushTypes .locals d.types (p.pushTypes .typeParameters d.typeParameters p.parent.types))
    p.parent.methods

/-- The table of a block, `catch` clause or `for` header. -/
def blockTable (p : TablePlace) (d : Declared) : SymbolTable :=
  .inside p.parent p.number
    (p.pushVariables .locals d.vars p.parent.vars)
    (p.pushTypes .locals d.types p.parent.types)
    p.parent.methods

end TablePlace

/-- The internal name of the package of a file; empty for the unnamed package. -/
def CompilationUnit.internalPackage (u : CompilationUnit) : String :=
  (u.package.map Name.toInternal).getD ""

/-- The table of a scope. -/
def scopeTable (x : FileContext) (p : TablePlace) (i : ScopeInfo) : Query SymbolTable :=
  let declared := x.index.declaredAt i.id
  match i.kind with
  | .compilationUnit => do
    let imported ← importsOf x.config x.unit
    return p.unitTable x.unit.internalPackage imported declared
  | .typeBody header => do
    let levels ←
      if x.config.inheritedMembers then
        inheritedLevels x.config x.index p.parent header declared
      else pure []
    return p.bodyTable levels declared
  | .methodBody | .lambda => return p.methodTable declared
  | .block | .catchClause | .forHeader => return p.blockTable declared

/-! ## The tables of a file -/

/-- The table of one scope. -/
structure ScopeEntry where
  node : NodeId
  range : TextRange
  /-- The number of scopes around this one. -/
  depth : Nat
  table : SymbolTable
deriving Inhabited

mutual

/-- The entries of a scope and of all scopes nested in it. -/
def scopeEntries (x : FileContext) (p : TablePlace) (depth : Nat) :
    Scope → Query (List ScopeEntry)
  | .node i children => do
    let table ← scopeTable x p i
    let nested ← siblingEntries x ⟨table, p.number + 1⟩ (depth + 1) children
    return ⟨i.id, i.range, depth, table⟩ :: nested

/-- The entries of a list of sibling scopes, numbered on. -/
def siblingEntries (x : FileContext) (p : TablePlace) (depth : Nat) :
    List Scope → Query (List ScopeEntry)
  | [] => return []
  | s :: rest => do
    let entries ← scopeEntries x p depth s
    let others ← siblingEntries x { p with number := p.number + entries.length } depth rest
    return entries ++ others

end

/-- The tables of a file. -/
structure ScopeTables where
  file : FileId
  /-- One entry for each scope; the compilation unit comes first, and each scope comes
  before those inside it. -/
  entries : List ScopeEntry
deriving Inhabited

/-- Builds the tables of a file. -/
def buildTables (config : Config) (u : CompilationUnit) : Query ScopeTables := do
  let context : FileContext := ⟨config, u, FileIndex.ofUnit u⟩
  return ⟨u.file, ← scopeEntries context ⟨.empty, 0⟩ 0 u.root⟩

namespace ScopeTables

/-- The table of the compilation unit. -/
def root (t : ScopeTables) : SymbolTable :=
  match t.entries with
  | e :: _ => e.table
  | [] => .empty

/-- The table of the last scope with this node. -/
def get? (t : ScopeTables) (node : NodeId) : Option SymbolTable :=
  (t.entries.reverse.find? (·.node = node)).map (·.table)

/-- The deeper of two entries, the later one if they are equally deep. -/
def deeper (best : Option ScopeEntry) (e : ScopeEntry) : Option ScopeEntry :=
  match best with
  | some b => if b.depth ≤ e.depth then some e else some b
  | none => some e

/-- The table of the innermost scope at an offset.  Ranges exclude their ends, so where one
sibling ends and the next begins, the later one is meant. -/
def tableAt (t : ScopeTables) (offset : Nat) : Option SymbolTable :=
  ((t.entries.filter (·.range.includes offset)).foldl deeper none).map (·.table)

/-- All frames of the compilation unit: types, variables, methods. -/
def rootFrames (t : ScopeTables) : List (FrameId × FrameKind) :=
  t.root.types.frames.map (fun f => (f.id, f.kind))
    ++ t.root.vars.frames.map (fun f => (f.id, f.kind))
    ++ t.root.methods.frames.map (fun f => (f.id, f.kind))

/-- The frames of the compilation unit that come from imports. -/
def importFrames (t : ScopeTables) : List (FrameId × FrameKind) :=
  t.rootFrames.filter (·.2.isImport)

/-- The number of scopes. -/
def size (t : ScopeTables) : Nat := t.entries.length

end ScopeTables

end JavaScope
