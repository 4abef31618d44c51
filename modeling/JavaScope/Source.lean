/-
# Source files

A source file is known by what name resolution needs of it: its package, its imports and a
tree of nested scopes.  Each scope has a range in the text and introduces declarations in
source order.  Expressions and statements are not represented.
-/
import JavaScope.Symbol

namespace JavaScope

/-! ## Imports -/

/-- An import declaration. -/
structure Import where
  node : NodeId
  /-- The imported name, without `.*`. -/
  name : String
  isStatic : Bool
  /-- The import ends in `.*`. -/
  onDemand : Bool
deriving DecidableEq, Repr, Inhabited

namespace Import

/-- The simple name that the import introduces. -/
def simpleName (i : Import) : String := Name.lastSegment i.name

/-- The package or class that the import names something of. -/
def qualifier (i : Import) : String := Name.qualifier i.name

end Import

/-! ## Declarations -/

/-- A declared class-like type or type parameter. -/
structure TypeDecl where
  node : NodeId
  /-- The binary name; the simple name of a type parameter. -/
  binaryName : String
  kind : TypeKind
  modifiers : Modifiers
deriving DecidableEq, Repr, Inhabited

/-- A declared field, local variable or parameter. -/
structure VariableDecl where
  node : NodeId
  name : String
  kind : VariableKind
  modifiers : Modifiers
  /-- The type as written, if one is. -/
  typeName : Option String
deriving DecidableEq, Repr, Inhabited

/-- A declared method or constructor. -/
structure MethodDecl where
  node : NodeId
  name : String
  modifiers : Modifiers
  /-- The parameter types as written. -/
  parameters : List String
  returnType : Option String
deriving DecidableEq, Repr, Inhabited

/-- A declaration of any sort. -/
inductive Decl
  | type (decl : TypeDecl)
  | var (decl : VariableDecl)
  | method (decl : MethodDecl)
deriving DecidableEq, Repr, Inhabited

/-- The node of a declaration. -/
def Decl.node : Decl → NodeId
  | type d => d.node
  | var d => d.node
  | method d => d.node

/-! ## Scopes -/

/-- The supertypes that a type declaration names, as written (`java.util.List<String>`). -/
structure TypeHeader where
  /-- The binary name of the declared type. -/
  binaryName : String
  /-- Absent without an `extends` clause: nothing is inherited then, not even from the
  root class. -/
  superclass : Option String
  interfaces : List String
deriving DecidableEq, Repr, Inhabited

/-- The superclass and then the interfaces, as written. -/
def TypeHeader.supertypes (h : TypeHeader) : List String :=
  h.superclass.toList ++ h.interfaces

/-- The kinds of scopes. -/
inductive ScopeKind
  | compilationUnit
  /-- The body of a class-like type. -/
  | typeBody (header : TypeHeader)
  | methodBody
  | block
  | lambda
  | catchClause
  /-- The header of a `for` statement, where its variables live. -/
  | forHeader
deriving DecidableEq, Repr, Inhabited

/-- A range of text that includes its start and excludes its end. -/
structure TextRange where
  start : Nat
  stop : Nat
deriving DecidableEq, Repr, Inhabited

/-- The range includes the offset. -/
def TextRange.includes (r : TextRange) (offset : Nat) : Bool :=
  r.start ≤ offset && offset < r.stop

/-- A scope by itself. -/
structure ScopeInfo where
  id : NodeId
  kind : ScopeKind
  range : TextRange
  /-- The declarations, in source order. -/
  decls : List Decl
deriving DecidableEq, Repr, Inhabited

/-- A scope with the scopes nested in it, in source order. -/
inductive Scope
  | node (info : ScopeInfo) (children : List Scope)
deriving Inhabited

namespace Scope

/-- The scope by itself. -/
def info : Scope → ScopeInfo
  | node i _ => i

/-- The scopes directly inside. -/
def children : Scope → List Scope
  | node _ cs => cs

mutual

/-- The scope and all scopes nested in it, each before those inside it. -/
def descendants : Scope → List Scope
  | node i cs => node i cs :: descendantsOfAll cs

/-- The scopes of a list of siblings, each followed by those inside it. -/
def descendantsOfAll : List Scope → List Scope
  | [] => []
  | s :: rest => descendants s ++ descendantsOfAll rest

end

end Scope

/-! ## Files -/

/-- One source file. -/
structure CompilationUnit where
  file : FileId
  /-- The dotted package name; absent in the unnamed package. -/
  package : Option String
  imports : List Import
  /-- The outermost scope. -/
  root : Scope
deriving Inhabited

end JavaScope
