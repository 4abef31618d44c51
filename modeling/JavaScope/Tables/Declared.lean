/-
# Declarations of a file

The symbols that each scope of a file declares, and an index of the file: which scope is
the body of which type, and of what kind the declared types are.  The index is made before
any table, so that a type may have supertypes whose bodies come later in the file.
-/
import JavaScope.Shadow.SymbolMap
import JavaScope.Source

namespace JavaScope

/-! ## The symbols of a scope -/

/-- The symbols that a scope declares, in source order. -/
structure Declared where
  types : List TypeSymbol := []
  typeParameters : List TypeSymbol := []
  vars : List VariableSymbol := []
  methods : List MethodSymbol := []
deriving Inhabited

namespace Decl

/-- The symbol of a declared type. -/
def typeSymbol? (file : FileId) : Decl → Option TypeSymbol
  | type d => some (.ofSource ⟨file, d.node⟩ d.binaryName d.kind d.modifiers)
  | _ => none

/-- The symbol of a declared variable. -/
def variableSymbol? (file : FileId) : Decl → Option VariableSymbol
  | var d => some (.ofSource ⟨file, d.node⟩ d.name d.kind d.modifiers (d.typeName.map (⟨·⟩)))
  | _ => none

/-- The symbol of a method declared in a type. -/
def methodSymbol? (file : FileId) (declaringType : String) : Decl → Option MethodSymbol
  | method d =>
    some (.ofSource ⟨file, d.node⟩ d.name declaringType d.modifiers (d.parameters.map (⟨·⟩))
      (d.returnType.map (⟨·⟩)))
  | _ => none

end Decl

/-- The symbols of a list of declarations inside a type. -/
def Declared.ofDecls (file : FileId) (declaringType : String) (decls : List Decl) :
    Declared :=
  let types := decls.filterMap (Decl.typeSymbol? file)
  { types := types.filter fun t => t.kind ≠ .typeParameter
    typeParameters := types.filter fun t => t.kind = .typeParameter
    vars := decls.filterMap (Decl.variableSymbol? file)
    methods := decls.filterMap (Decl.methodSymbol? file declaringType) }

/-- The types by simple name. -/
def bindTypes (types : List TypeSymbol) : SymbolMap TypeSymbol :=
  .ofList (types.map fun t => (t.name, t))

/-- The variables by name. -/
def bindVariables (vars : List VariableSymbol) : SymbolMap VariableSymbol :=
  .ofList (vars.map fun v => (v.name, v))

/-- The methods by name.  A constructor cannot be called by a simple name. -/
def bindMethods (methods : List MethodSymbol) : SymbolMap MethodSymbol :=
  .ofList ((methods.filter fun m => !m.isConstructor).map fun m => (m.name, m))

/-! ## The index of a file -/

/-- The type that a scope is the body of, if it is one. -/
def ScopeKind.header? : ScopeKind → Option TypeHeader
  | typeBody h => some h
  | _ => none

/-- The binary name of the type that declares the members of a scope: its own type if it is
a type body, and else that of the scope around it. -/
def ScopeInfo.declaringType (enclosing : String) (i : ScopeInfo) : String :=
  match i.kind.header? with
  | some h => h.binaryName
  | none => enclosing

namespace Scope

mutual

/-- The scope and all scopes nested in it, each with its declaring type. -/
def withDeclaring (enclosing : String) : Scope → List (ScopeInfo × String)
  | node i cs =>
    let declaring := i.declaringType enclosing
    (i, declaring) :: withDeclaringAll declaring cs

/-- The scopes of a list of siblings and those nested in them. -/
def withDeclaringAll (enclosing : String) : List Scope → List (ScopeInfo × String)
  | [] => []
  | s :: rest => withDeclaring enclosing s ++ withDeclaringAll enclosing rest

end

end Scope

/-- The declarations of a file.  In each list the last of the file comes first, as later
scopes replace earlier ones with the same key. -/
structure FileIndex where
  file : FileId
  declared : List (NodeId × Declared)
  /-- The type bodies by binary name. -/
  bodies : List (String × NodeId × TypeHeader)
  /-- The kinds of the declared types by binary name. -/
  kinds : List (String × TypeKind)
deriving Inhabited

namespace FileIndex

/-- The body of a type. -/
def bodyOf (i : ScopeInfo) : Option (String × NodeId × TypeHeader) :=
  i.kind.header?.map fun h => (h.binaryName, i.id, h)

/-- The kinds of the types that a scope declares. -/
def kindsOf (i : ScopeInfo) : List (String × TypeKind) :=
  i.decls.filterMap fun
    | .type d => some (d.binaryName, d.kind)
    | _ => none

/-- The index of a file. -/
def ofUnit (u : CompilationUnit) : FileIndex :=
  let scopes := u.root.withDeclaring ""
  { file := u.file
    declared := (scopes.map fun (i, t) => (i.id, Declared.ofDecls u.file t i.decls)).reverse
    bodies := (scopes.filterMap fun (i, _) => bodyOf i).reverse
    kinds := (scopes.flatMap fun (i, _) => kindsOf i).reverse }

/-- The symbols that the scope with this node declares. -/
def declaredAt (x : FileIndex) (node : NodeId) : Declared := (x.declared.lookup node).getD {}

/-- The body of the type with this binary name. -/
def body? (x : FileIndex) (binaryName : String) : Option (NodeId × TypeHeader) :=
  x.bodies.lookup binaryName

/-- The kind of the type with this binary name; a type without a declaration counts as a
class. -/
def kindOf (x : FileIndex) (binaryName : String) : TypeKind :=
  (x.kinds.lookup binaryName).getD .normalClass

end FileIndex

end JavaScope
