/-
# Symbol tables

A symbol table holds the names that are visible in one scope: types, variables and methods,
each in a shadow group of its own, so that a type and a variable may share a name.  A table
is linked to the table of the scope around it, and has the very group of that table in each
namespace to which its scope adds nothing.
-/
import JavaScope.Query
import JavaScope.Shadow.Candidates

namespace JavaScope

/-! ## Bindings -/

/-- The bindings of a frame of types. -/
inductive TypeBindings
  | declared (types : SymbolMap TypeSymbol)
  /-- The types of packages, and the member types of classes, by dotted name. -/
  | onDemand (targets : List String)
  /-- The types of one package, by internal name; empty for the unnamed package. -/
  | ofPackage (package : String)
deriving Inhabited

/-- A class and those of its supertypes that its static members may come from, the nearest
first. -/
structure StaticOwner where
  chain : List ClassStub
deriving Inhabited

/-- The bindings of a frame of variables or methods. -/
inductive MemberBindings (α : Type)
  | declared (members : SymbolMap α)
  /-- The static members of classes. -/
  | statics (owners : List StaticOwner)
deriving Inhabited

instance : Bindings TypeBindings where
  isDefinitelyEmpty
    | .declared types => types.isEmpty
    | .onDemand targets => targets.isEmpty
    | .ofPackage _ => false

instance {α : Type} : Bindings (MemberBindings α) where
  isDefinitelyEmpty
    | .declared members => members.isEmpty
    | .statics owners => owners.isEmpty

namespace TypeBindings

/-- The type of a simple name in an on-demand import: the class of that name in the
package, or else the member type of that name of the class. -/
def findIn (name target : String) : Query (Option TypeSymbol) := do
  match ← Query.stub (Name.toInternal target ++ "/" ++ name) with
  | some c => return some c.symbol
  | none =>
    match ← Query.resolveDotted target with
    | none => return none
    | some owner =>
      match owner.memberType? name with
      | none => return none
      | some member => return (← Query.stubOfBinary member.binaryName).map (·.symbol)

/-- The internal name of a class of a package. -/
def inPackage (package name : String) : String :=
  if package.isEmpty then name else package ++ "/" ++ name

/-- The types of a name.  Only simple names are looked up on the classpath. -/
def find (b : TypeBindings) (name : String) : Query (List TypeSymbol) :=
  match b with
  | declared types => return types.find name
  | onDemand targets =>
    if Name.isSimple name then Query.filterMap (findIn name) targets else return []
  | ofPackage package =>
    if Name.isSimple name then
      return (← Query.stub (inPackage package name)).toList.map (·.symbol)
    else return []

end TypeBindings

namespace StaticOwner

/-- The static fields of a name that a class passes on. -/
def staticFields (name : String) (c : ClassStub) : List VariableSymbol :=
  c.fieldSymbols.filter fun f => f.name = name && f.modifiers.isStatic

/-- The static methods of a name that a class passes on. -/
def staticMethods (name : String) (c : ClassStub) : List MethodSymbol :=
  c.methodSymbols.filter fun m => m.name = name && m.modifiers.isStatic

/-- The static fields of a name: those of the nearest class that has any. -/
def fields (o : StaticOwner) (name : String) : List VariableSymbol :=
  ((o.chain.map (staticFields name)).find? fun fs => !fs.isEmpty).getD []

/-- Leaves out each method that has the parameter types of an earlier one. -/
def hideSameParameters (ms : List MethodSymbol) : List MethodSymbol :=
  ms.foldl (fun kept m =>
    if kept.any (fun k => k.parameters = m.parameters) then kept else kept ++ [m]) []

/-- The classes whose static methods count: the owner itself, and its supertypes but for
interfaces, whose static methods are not passed on. -/
def methodChain (o : StaticOwner) : List ClassStub :=
  match o.chain with
  | [] => []
  | c :: supers => c :: supers.filter (·.kind.passesOnStaticMethods)

/-- The static methods of a name, the nearest first.  A method hides farther ones with the
same parameter types. -/
def methods (o : StaticOwner) (name : String) : List MethodSymbol :=
  hideSameParameters (o.methodChain.flatMap (staticMethods name))

end StaticOwner

namespace MemberBindings

/-- The variables of a name. -/
def findVariables (b : MemberBindings VariableSymbol) (name : String) : List VariableSymbol :=
  match b with
  | declared members => members.find name
  | statics owners => owners.flatMap (·.fields name)

/-- The methods of a name. -/
def findMethods (b : MemberBindings MethodSymbol) (name : String) : List MethodSymbol :=
  match b with
  | declared members => members.find name
  | statics owners => owners.flatMap (·.methods name)

end MemberBindings

/-! ## Tables -/

/-- The visible types. -/
abbrev TypeGroup := ShadowGroup TypeBindings

/-- The visible variables. -/
abbrev VariableGroup := ShadowGroup (MemberBindings VariableSymbol)

/-- The visible methods. -/
abbrev MethodGroup := ShadowGroup (MemberBindings MethodSymbol)

/-- The names visible in one scope. -/
inductive SymbolTable
  /-- Outside all scopes nothing is visible. -/
  | empty
  /-- The table of a scope inside that of `parent`; the stamp identifies it. -/
  | inside (parent : SymbolTable) (stamp : Nat) (vars : VariableGroup)
      (types : TypeGroup) (methods : MethodGroup)
deriving Inhabited

namespace SymbolTable

/-- The visible variables. -/
def vars : SymbolTable → VariableGroup
  | empty => .empty
  | inside _ _ vars _ _ => vars

/-- The visible types. -/
def types : SymbolTable → TypeGroup
  | empty => .empty
  | inside _ _ _ types _ => types

/-- The visible methods. -/
def methods : SymbolTable → MethodGroup
  | empty => .empty
  | inside _ _ _ _ methods => methods

/-- The table of the scope around. -/
def parent? : SymbolTable → Option SymbolTable
  | empty => none
  | inside parent .. => some parent

/-- The stamp of a table that belongs to a scope. -/
def stamp? : SymbolTable → Option Nat
  | empty => none
  | inside _ stamp .. => some stamp

/-- Both are the same table, not only alike. -/
def sameTable (t u : SymbolTable) : Bool := t.stamp? = u.stamp?

/-- The number of tables around this one. -/
def depth : SymbolTable → Nat
  | empty => 0
  | inside parent .. => parent.depth + 1

/-- A table inside `parent` that differs from it in the variables only. -/
def withVariables (parent : SymbolTable) (stamp : Nat) (vars : VariableGroup) :
    SymbolTable :=
  inside parent stamp vars parent.types parent.methods

/-- A table inside `parent` that differs from it in the types only. -/
def withTypes (parent : SymbolTable) (stamp : Nat) (types : TypeGroup) : SymbolTable :=
  inside parent stamp parent.vars types parent.methods

/-- A table inside `parent` that differs from it in the methods only. -/
def withMethods (parent : SymbolTable) (stamp : Nat) (methods : MethodGroup) : SymbolTable :=
  inside parent stamp parent.vars parent.types methods

/-- The type that a simple name refers to. -/
def resolveType (t : SymbolTable) (name : String) : Query (Option (Found TypeSymbol)) :=
  t.types.resolveFirst TypeBindings.find name

/-- The variable that a simple name refers to. -/
def resolveValue (t : SymbolTable) (name : String) : Option (Found VariableSymbol) :=
  Id.run (t.vars.resolveFirst (fun b n => pure (b.findVariables n)) name)

/-- The methods that can be called by a simple name, the innermost first.  They may differ
in their parameters; which of them apply is for the caller to decide. -/
def resolveMethod (t : SymbolTable) (name : String) :
    Candidates (MemberBindings MethodSymbol) MethodSymbol :=
  t.methods.resolveAll name

/-- The first `limit` methods that can be called by a simple name, or all of them. -/
def methodCandidates (t : SymbolTable) (name : String) (limit : Option Nat) :
    List MethodSymbol :=
  let ask : MemberBindings MethodSymbol → String → Id (List MethodSymbol) :=
    fun b n => pure (b.findMethods n)
  match limit with
  | some n => (Id.run ((t.resolveMethod name).take ask n)).1
  | none => Id.run ((t.resolveMethod name).drain ask)

/-- The table in a trace. -/
def trace (t : SymbolTable) : String :=
  "SymbolTable \x7b variables: " ++ t.vars.trace ++ ", types: " ++ t.types.trace
    ++ ", methods: " ++ t.methods.trace ++ " \x7d"

end SymbolTable

end JavaScope
