/-
# Overriding

A method overrides those of its name in farther supertypes that have the same parameter
types after erasure.  Types written in source are resolved to binary names for the
comparison; one that cannot be resolved keeps its written name, and is taken to be the same
as any type with that simple name.
-/
import JavaScope.SymbolTable
import JavaScope.Tables.WrittenType

namespace JavaScope

/-! ## Erased parameters -/

/-- The binary name of the element type that source code names. -/
def resolveElement (scope : SymbolTable) (element : String) : Query String :=
  if TypeRef.primitiveNames.contains element ∧ element ≠ "void" then return element
  else if element.toList.contains '.' then do
    match ← Query.resolveDotted element with
    | some c => return c.binaryName
    | none => return element
  else do
    match ← scope.resolveType element with
    | some found => return if found.result.isUnresolved then element else found.result.binaryName
    | none => return element

/-- The erasure of a type written in source. -/
def eraseParameter (scope : SymbolTable) (written : TypeRef) : Query TypeRef := do
  let (element, dimensions) := WrittenType.erase written.binaryName
  return (⟨← resolveElement scope element⟩ : TypeRef).array dimensions

/-- The erased parameter types of a method.  Class files have erased types already. -/
def erasedParameters (scope : SymbolTable) (m : MethodSymbol) : Query (List TypeRef) :=
  if m.origin.isSource then Query.forEach (eraseParameter scope) m.parameters
  else return m.parameters

/-! ## Comparing parameters -/

/-- Equal types, or a simple name on one side that is the simple name of the type on the
other. -/
def sameParameterType (a b : TypeRef) : Bool :=
  a = b ||
    (a.dimensions = b.dimensions &&
      ((Name.isSimple a.elementName && a.elementName = Name.simple b.elementName) ||
        (Name.isSimple b.elementName && b.elementName = Name.simple a.elementName)))

/-- Parameter lists of one length that agree type by type. -/
def sameParameters : List TypeRef → List TypeRef → Bool
  | [], [] => true
  | a :: as, b :: bs => sameParameterType a b && sameParameters as bs
  | _, _ => false

/-- The methods that override others: names and erased parameter types. -/
abbrev Overriders := List (String × List TypeRef)

/-- A method of this name with these parameters is overridden. -/
def Overriders.cover (os : Overriders) (name : String) (parameters : List TypeRef) : Bool :=
  os.any fun (n, known) => n = name && sameParameters known parameters

/-- The methods as overriders. -/
def overridersOf (scope : SymbolTable) (ms : List MethodSymbol) : Query Overriders :=
  Query.forEach (fun m => return (m.name, ← erasedParameters scope m)) ms

end JavaScope
