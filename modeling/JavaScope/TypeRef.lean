/-
# References to types

A type is referred to by its binary name.  A primitive type uses its keyword (`int`), and
an array type appends one pair of brackets for each dimension (`java.lang.String[][]`).
-/

namespace JavaScope

/-- A reference to a type by binary name. -/
structure TypeRef where
  binaryName : String
deriving DecidableEq, Repr, Inhabited

/-- Types are ordered by their names, character by character. -/
instance : Ord TypeRef where
  compare t u := compare t.binaryName u.binaryName

namespace TypeRef

/-- The reverse of a name, without the bracket pairs that end the name, and their number. -/
def stripBrackets : List Char → List Char × Nat
  | ']' :: '[' :: cs =>
    let (name, n) := stripBrackets cs
    (name, n + 1)
  | cs => (cs, 0)

/-- The name without array brackets. -/
def elementName (t : TypeRef) : String :=
  String.ofList (stripBrackets t.binaryName.toList.reverse).1.reverse

/-- The number of array dimensions. -/
def dimensions (t : TypeRef) : Nat :=
  (stripBrackets t.binaryName.toList.reverse).2

/-- The keywords of the primitive types, and `void`. -/
def primitiveNames : List String :=
  ["boolean", "byte", "char", "short", "int", "long", "float", "double", "void"]

/-- A primitive type or `void`. -/
def isPrimitive (t : TypeRef) : Bool := primitiveNames.contains t.binaryName

/-- The array type of `n` more dimensions. -/
def array (t : TypeRef) (n : Nat) : TypeRef :=
  ⟨t.binaryName ++ String.join (List.replicate n "[]")⟩

end TypeRef

end JavaScope
