/-
# Types as written in source

A type in source is written with type arguments, array brackets and the dots of a last
parameter of variable arity.  Erasure leaves the name of the element type and the number of
array dimensions: `List<String>[]` becomes `List` with one dimension, `String...` becomes
`String` with one.
-/
import JavaScope.Text.Blank
import JavaScope.TypeRef

namespace JavaScope.WrittenType

/-- The characters outside all angle brackets, without blanks, given the number of brackets
open in front.  A closing bracket that closes nothing is ignored. -/
def dropArguments : Nat → List Char → List Char
  | _, [] => []
  | depth, c :: cs =>
    if c = '<' then dropArguments (depth + 1) cs
    else if c = '>' then dropArguments (depth - 1) cs
    else if depth = 0 ∧ Text.isBlank c = false then c :: dropArguments depth cs
    else dropArguments depth cs

/-- The element name and the dimensions of a written type. -/
def erase (written : String) : String × Nat :=
  let (element, dimensions) :=
    match (dropArguments 0 written.toList).reverse with
    | '.' :: '.' :: '.' :: cs =>
      let (element, dimensions) := TypeRef.stripBrackets cs
      (element, dimensions + 1)
    | cs => TypeRef.stripBrackets cs
  (String.ofList element.reverse, dimensions)

/-- The name in front of the first type argument. -/
def head (written : String) : String :=
  String.ofList (Text.trim (written.toList.takeWhile (· ≠ '<')))

end JavaScope.WrittenType
