/-
# Constant values

The value of an annotation element, described without evaluating anything: a scalar, a
class literal, an enum constant, an array of values or a nested annotation.  These are the
shapes that class files can hold.  The file defines the values, annotations as such, the
equality of values and their text.
-/
import JavaScope.TypeRef
import JavaScope.Value.Scalar

namespace JavaScope

/-- A constant of any shape that an annotation element can hold. -/
inductive Value
  | scalar (value : Scalar)
  | classLiteral (type : TypeRef)
  | enumConstant (type : TypeRef) (name : String)
  | array (items : List Value)
  /-- An annotation with its explicit elements, in order. -/
  | annotated (type : TypeRef) (elements : List (String × Value))
deriving Inhabited

/-- An annotation: its type and its explicit elements, in the order in which they were
given. -/
structure Annotation where
  type : TypeRef
  elements : List (String × Value) := []
deriving Inhabited

namespace Annotation

/-- The value of the element called `name`. -/
def get? (a : Annotation) (name : String) : Option Value := a.elements.lookup name

/-- Adds an element, unless there is one of that name already. -/
def insert? (a : Annotation) (name : String) (value : Value) : Option Annotation :=
  match a.get? name with
  | some _ => none
  | none => some { a with elements := a.elements ++ [(name, value)] }

/-- The annotation as a value. -/
def toValue (a : Annotation) : Value := .annotated a.type a.elements

end Annotation

namespace Value

/-- The constant in a scalar value. -/
def scalar? : Value → Option Scalar
  | scalar s => some s
  | _ => none

/-- The items of an array. -/
def items? : Value → Option (List Value)
  | array items => some items
  | _ => none

/-! ## Equality -/

mutual

/-- Equality of values.  Arrays are equal item by item.  Annotations are equal if they have
the same type, the same number of elements and equal values under the same names, in
whatever order. -/
def same : Value → Value → Bool
  | scalar a, scalar b => a.same b
  | classLiteral a, classLiteral b => a = b
  | enumConstant t a, enumConstant u b => t = u && a = b
  | array as, array bs => sameItems as bs
  | annotated t as, annotated u bs =>
    t = u && as.length = bs.length && sameElements as bs
  | _, _ => false

/-- Equality of the items of two arrays. -/
def sameItems : List Value → List Value → Bool
  | [], [] => true
  | a :: as, b :: bs => same a b && sameItems as bs
  | _, _ => false

/-- Every element on the left has an equal one of its name on the right. -/
def sameElements : List (String × Value) → List (String × Value) → Bool
  | [], _ => true
  | (name, a) :: as, bs =>
    (match bs.lookup name with
      | some b => same a b
      | none => false) && sameElements as bs

end

/-! ## Text -/

mutual

/-- The value as an expression: arrays in braces, annotations with `name = value` pairs in
parentheses. -/
def display : Value → String
  | scalar s => s.display
  | classLiteral t => t.binaryName ++ ".class"
  | enumConstant t name => t.binaryName ++ "." ++ name
  | array items => "\x7b" ++ ", ".intercalate (displayItems items) ++ "\x7d"
  | annotated t elements =>
    "@" ++ t.binaryName ++ "(" ++ ", ".intercalate (displayElements elements) ++ ")"

/-- The texts of the items of an array. -/
def displayItems : List Value → List String
  | [] => []
  | v :: vs => display v :: displayItems vs

/-- The texts of the elements of an annotation. -/
def displayElements : List (String × Value) → List String
  | [] => []
  | (name, v) :: rest => (name ++ " = " ++ display v) :: displayElements rest

end

end Value

end JavaScope
