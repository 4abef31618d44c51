/-
# Descriptors

Class files write the types of fields and methods as descriptors: a letter for each
primitive type, the internal name of a class between `L` and `;`, and a `[` for each array
dimension.  A method descriptor lists the parameter types between parentheses and then the
return type.  This file decodes descriptors into type references.
-/
import JavaScope.ClassFile.Error
import JavaScope.Name
import JavaScope.TypeRef

namespace JavaScope.Descriptor

/-- The keyword of the primitive type with this letter. -/
def primitive? : Char → Option String
  | 'Z' => some "boolean"
  | 'B' => some "byte"
  | 'C' => some "char"
  | 'S' => some "short"
  | 'I' => some "int"
  | 'J' => some "long"
  | 'F' => some "float"
  | 'D' => some "double"
  | _ => none

/-- The type without dimensions at the front of a text, and the text behind it. -/
def element? : List Char → Option (TypeRef × List Char)
  | [] => none
  | 'L' :: cs =>
    match cs.takeWhile (· ≠ ';'), cs.dropWhile (· ≠ ';') with
    | c :: name, _ :: rest => some (⟨String.ofList (Name.replace '/' '.' (c :: name))⟩, rest)
    | _, _ => none
  | c :: cs => (primitive? c).map fun name => (⟨name⟩, cs)

/-- The name of the type of methods that return nothing. -/
def void : TypeRef := ⟨"void"⟩

/-- The type at the front of a text, and the text behind it.  There are no arrays of
`void`. -/
def type? (cs : List Char) : Option (TypeRef × List Char) :=
  let dimensions := (cs.takeWhile (· = '[')).length
  match cs.dropWhile (· = '[') with
  | 'V' :: rest => if dimensions = 0 then some (void, rest) else none
  | cs => (element? cs).map fun (t, rest) => (t.array dimensions, rest)

/-- The type that a text describes. -/
def field? (text : String) : Option TypeRef :=
  match type? text.toList with
  | some (t, []) => some t
  | _ => none

/-- A decoded method descriptor. -/
structure Method where
  parameters : List TypeRef
  returnType : TypeRef
deriving DecidableEq, Repr, Inhabited

/-- The types up to the closing parenthesis, `fuel` of them at most, and the text behind
it.  None of them may be called `void`. -/
def parameters? : Nat → List Char → Option (List TypeRef × List Char)
  | _, ')' :: rest => some ([], rest)
  | 0, _ => none
  | fuel + 1, cs =>
    match type? cs with
    | some (t, rest) =>
      if t = void then none
      else (parameters? fuel rest).map fun (ts, rest) => (t :: ts, rest)
    | none => none

/-- The method types that a text describes.  Every parameter takes a character at least, so
there are no more of them than characters. -/
def method? (text : String) : Option Method :=
  match text.toList with
  | '(' :: cs =>
    match parameters? cs.length cs with
    | some (parameters, rest) =>
      match type? rest with
      | some (returnType, []) => some ⟨parameters, returnType⟩
      | _ => none
    | none => none
  | _ => none

/-- The type of a field descriptor, or the error that names the text. -/
def field (text : String) : Except ClassError TypeRef :=
  match field? text with
  | some t => .ok t
  | none => .error (.badDescriptor text)

/-- The types of a method descriptor, or the error that names the text. -/
def method (text : String) : Except ClassError Method :=
  match method? text with
  | some m => .ok m
  | none => .error (.badDescriptor text)

end JavaScope.Descriptor
