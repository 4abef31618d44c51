/-
# Descriptions of classes

What there is to say about a class, as data that knows nothing of pools, attributes and
bytes: element values, annotations, fields, methods and the class itself.  Every part has
the piece of a class stub that shows it, down to `ClassDescription.stub`, and a condition
under which a class file can say it, up to `ClassDescription.Valid`.
-/
import JavaScope.ClassFile.Scan
import JavaScope.Proofs.ClassFile.TypeDescriptor
import JavaScope.Stub.Basic

namespace JavaScope

/-! ## Element values -/

/-- An element value, with its types as data. -/
inductive ElementValue
  | scalar (value : Scalar)
  | enumConstant (type : FieldType) (name : String)
  | classLiteral (type : ResultType)
  | array (items : List ElementValue)
  | annotated (type : FieldType) (elements : List (String × ElementValue))

namespace ElementValue

mutual

/-- The value that a stub shows. -/
def value : ElementValue → Value
  | scalar s => .scalar s
  | enumConstant t name => .enumConstant t.ref name
  | classLiteral t => .classLiteral t.ref
  | array items => .array (values items)
  | annotated t elements => .annotated t.ref (namedValues elements)

/-- The values of the items of an array. -/
def values : List ElementValue → List Value
  | [] => []
  | v :: vs => v.value :: values vs

/-- The values of the elements of an annotation. -/
def namedValues : List (String × ElementValue) → List (String × Value)
  | [] => []
  | (name, v) :: rest => (name, v.value) :: namedValues rest

end

/-- At this depth no part of the value lies too deep, and no annotation in it has two
elements of one name. -/
inductive Valid : Nat → ElementValue → Prop
  | scalar {depth : Nat} {s : Scalar} : depth ≤ maxValueDepth → Valid depth (scalar s)
  | enumConstant {depth : Nat} {t : FieldType} {name : String} :
      depth ≤ maxValueDepth → Valid depth (enumConstant t name)
  | classLiteral {depth : Nat} {t : ResultType} :
      depth ≤ maxValueDepth → Valid depth (classLiteral t)
  | array {depth : Nat} {items : List ElementValue} :
      depth ≤ maxValueDepth → (∀ v ∈ items, Valid (depth + 1) v) → Valid depth (array items)
  | annotated {depth : Nat} {t : FieldType} {elements : List (String × ElementValue)} :
      depth ≤ maxValueDepth → (elements.map (·.1)).Nodup →
      (∀ e ∈ elements, Valid (depth + 1) e.2) → Valid depth (annotated t elements)

lemma Valid.depth_le {depth : Nat} {v : ElementValue} (h : v.Valid depth) :
    depth ≤ maxValueDepth := by
  cases h <;> assumption

lemma Valid.items {depth : Nat} {items : List ElementValue} (h : Valid depth (.array items)) :
    ∀ v ∈ items, v.Valid (depth + 1) := by
  cases h
  assumption

lemma Valid.elements {depth : Nat} {t : FieldType} {elements : List (String × ElementValue)}
    (h : Valid depth (.annotated t elements)) : ∀ e ∈ elements, e.2.Valid (depth + 1) := by
  cases h
  assumption

end ElementValue

/-! ## Annotations and members -/

/-- An annotation on a class, field or method. -/
structure AnnotationDescription where
  type : FieldType
  elements : List (String × ElementValue)
  isVisible : Bool

namespace AnnotationDescription

/-- The annotation as a stub shows it. -/
def use (a : AnnotationDescription) : AnnotationUse :=
  ⟨⟨a.type.ref, ElementValue.namedValues a.elements⟩, a.isVisible⟩

/-- Class files can hold the annotation. -/
def Valid (a : AnnotationDescription) : Prop :=
  (a.elements.map (·.1)).Nodup ∧ ∀ e ∈ a.elements, e.2.Valid 1

end AnnotationDescription

/-- Fields of the type can have this constant. -/
def FieldType.Admits (t : FieldType) (s : Scalar) : Prop :=
  t.dimensions = 0 ∧
    match t.element, s with
    | .primitive .boolean, .boolean _ | .primitive .byte, .byte _ | .primitive .char, .char _
    | .primitive .short, .short _ | .primitive .int, .int _ | .primitive .long, .long _
    | .primitive .float, .float _ | .primitive .double, .double _ => True
    | .named n, .string _ => n.text = "java/lang/String"
    | _, _ => False

/-- A field. -/
structure FieldDescription where
  access : Access
  name : String
  type : FieldType
  signature : Option String
  constant : Option Scalar
  annotations : List AnnotationDescription

namespace FieldDescription

/-- The field as a stub shows it. -/
def stub (f : FieldDescription) : FieldStub where
  access := f.access
  name := f.name
  descriptor := f.type.descriptor
  type := f.type.ref
  signature := f.signature
  constant := f.constant
  annotations := f.annotations.map (·.use)

/-- Class files can hold the field. -/
def Valid (f : FieldDescription) : Prop :=
  (∀ s ∈ f.constant, f.type.Admits s) ∧ ∀ a ∈ f.annotations, a.Valid

end FieldDescription

/-- A method or constructor. -/
structure MethodDescription where
  access : Access
  name : String
  type : MethodType
  signature : Option String
  /-- The internal names of the declared exceptions. -/
  exceptions : List String
  default? : Option ElementValue
  annotations : List AnnotationDescription

namespace MethodDescription

/-- The method as a stub shows it. -/
def stub (m : MethodDescription) : MethodStub where
  access := m.access
  name := m.name
  descriptor := m.type.descriptor
  parameters := m.type.parameters.map (·.ref)
  returnType := m.type.result.ref
  signature := m.signature
  exceptions := m.exceptions.map Name.toBinary
  annotations := m.annotations.map (·.use)
  default? := m.default?.map (·.value)

/-- Class files can hold the method. -/
def Valid (m : MethodDescription) : Prop :=
  (∀ v ∈ m.default?, v.Valid 0) ∧ ∀ a ∈ m.annotations, a.Valid

/-- A parameter is of the class called `void`. -/
def takesClassVoid (m : MethodDescription) : Bool := m.type.parameters.any (·.isClassVoid)

end MethodDescription

/-! ## Classes -/

/-- An entry of the table of inner classes.  Names of classes are internal. -/
structure InnerClassDescription where
  inner : String
  outer : Option String
  simpleName : Option String
  access : Access
deriving DecidableEq

/-- A class.  Names of classes are internal. -/
structure ClassDescription where
  version : ClassVersion
  access : Access
  name : String
  superName : Option String
  interfaces : List String
  signature : Option String
  innerClasses : List InnerClassDescription
  annotations : List AnnotationDescription
  fields : List FieldDescription
  methods : List MethodDescription

namespace ClassDescription

/-- The entry about the class itself.  There should not be more than one; the last one
counts. -/
def ownEntry? (d : ClassDescription) : Option InnerClassDescription :=
  d.innerClasses.reverse.find? (·.inner = d.name)

/-- A member of the class called `name`, if the entry is about one: its outer class is this
class, and it has a simple name. -/
def memberType? (name : String) (e : InnerClassDescription) : Option MemberType :=
  match e.outer, e.simpleName with
  | some outer, some simpleName =>
    if e.inner ≠ name ∧ outer = name then some ⟨Name.toBinary e.inner, simpleName, e.access⟩
    else none
  | _, _ => none

/-- The stub of the class. -/
def stub (d : ClassDescription) : ClassStub where
  internalName := d.name
  version := d.version
  access := d.access
  kind := .ofAccess d.access d.superName
  signature := d.signature
  superName := d.superName.map Name.toBinary
  interfaces := d.interfaces.map Name.toBinary
  enclosing := (d.ownEntry?.bind (·.outer)).map Name.toBinary
  simpleName := (d.ownEntry?.bind (·.simpleName)).getD (Name.simple (Name.toBinary d.name))
  modifiers := Access.classModifiers ((d.ownEntry?.map (·.access)).getD d.access)
  annotations := d.annotations.map (·.use)
  memberTypes := d.innerClasses.filterMap (memberType? d.name)
  fields := d.fields.map (·.stub)
  methods := d.methods.map (·.stub)

/-- Class files that can be read can hold the class. -/
structure Valid (d : ClassDescription) : Prop where
  version : ClassVersion.oldestMajor ≤ d.version.major
  annotations : ∀ a ∈ d.annotations, a.Valid
  fields : ∀ f ∈ d.fields, f.Valid
  methods : ∀ m ∈ d.methods, m.Valid

end ClassDescription

end JavaScope
