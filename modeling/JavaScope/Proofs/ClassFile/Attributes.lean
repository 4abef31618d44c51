/-
# Attributes and events

How the parts of a description are spread over attributes, which a class file may hold in
any order and among others that say nothing of interest, and in which events a scan tells
the description.
-/
import JavaScope.Proofs.ClassFile.Description
import JavaScope.Proofs.ClassFile.Framing

namespace JavaScope

/-! ## Events of values and annotations -/

namespace ElementValue

mutual

/-- The events that tell a value of this name. -/
def events (name : Option String) : ElementValue → List ClassEvent
  | scalar s => [.scalar name s]
  | enumConstant t constant => [.enumValue name t.descriptor constant]
  | classLiteral t => [.classValue name t.descriptor]
  | array items => .arrayStart name :: (itemEvents items ++ [.valueEnd])
  | annotated t elements =>
    .nestedAnnotationStart name t.descriptor :: (elementEvents elements ++ [.valueEnd])

/-- The events that tell the items of an array. -/
def itemEvents : List ElementValue → List ClassEvent
  | [] => []
  | v :: vs => v.events none ++ itemEvents vs

/-- The events that tell the elements of an annotation. -/
def elementEvents : List (String × ElementValue) → List ClassEvent
  | [] => []
  | (name, v) :: rest => v.events (some name) ++ elementEvents rest

end

end ElementValue

/-- The events that tell an annotation. -/
def AnnotationDescription.events (a : AnnotationDescription) : List ClassEvent :=
  .annotationStart a.type.descriptor a.isVisible ::
    (ElementValue.elementEvents a.elements ++ [.valueEnd])

/-- The event that tells an entry of the table of inner classes. -/
def InnerClassDescription.event (e : InnerClassDescription) : ClassEvent :=
  .innerClass e.inner e.outer e.simpleName e.access

/-! ## Attributes -/

/-- What an attribute says. -/
inductive AttributeContent
  | constantValue (value : Scalar)
  | signature (text : String)
  | exceptions (names : List String)
  | annotationDefault (value : ElementValue)
  | innerClasses (entries : List InnerClassDescription)
  | annotations (isVisible : Bool) (uses : List AnnotationDescription)
  /-- Code, line numbers, or anything else that no stub shows. -/
  | other (name : String) (body : List UInt8)

/-- The names of the attributes that say something about an element. -/
def Element.knownNames : Element → List String
  | ofClass =>
    ["Signature", "RuntimeVisibleAnnotations", "RuntimeInvisibleAnnotations", "InnerClasses"]
  | ofField _ =>
    ["Signature", "RuntimeVisibleAnnotations", "RuntimeInvisibleAnnotations", "ConstantValue"]
  | ofMethod =>
    ["Signature", "RuntimeVisibleAnnotations", "RuntimeInvisibleAnnotations", "Exceptions",
      "AnnotationDefault"]

namespace AttributeContent

/-- The name of the attribute. -/
def name : AttributeContent → String
  | constantValue _ => "ConstantValue"
  | signature _ => "Signature"
  | exceptions _ => "Exceptions"
  | annotationDefault _ => "AnnotationDefault"
  | innerClasses _ => "InnerClasses"
  | annotations true _ => "RuntimeVisibleAnnotations"
  | annotations false _ => "RuntimeInvisibleAnnotations"
  | other name _ => name

/-- The attribute may stand on the element. -/
def StandsOn (element : Element) : AttributeContent → Prop
  | other name _ => name ∉ element.knownNames
  | annotations isVisible uses =>
    (annotations isVisible uses).name ∈ element.knownNames ∧ ∀ a ∈ uses, a.isVisible = isVisible
  | a => a.name ∈ element.knownNames

/-- The constant of a field. -/
def constant? : AttributeContent → Option Scalar
  | constantValue s => some s
  | _ => none

/-- The generic signature. -/
def signature? : AttributeContent → Option String
  | signature text => some text
  | _ => none

/-- The declared exceptions of a method. -/
def exceptions? : AttributeContent → Option (List String)
  | exceptions names => some names
  | _ => none

/-- The default value of a method. -/
def default? : AttributeContent → Option ElementValue
  | annotationDefault v => some v
  | _ => none

/-- Entries of the table of inner classes. -/
def entries : AttributeContent → List InnerClassDescription
  | innerClasses entries => entries
  | _ => []

/-- Annotations. -/
def uses : AttributeContent → List AnnotationDescription
  | annotations _ uses => uses
  | _ => []

/-- The events that tell the attribute. -/
def events : AttributeContent → List ClassEvent
  | constantValue s => [.fieldConstant s]
  | signature text => [.signature text]
  | exceptions names => [.exceptions names]
  | annotationDefault v => .annotationDefault :: (v.events none ++ [.valueEnd])
  | innerClasses entries => entries.map (·.event)
  | annotations _ uses => uses.flatMap (·.events)
  | other _ _ => []

end AttributeContent

/-! ## Tables of attributes -/

/-- The attributes, in their order, say what there is to say about the field. -/
structure FieldDescription.SpreadOver (f : FieldDescription) (table : List AttributeContent) :
    Prop where
  standing : ∀ a ∈ table, a.StandsOn (.ofField f.type.descriptor)
  signature : table.filterMap (·.signature?) = f.signature.toList
  constant : table.filterMap (·.constant?) = f.constant.toList
  annotations : table.flatMap (·.uses) = f.annotations

/-- The attributes, in their order, say what there is to say about the method.  A method
without exceptions may have an empty list of them or none. -/
structure MethodDescription.SpreadOver (m : MethodDescription) (table : List AttributeContent) :
    Prop where
  standing : ∀ a ∈ table, a.StandsOn .ofMethod
  signature : table.filterMap (·.signature?) = m.signature.toList
  exceptions : ∃ listed : Option (List String),
    table.filterMap (·.exceptions?) = listed.toList ∧ listed.getD [] = m.exceptions
  default? : table.filterMap (·.default?) = m.default?.toList
  annotations : table.flatMap (·.uses) = m.annotations

/-- The attributes, in their order, say what there is to say about the class beside its
head and its members. -/
structure ClassDescription.SpreadOver (d : ClassDescription) (table : List AttributeContent) :
    Prop where
  standing : ∀ a ∈ table, a.StandsOn .ofClass
  signature : table.filterMap (·.signature?) = d.signature.toList
  innerClasses : table.flatMap (·.entries) = d.innerClasses
  annotations : table.flatMap (·.uses) = d.annotations

/-! ## Events of members and classes -/

/-- The events tell the field. -/
def FieldDescription.ToldBy (f : FieldDescription) (events : List ClassEvent) : Prop :=
  ∃ table, f.SpreadOver table ∧
    events = .fieldStart f.access f.name f.type.descriptor ::
      (table.flatMap (·.events) ++ [.fieldEnd])

/-- The events tell the method. -/
def MethodDescription.ToldBy (m : MethodDescription) (events : List ClassEvent) : Prop :=
  ∃ table, m.SpreadOver table ∧
    events = .methodStart m.access m.name m.type.descriptor ::
      (table.flatMap (·.events) ++ [.methodEnd])

/-- The events tell the class. -/
def ClassDescription.ToldBy (d : ClassDescription) (events : List ClassEvent) : Prop :=
  ∃ table fields methods, d.SpreadOver table ∧ InTurn FieldDescription.ToldBy d.fields fields ∧
    InTurn MethodDescription.ToldBy d.methods methods ∧
    events = .classStart d.version d.access d.name d.superName d.interfaces ::
      (fields ++ (methods ++ (table.flatMap (·.events) ++ [.classEnd])))

end JavaScope
