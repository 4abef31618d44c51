/-
# Class events

What a class file says is reported as a flat sequence of events, in this order:

    ClassStart
      (FieldStart  (FieldConstant | Signature | Annotation)* FieldEnd)*
      (MethodStart (Exceptions | Signature | Default | Annotation)* MethodEnd)*
      (InnerClass | Signature | Annotation)*
    ClassEnd

    Default    := AnnotationDefault value ValueEnd
    Annotation := AnnotationStart (named value)* ValueEnd
    value      := Scalar | EnumValue | ClassValue
                | ArrayStart value* ValueEnd
                | NestedAnnotationStart (named value)* ValueEnd

An element value carries its element name when it sits directly inside an annotation, and
no name inside an array or as an annotation default.
-/
import JavaScope.Modifiers
import JavaScope.Value.Scalar

namespace JavaScope

/-- The version of a class file. -/
structure ClassVersion where
  major : UInt16
  minor : UInt16
deriving DecidableEq, Repr, Inhabited

/-- The major version of the oldest class files that can be read. -/
def ClassVersion.oldestMajor : UInt16 := 45

/-- One thing that a class file says. -/
inductive ClassEvent
  /-- The head of the class.  Names are internal. -/
  | classStart (version : ClassVersion) (access : Access) (name : String)
      (superName : Option String) (interfaces : List String)
  /-- An entry of the table of inner classes. -/
  | innerClass (inner : String) (outer simpleName : Option String) (access : Access)
  | fieldStart (access : Access) (name descriptor : String)
  /-- The constant of the current field, of the sort that its descriptor asks for. -/
  | fieldConstant (value : Scalar)
  | fieldEnd
  | methodStart (access : Access) (name descriptor : String)
  /-- The declared exceptions of the current method, as internal names. -/
  | exceptions (names : List String)
  /-- The generic signature of the current class, field or method. -/
  | signature (text : String)
  /-- The current method has a default value: one value follows, then `valueEnd`. -/
  | annotationDefault
  /-- An annotation on the current class, field or method. -/
  | annotationStart (descriptor : String) (isVisible : Bool)
  | scalar (name : Option String) (value : Scalar)
  | enumValue (name : Option String) (descriptor constant : String)
  /-- A class literal, by the descriptor of the class. -/
  | classValue (name : Option String) (descriptor : String)
  | arrayStart (name : Option String)
  | nestedAnnotationStart (name : Option String) (descriptor : String)
  /-- Closes the innermost open default, annotation or array. -/
  | valueEnd
  | methodEnd
  | classEnd
deriving DecidableEq, Repr, Inhabited

/-- The name of an event in messages. -/
def ClassEvent.label : ClassEvent → String
  | classStart .. => "ClassStart"
  | innerClass .. => "InnerClass"
  | fieldStart .. => "FieldStart"
  | fieldConstant _ => "FieldConstant"
  | fieldEnd => "FieldEnd"
  | methodStart .. => "MethodStart"
  | exceptions _ => "Exceptions"
  | signature _ => "Signature"
  | annotationDefault => "AnnotationDefault"
  | annotationStart .. => "AnnotationStart"
  | scalar .. => "Scalar"
  | enumValue .. => "EnumValue"
  | classValue .. => "ClassValue"
  | arrayStart _ => "ArrayStart"
  | nestedAnnotationStart .. => "NestedAnnotationStart"
  | valueEnd => "ValueEnd"
  | methodEnd => "MethodEnd"
  | classEnd => "ClassEnd"

end JavaScope
