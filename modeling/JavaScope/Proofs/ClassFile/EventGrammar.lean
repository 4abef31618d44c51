/-
# The grammar of class events

The sequences of events that tell values, annotations, members and classes, as languages.  Rules
say what is asked of events besides their order: which descriptors may stand in them, and which
names the elements of an annotation may have together.  Class files tell words of `classFile`,
where nothing is asked; class drafts accept words of `stub`, where the members of a class and the
parts of a member may come in any order.
-/
import Mathlib.Computability.Language
import Mathlib.Tactic.Lemma
import JavaScope.ClassFile.Event

namespace JavaScope

open scoped Computability

/-- What is asked of events besides their order. -/
structure EventRules where
  /-- Descriptors of fields, annotations, enum constants and class literals. -/
  type : String → Prop
  /-- Descriptors of methods. -/
  method : String → Prop
  /-- The names of the elements of an annotation, in order. -/
  names : List String → Prop

/-- Nothing is asked. -/
def EventRules.any : EventRules := ⟨fun _ => True, fun _ => True, fun _ => True⟩

namespace EventGrammar

/-- The sequences of one event with a property. -/
def one (p : ClassEvent → Prop) : Language ClassEvent := {es | ∃ e, p e ∧ es = [e]}

/-! ## Values -/

/-- The events tell one value.  It carries the name `name`: a part of an annotation has one, and
an item of an array or a default has none. -/
inductive IsValue (r : EventRules) : Option String → List ClassEvent → Prop
  | scalar {name : Option String} (s : Scalar) : IsValue r name [.scalar name s]
  | enumValue {name : Option String} {descriptor : String} (constant : String) :
      r.type descriptor → IsValue r name [.enumValue name descriptor constant]
  | classValue {name : Option String} {descriptor : String} :
      r.type descriptor → IsValue r name [.classValue name descriptor]
  | array {name : Option String} (items : List (List ClassEvent)) :
      (∀ es ∈ items, IsValue r none es) →
      IsValue r name (.arrayStart name :: (items.flatten ++ [.valueEnd]))
  | annotated {name : Option String} {descriptor : String}
      (elements : List (String × List ClassEvent)) :
      r.type descriptor → r.names (elements.map (·.1)) →
      (∀ e ∈ elements, IsValue r (some e.1) e.2) →
      IsValue r name
        (.nestedAnnotationStart name descriptor :: (elements.flatMap (·.2) ++ [.valueEnd]))

variable (r : EventRules)

/-- A value that carries this name. -/
def value (name : Option String) : Language ClassEvent := {es | IsValue r name es}

/-- The elements of an annotation: values that carry names. -/
def elements : Language ClassEvent :=
  {es | ∃ parts : List (String × List ClassEvent), r.names (parts.map (·.1)) ∧
    (∀ e ∈ parts, e.2 ∈ value r (some e.1)) ∧ es = parts.flatMap (·.2)}

/-- The end of a value that has parts. -/
def valueEnd : Language ClassEvent := one (· = .valueEnd)

/-! ## Parts of classes and members -/

/-- An annotation on a declaration. -/
def annotationUse : Language ClassEvent :=
  one (∃ descriptor isVisible, r.type descriptor ∧ · = .annotationStart descriptor isVisible) *
    elements r * valueEnd

/-- The default of a method: exactly one value, without a name. -/
def annotationDefault : Language ClassEvent :=
  one (· = .annotationDefault) * value r none * valueEnd

def signature : Language ClassEvent := one (∃ text, · = .signature text)

def fieldConstant : Language ClassEvent := one (∃ s, · = .fieldConstant s)

def exceptions : Language ClassEvent := one (∃ names, · = .exceptions names)

def innerClass : Language ClassEvent :=
  one (∃ inner outer simpleName access, · = .innerClass inner outer simpleName access)

/-- A field that tells such parts. -/
def field (parts : Language ClassEvent) : Language ClassEvent :=
  one (∃ access name descriptor, r.type descriptor ∧ · = .fieldStart access name descriptor) *
    parts * one (· = .fieldEnd)

/-- A method that tells such parts. -/
def method (parts : Language ClassEvent) : Language ClassEvent :=
  one (∃ access name descriptor, r.method descriptor ∧ · = .methodStart access name descriptor) *
    parts * one (· = .methodEnd)

/-- A class that tells such parts. -/
def classOf (parts : Language ClassEvent) : Language ClassEvent :=
  one (∃ version access name superName interfaces,
      · = .classStart version access name superName interfaces) *
    parts * one (· = .classEnd)

/-! ## Classes -/

/-- What class files tell: the fields, then the methods, then the rest. -/
def classFile : Language ClassEvent :=
  classOf
    ((field r (fieldConstant + signature + annotationUse r)∗)∗ *
      (method r (exceptions + signature + annotationDefault r + annotationUse r)∗)∗ *
      (innerClass + signature + annotationUse r)∗)

/-- The parts of a field in any order, with one constant at most. -/
def fieldParts : Language ClassEvent :=
  (signature + annotationUse r)∗ * (1 + fieldConstant) * (signature + annotationUse r)∗

/-- The parts of a method in any order, with one default at most. -/
def methodParts : Language ClassEvent :=
  (exceptions + signature + annotationUse r)∗ * (1 + annotationDefault r) *
    (exceptions + signature + annotationUse r)∗

/-- What tells a stub: the members and the other parts of a class in any order. -/
def stub : Language ClassEvent :=
  classOf
    (innerClass + signature + annotationUse r + field r (fieldParts r) +
      method r (methodParts r))∗

end EventGrammar

/-! ## Open compounds -/

namespace ClassEvent

/-- The event opens an annotation or an array. -/
def opensCompound : ClassEvent → Bool
  | annotationStart .. | arrayStart _ | nestedAnnotationStart .. => true
  | _ => false

/-- The groups that are open after an event, each told by its first event, the innermost first.
Like a compound, a default is closed by `valueEnd`. -/
def track (opened : List ClassEvent) (e : ClassEvent) : List ClassEvent :=
  match e with
  | valueEnd => opened.tail
  | annotationDefault => e :: opened
  | e => if e.opensCompound then e :: opened else opened

end ClassEvent

namespace EventGrammar

/-- The number of arrays and annotations that are open after some events. -/
def openCompounds (es : List ClassEvent) : Nat :=
  (es.foldl ClassEvent.track []).countP (·.opensCompound)

end EventGrammar

end JavaScope
