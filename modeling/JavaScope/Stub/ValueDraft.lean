/-
# Drafts of values

A draft assembles one constant value from the events that describe it.  Arrays and
annotations that are still open form a stack above a root.  For an annotation on a
declaration the root is that annotation, and its elements are named; for an annotation
default the root is a place for one value without a name.
-/
import JavaScope.ClassFile.Descriptor
import JavaScope.Value.Basic

namespace JavaScope

/-! ## Compounds -/

/-- An array or annotation whose parts are still being added, with the name that it will
carry when it is closed. -/
inductive Compound
  | array (name : Option String) (items : List Value)
  | annotated (name : Option String) (value : Annotation)
deriving Inhabited

namespace Compound

/-- The name that the compound will carry. -/
def name : Compound → Option String
  | array name _ => name
  | annotated name _ => name

/-- The compound as a value. -/
def value : Compound → Value
  | array _ items => .array items
  | annotated _ a => a.toValue

end Compound

/-- Adds an element to an annotation.  It has a name, and no other element has that name. -/
def Annotation.add (a : Annotation) (name : Option String) (value : Value) :
    Except ClassError Annotation :=
  match name with
  | none => .error (.inconsistent .unnamedElement)
  | some name =>
    match a.insert? name value with
    | some a => .ok a
    | none => .error (.malformed 0 (.duplicateElement name))

/-- Adds a part to a compound.  The items of arrays have no names. -/
def Compound.add (k : Compound) (name : Option String) (value : Value) :
    Except ClassError Compound :=
  match k with
  | array own items =>
    match name with
    | none => .ok (array own (items ++ [value]))
    | some name => .error (.inconsistent (.namedInArray name))
  | annotated own a => return annotated own (← a.add name value)

/-! ## Roots -/

/-- What values are added to when no compound is open. -/
class ValueRoot (ρ : Type) where
  /-- The root with one more value. -/
  add : ρ → Option String → Value → Except ClassError ρ
  /-- The value that the root has become, if there is one. -/
  value? : ρ → Option Value
  /-- The number of compounds that the root is itself until the draft is closed. -/
  compounds : Nat

/-- An annotation on a declaration takes its elements. -/
instance : ValueRoot Annotation where
  add := Annotation.add
  value? a := some a.toValue
  compounds := 1

/-- An annotation default takes one value without a name. -/
def addDefault (root : Option Value) (name : Option String) (value : Value) :
    Except ClassError (Option Value) :=
  match name, root with
  | some _, _ => .error (.inconsistent .unnamedElement)
  | none, some _ => .error (.inconsistent .secondDefault)
  | none, none => .ok (some value)

instance : ValueRoot (Option Value) where
  add := addDefault
  value? := id
  compounds := 0

/-! ## Drafts -/

/-- A value in the making: the open compounds, the innermost first, and the root. -/
structure ValueDraft (ρ : Type) where
  compounds : List Compound := []
  root : ρ
deriving Inhabited

/-- A draft that is open, or the root of one that is closed. -/
inductive Progress (ρ : Type)
  | pending (draft : ValueDraft ρ)
  | complete (root : ρ)
deriving Inhabited

namespace ValueDraft

variable {ρ : Type} [ValueRoot ρ]

/-- Adds a value to the innermost open compound, or to the root. -/
def add (d : ValueDraft ρ) (name : Option String) (value : Value) :
    Except ClassError (ValueDraft ρ) :=
  match d.compounds with
  | k :: ks => return { d with compounds := (← k.add name value) :: ks }
  | [] => return { d with root := (← ValueRoot.add d.root name value) }

/-- Opens a compound. -/
def push (d : ValueDraft ρ) (k : Compound) : ValueDraft ρ :=
  { d with compounds := k :: d.compounds }

/-- Closes the innermost open compound and adds it to what is around it; without one,
closes the draft. -/
def close (d : ValueDraft ρ) : Except ClassError (Progress ρ) :=
  match d.compounds with
  | k :: ks => return .pending (← { d with compounds := ks }.add k.name k.value)
  | [] => .ok (.complete d.root)

/-- The draft after one more event. -/
def accept (d : ValueDraft ρ) (e : ClassEvent) : Except ClassError (Progress ρ) :=
  match e with
  | .scalar name value => return .pending (← d.add name (.scalar value))
  | .enumValue name descriptor constant => do
    let type ← Descriptor.field descriptor
    return .pending (← d.add name (.enumConstant type constant))
  | .classValue name descriptor => do
    let type ← Descriptor.field descriptor
    return .pending (← d.add name (.classLiteral type))
  | .arrayStart name => .ok (.pending (d.push (.array name [])))
  | .nestedAnnotationStart name descriptor => do
    let type ← Descriptor.field descriptor
    return .pending (d.push (.annotated name ⟨type, []⟩))
  | .valueEnd => d.close
  | e => .error (.inconsistent (.notAValue e.label))

/-- The draft of an annotation default. -/
def ofDefault : ValueDraft (Option Value) := { root := none }

/-- The draft of an annotation on a declaration, by the descriptor of its type. -/
def annotationOf (descriptor : String) : Except ClassError (ValueDraft Annotation) :=
  return { root := ⟨← Descriptor.field descriptor, []⟩ }

end ValueDraft

namespace Progress

variable {ρ : Type} [ValueRoot ρ]

/-- A closed draft accepts no event. -/
def accept (p : Progress ρ) (e : ClassEvent) : Except ClassError (Progress ρ) :=
  match p with
  | pending d => d.accept e
  | complete _ => .error (.inconsistent (.afterValue e.label))

/-- The draft after a list of events. -/
def acceptAll (p : Progress ρ) : List ClassEvent → Except ClassError (Progress ρ)
  | [] => .ok p
  | e :: rest => do (← p.accept e).acceptAll rest

/-- The number of compounds that are not closed. -/
def openCompounds : Progress ρ → Nat
  | pending d => d.compounds.length + ValueRoot.compounds ρ
  | complete _ => 0

/-- The root of the draft. -/
def root : Progress ρ → ρ
  | pending d => d.root
  | complete root => root

/-- The finished value. -/
def finish (p : Progress ρ) : Except ClassError Value :=
  if p.openCompounds = 0 then
    match ValueRoot.value? p.root with
    | some v => .ok v
    | none => .error (.inconsistent .noValue)
  else .error (.inconsistent (.unterminated p.openCompounds))

end Progress

end JavaScope
