/-
# Drafts of class stubs

A class draft assembles a class stub from the events of a class file.  It accepts exactly
the sequences of events that follow the grammar of class events, up to the order of the
parts of a class and of a member.  After the first refused event it accepts no other; a
stub that was finished before that stays.
-/
import JavaScope.ClassFile.Scan
import JavaScope.Stub.Basic
import JavaScope.Stub.ValueDraft

namespace JavaScope

/-- A class whose members are still being added. -/
structure ClassDraft where
  version : ClassVersion
  access : Access
  /-- The internal name. -/
  name : String
  /-- The internal name of the superclass. -/
  superName : Option String
  /-- The internal names of the interfaces. -/
  interfaces : List String
  signature : Option String := none
  annotations : List AnnotationUse := []
  /-- What the table of inner classes says about this class itself: its outer class, its
  simple name and its access flags. -/
  ownEntry : Option (Option String × Option String × Access) := none
  memberTypes : List MemberType := []
  fields : List FieldStub := []
  methods : List MethodStub := []
deriving Inhabited

namespace ClassDraft

/-- Takes note of an entry of the table of inner classes: about the class itself, about one
of its members, or about neither. -/
def addInnerClass (c : ClassDraft) (inner : String) (outer simpleName : Option String)
    (access : Access) : ClassDraft :=
  if inner = c.name then { c with ownEntry := some (outer, simpleName, access) }
  else
    match outer, simpleName with
    | some outer, some simpleName =>
      if outer = c.name then
        { c with memberTypes := c.memberTypes ++ [⟨Name.toBinary inner, simpleName, access⟩] }
      else c
    | _, _ => c

/-- The stub of the class.  A class that has an entry about itself takes its modifiers and
its simple name from there. -/
def build (c : ClassDraft) : ClassStub where
  internalName := c.name
  version := c.version
  access := c.access
  kind := .ofAccess c.access c.superName
  signature := c.signature
  superName := c.superName.map Name.toBinary
  interfaces := c.interfaces.map Name.toBinary
  enclosing := c.ownEntry.bind fun (outer, _, _) => outer.map Name.toBinary
  simpleName :=
    (c.ownEntry.bind fun (_, simpleName, _) => simpleName).getD
      (Name.simple (Name.toBinary c.name))
  modifiers :=
    Access.classModifiers
      (match c.ownEntry with
        | some (_, _, access) => access
        | none => c.access)
  annotations := c.annotations
  memberTypes := c.memberTypes
  fields := c.fields
  methods := c.methods

end ClassDraft

/-- The declaration that an open annotation is on. -/
inductive AnnotationTarget
  | onClass
  | onField (field : FieldStub)
  | onMethod (method : MethodStub)
deriving Inhabited

/-- How far the events have come. -/
inductive StubDraft
  | awaitingClass
  | inClass (c : ClassDraft)
  | inField (c : ClassDraft) (field : FieldStub)
  | inMethod (c : ClassDraft) (method : MethodStub)
  | inAnnotationUse (c : ClassDraft) (target : AnnotationTarget) (isVisible : Bool)
      (value : ValueDraft Annotation)
  | inDefault (c : ClassDraft) (method : MethodStub) (value : ValueDraft (Option Value))
  /-- After the last event of a class, with its stub, or after a refused event. -/
  | closed (stub : Option ClassStub)
deriving Inhabited

/-- The states of a draft as a reader tells them apart. -/
inductive DraftState
  | awaitingClass
  | inClass
  | inField
  | inMethod
  | inAnnotationValue
  | inArrayValue
  | inNestedAnnotationValue
  | finished
deriving DecidableEq, Repr, Inhabited

/-- The name of a state in traces. -/
def DraftState.label : DraftState → String
  | awaitingClass => "AwaitingClass"
  | inClass => "InClass"
  | inField => "InField"
  | inMethod => "InMethod"
  | inAnnotationValue => "InAnnotationValue"
  | inArrayValue => "InArrayValue"
  | inNestedAnnotationValue => "InNestedAnnotation"
  | finished => "Finished"

namespace StubDraft

/-- The state of an open value is told by its innermost open compound. -/
def valueState : List Compound → DraftState
  | [] => .inAnnotationValue
  | .array .. :: _ => .inArrayValue
  | .annotated .. :: _ => .inNestedAnnotationValue

/-- The state of a draft. -/
def state : StubDraft → DraftState
  | awaitingClass => .awaitingClass
  | inClass _ => .inClass
  | inField .. => .inField
  | inMethod .. => .inMethod
  | inAnnotationUse _ _ _ value => valueState value.compounds
  | inDefault _ _ value => valueState value.compounds
  | closed _ => .finished

/-- The error of an event that does not fit here. -/
def unexpected (e : ClassEvent) (context : EventContext) : Except ClassError StubDraft :=
  .error (.inconsistent (.unexpected e.label context))

/-- Puts a finished annotation on its declaration. -/
def addAnnotationUse (c : ClassDraft) (use : AnnotationUse) : AnnotationTarget → StubDraft
  | .onClass => inClass { c with annotations := c.annotations ++ [use] }
  | .onField f => inField c { f with annotations := f.annotations ++ [use] }
  | .onMethod m => inMethod c { m with annotations := m.annotations ++ [use] }

/-- The draft with an open annotation after one more event. -/
def stepAnnotationUse (c : ClassDraft) (target : AnnotationTarget) (isVisible : Bool)
    (value : ValueDraft Annotation) (e : ClassEvent) : Except ClassError StubDraft := do
  match ← value.accept e with
  | .pending value => return inAnnotationUse c target isVisible value
  | .complete root => return addAnnotationUse c ⟨root, isVisible⟩ target

/-- The draft with an open annotation default after one more event. -/
def stepDefault (c : ClassDraft) (m : MethodStub) (value : ValueDraft (Option Value))
    (e : ClassEvent) : Except ClassError StubDraft := do
  match ← value.accept e with
  | .pending value => return inDefault c m value
  | .complete root =>
    return inMethod c { m with default? := some (← (Progress.complete root).finish) }

/-- The draft of a class after one more event. -/
def stepClass (c : ClassDraft) (e : ClassEvent) : Except ClassError StubDraft :=
  match e with
  | .fieldStart access name descriptor =>
    return inField c { access, name, descriptor, type := ← Descriptor.field descriptor }
  | .methodStart access name descriptor => do
    let types ← Descriptor.method descriptor
    return inMethod c
      { access, name, descriptor, parameters := types.parameters, returnType := types.returnType }
  | .innerClass inner outer simpleName access =>
    .ok (inClass (c.addInnerClass inner outer simpleName access))
  | .signature text => .ok (inClass { c with signature := some text })
  | .annotationStart descriptor isVisible =>
    return inAnnotationUse c .onClass isVisible (← ValueDraft.annotationOf descriptor)
  | .classEnd => .ok (closed (some c.build))
  | e => unexpected e .inClass

/-- The draft of a field after one more event. -/
def stepField (c : ClassDraft) (f : FieldStub) (e : ClassEvent) : Except ClassError StubDraft :=
  match e with
  | .fieldConstant value =>
    match f.constant with
    | some _ => .error (.malformed 0 (.repeatedConstant f.name))
    | none => .ok (inField c { f with constant := some value })
  | .signature text => .ok (inField c { f with signature := some text })
  | .annotationStart descriptor isVisible =>
    return inAnnotationUse c (.onField f) isVisible (← ValueDraft.annotationOf descriptor)
  | .fieldEnd => .ok (inClass { c with fields := c.fields ++ [f] })
  | e => unexpected e .inField

/-- The draft of a method after one more event. -/
def stepMethod (c : ClassDraft) (m : MethodStub) (e : ClassEvent) :
    Except ClassError StubDraft :=
  match e with
  | .exceptions names => .ok (inMethod c { m with exceptions := names.map Name.toBinary })
  | .signature text => .ok (inMethod c { m with signature := some text })
  | .annotationStart descriptor isVisible =>
    return inAnnotationUse c (.onMethod m) isVisible (← ValueDraft.annotationOf descriptor)
  | .annotationDefault =>
    match m.default? with
    | some _ => .error (.malformed 0 (.repeatedDefault m.name))
    | none => .ok (inDefault c m ValueDraft.ofDefault)
  | .methodEnd => .ok (inClass { c with methods := c.methods ++ [m] })
  | e => unexpected e .inMethod

/-- The draft after one more event. -/
def step (d : StubDraft) (e : ClassEvent) : Except ClassError StubDraft :=
  match d with
  | awaitingClass =>
    match e with
    | .classStart version access name superName interfaces =>
      .ok (inClass { version, access, name, superName, interfaces })
    | e => unexpected e .beforeClass
  | inClass c => stepClass c e
  | inField c f => stepField c f e
  | inMethod c m => stepMethod c m e
  | inAnnotationUse c target isVisible value => stepAnnotationUse c target isVisible value e
  | inDefault c m value => stepDefault c m value e
  | closed _ => unexpected e .afterClass

/-- What is left of a draft after a refused event: the stub, if it was finished. -/
def abandon : StubDraft → StubDraft
  | closed stub => closed stub
  | _ => closed none

/-- A visitor that assembles the stub of a class file. -/
def visitor : Visitor StubDraft where
  visit e d :=
    match d.step e with
    | .ok d => (.ok (), d)
    | .error x => (.error x, d.abandon)

/-- The finished stub. -/
def finish : StubDraft → Except ClassError ClassStub
  | closed (some stub) => .ok stub
  | _ => .error (.inconsistent .noStub)

end StubDraft

/-- The stub of a class file. -/
def ClassStub.ofBytes (bytes : List UInt8) : Except ClassError ClassStub :=
  match scanClass StubDraft.visitor bytes .awaitingClass with
  | (.ok (), d) => d.finish
  | (.error e, _) => .error e

end JavaScope
