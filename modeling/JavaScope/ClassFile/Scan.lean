/-
# Scanning class files

A scan walks over a class file once, front to back, and hands every event to a visitor.
It stops at the first defect of the file and at the first event that the visitor refuses.
Method bodies, and all other attributes that are not known for the element they stand on,
are skipped by their length.
-/
import JavaScope.ClassFile.Descriptor
import JavaScope.ClassFile.Pool

namespace JavaScope

/-! ## Visitors -/

/-- Receives the events of a class file one by one.  It keeps a state, also when it refuses
an event. -/
structure Visitor (σ : Type) where
  visit : ClassEvent → σ → Except ClassError Unit × σ

namespace Visitor

variable {σ : Type}

/-- Hands over a list of events until one is refused. -/
def visitAll (v : Visitor σ) : List ClassEvent → σ → Except ClassError Unit × σ
  | [], s => (.ok (), s)
  | e :: rest, s =>
    match v.visit e s with
    | (.ok (), s) => v.visitAll rest s
    | (.error x, s) => (.error x, s)

/-- Keeps all events, in order, the latest first. -/
def log : Visitor (List ClassEvent) where
  visit e events := (.ok (), e :: events)

end Visitor

/-! ## Scans -/

/-- Moves a cursor and the state of a visitor. -/
def Scan (σ α : Type) : Type := Cursor → σ → Except ClassError (α × Cursor) × σ

namespace Scan

variable {σ α : Type}

instance : Monad (Scan σ) where
  pure a := fun c s => (.ok (a, c), s)
  bind x f := fun c s =>
    match x c s with
    | (.ok (a, c), s) => f a c s
    | (.error e, s) => (.error e, s)

/-- A read as a scan without events. -/
def read (x : Read α) : Scan σ α := fun c s => (x c, s)

/-- Hands an event to the visitor. -/
def emit (v : Visitor σ) (e : ClassEvent) : Scan σ Unit := fun c s =>
  match v.visit e s with
  | (.ok (), s) => (.ok ((), c), s)
  | (.error x, s) => (.error x, s)

/-- Does the same thing `n` times. -/
def times : Nat → Scan σ Unit → Scan σ Unit
  | 0, _ => pure ()
  | n + 1, x => do
    x
    times n x

/-- Runs `body` on the next `n` bytes alone.  The cursor moves past these bytes, however
many of them `body` reads. -/
def within (n : Nat) (body : Scan σ α) : Scan σ α := fun c s =>
  match Read.bytes n c with
  | .ok (slice, after) =>
    match body ⟨c.offset, slice⟩ s with
    | (.ok (a, _), s) => (.ok (a, after), s)
    | (.error e, s) => (.error e, s)
  | .error e => (.error e, s)

end Scan

/-! ## Element values -/

/-- The greatest depth of an element value.  An annotation default has depth 0, an element
of an annotation on a declaration depth 1, and each part of a value is one deeper. -/
def maxValueDepth : Nat := 64

/-- The character with this UTF-16 unit; a surrogate stands for no character. -/
def charOfUnit (unit : UInt16) : Char :=
  if unit.toNat.isValidChar then Char.ofNat unit.toNat else Text.Utf16.replacement

/-- The scalar sorts, by the letter that tags them in element values. -/
def Pool.scalar? (p : Pool) (tag : Char) : Option (UInt16 → Except ClassError Scalar) :=
  match tag with
  | 'B' => some fun i => return .byte (← p.integer i).toUInt8.toInt8
  | 'C' => some fun i => return .char (charOfUnit (← p.integer i).toUInt16)
  | 'S' => some fun i => return .short (← p.integer i).toUInt16.toInt16
  | 'Z' => some fun i => return .boolean ((← p.integer i) != 0)
  | 'I' => some fun i => return .int (← p.integer i).toInt32
  | 'J' => some fun i => return .long (← p.long i).toInt64
  | 'F' => some fun i => return .float (← p.float i)
  | 'D' => some fun i => return .double (← p.double i)
  | 's' => some fun i => return .string (← p.utf8 i)
  | _ => none

/-- The start of an element value: all of it, or what its parts follow. -/
inductive ValueHead
  | whole (event : ClassEvent)
  | array (length : UInt16)
  | annotated (descriptor : String)
deriving DecidableEq, Repr, Inhabited

/-- The start of the value of the element `name`. -/
def Pool.readValueHead (p : Pool) (name : Option String) : Read ValueHead := do
  let start ← Read.offset
  let tag ← Read.u8
  match Char.ofNat tag.toNat with
  | 'e' =>
    let descriptor ← p.readUtf8
    let constant ← p.readUtf8
    return .whole (.enumValue name descriptor constant)
  | 'c' => return .whole (.classValue name (← p.readUtf8))
  | '@' => return .annotated (← p.readUtf8)
  | '[' => return .array (← Read.u16)
  | letter =>
    match p.scalar? letter with
    | some look =>
      let index ← Read.u16
      return .whole (.scalar name (← Read.ofExcept (look index)))
    | none => Read.fail (.malformed start (.unknownValueTag tag))

namespace Scan

variable {σ : Type} (v : Visitor σ) (p : Pool)

/-- The elements of an annotation: their number, and for each its name and its value. -/
def elements (value : Option String → Scan σ Unit) : Scan σ Unit := do
  let count ← read Read.u16
  times count.toNat do
    let name ← read p.readUtf8
    value (some name)

/-- An element value with at most `budget` levels. -/
def elementValue : Nat → Option String → Scan σ Unit
  | 0, _ => read do Read.fail (.malformed (← Read.offset) .nestedTooDeeply)
  | budget + 1, name => do
    match ← read (p.readValueHead name) with
    | .whole event => emit v event
    | .array length =>
      emit v (.arrayStart name)
      times length.toNat (elementValue budget none)
      emit v .valueEnd
    | .annotated descriptor =>
      emit v (.nestedAnnotationStart name descriptor)
      elements p (fun name => elementValue budget name)
      emit v .valueEnd

/-- The annotations on a declaration. -/
def annotations (isVisible : Bool) : Scan σ Unit := do
  let count ← read Read.u16
  times count.toNat do
    let descriptor ← read p.readUtf8
    emit v (.annotationStart descriptor isVisible)
    elements p (elementValue v p maxValueDepth)
    emit v .valueEnd

end Scan

/-! ## Attributes -/

/-- The elements of a class file that have attributes. -/
inductive Element
  | ofClass
  /-- A field, with its descriptor. -/
  | ofField (descriptor : String)
  | ofMethod
deriving DecidableEq, Repr, Inhabited

/-- The attributes that say something about a class stub. -/
inductive Attribute
  /-- The constant of a field, with the descriptor of the field. -/
  | constantValue (descriptor : String)
  | signature
  | exceptions
  | annotationDefault
  | innerClasses
  | annotations (isVisible : Bool)
deriving DecidableEq, Repr, Inhabited

/-- What an attribute of this name says about an element; nothing if it is not known for
elements of this sort. -/
def Element.attribute? : Element → String → Option Attribute
  | _, "Signature" => some .signature
  | _, "RuntimeVisibleAnnotations" => some (.annotations true)
  | _, "RuntimeInvisibleAnnotations" => some (.annotations false)
  | .ofField descriptor, "ConstantValue" => some (.constantValue descriptor)
  | .ofMethod, "Exceptions" => some .exceptions
  | .ofMethod, "AnnotationDefault" => some .annotationDefault
  | .ofClass, "InnerClasses" => some .innerClasses
  | _, _ => none

/-- The constant of a field with this descriptor, from the pool; none if fields of its type
have no constants. -/
def Pool.fieldConstant (p : Pool) (descriptor : String) (index : UInt16) :
    Except ClassError (Option Scalar) :=
  match descriptor.toList with
  | [letter] =>
    match (Descriptor.primitive? letter).bind fun _ => p.scalar? letter with
    | some look => return some (← look index)
    | none => return none
  | _ =>
    if descriptor = "Ljava/lang/String;" then return some (.string (← p.string index))
    else return none

/-- An entry of the table of inner classes. -/
def Pool.readInnerClass (p : Pool) : Read ClassEvent := do
  let inner ← p.readClassName
  let outer ← p.readClassName?
  let simpleName ← p.readUtf8?
  let access ← Read.u16
  return .innerClass inner outer simpleName access

namespace Scan

variable {σ : Type} (v : Visitor σ) (p : Pool)

/-- The contents of an attribute. -/
def attributeBody : Attribute → Scan σ Unit
  | .constantValue descriptor => do
    let index ← read Read.u16
    match ← read (Read.ofExcept (p.fieldConstant descriptor index)) with
    | some value => emit v (.fieldConstant value)
    | none => pure ()
  | .signature => do
    emit v (.signature (← read p.readUtf8))
  | .exceptions => do
    let count ← read Read.u16
    emit v (.exceptions (← read (Read.times count.toNat p.readClassName)))
  | .annotationDefault => do
    emit v .annotationDefault
    elementValue v p (maxValueDepth + 1) none
    emit v .valueEnd
  | .innerClasses => do
    let count ← read Read.u16
    times count.toNat do
      emit v (← read p.readInnerClass)
  | .annotations isVisible => annotations v p isVisible

/-- An attribute of an element.  A known one must be used up by its contents. -/
def attributeEntry (element : Element) : Scan σ Unit := do
  let name ← read p.readUtf8
  let length ← read Read.u32
  within length.toNat
    (match element.attribute? name with
      | some a => do
        attributeBody v p a
        read (Read.expectEnd name)
      | none => pure ())

/-- The attributes of an element. -/
def attributes (element : Element) : Scan σ Unit := do
  let count ← read Read.u16
  times count.toNat (attributeEntry v p element)

/-! ## Members and classes -/

/-- A field. -/
def field : Scan σ Unit := do
  let access ← read Read.u16
  let name ← read p.readUtf8
  let descriptor ← read p.readUtf8
  emit v (.fieldStart access name descriptor)
  attributes v p (.ofField descriptor)
  emit v .fieldEnd

/-- A method. -/
def method : Scan σ Unit := do
  let access ← read Read.u16
  let name ← read p.readUtf8
  let descriptor ← read p.readUtf8
  emit v (.methodStart access name descriptor)
  attributes v p .ofMethod
  emit v .methodEnd

/-- What follows the constant pool. -/
def classBody (version : ClassVersion) : Scan σ Unit := do
  let access ← read Read.u16
  let name ← read p.readClassName
  let superName ← read p.readClassName?
  let interfaceCount ← read Read.u16
  let interfaces ← read (Read.times interfaceCount.toNat p.readClassName)
  emit v (.classStart version access name superName interfaces)
  let fieldCount ← read Read.u16
  times fieldCount.toNat (field v p)
  let methodCount ← read Read.u16
  times methodCount.toNat (method v p)
  attributes v p .ofClass
  read (Read.expectEnd "class attributes")
  emit v .classEnd

end Scan

/-- The word at the start of every class file. -/
def classFileMagic : UInt32 := 0xCAFEBABE

/-- The magic word and the version at the start of a class file. -/
def Read.classVersion : Read ClassVersion := do
  let magic ← Read.u32
  if magic = classFileMagic then
    let minor ← Read.u16
    let major ← Read.u16
    if major < ClassVersion.oldestMajor then Read.fail (.unsupportedVersion ⟨major, minor⟩)
    else return ⟨major, minor⟩
  else Read.fail (.badMagic magic)

/-- A whole class file. -/
def Scan.classFile {σ : Type} (v : Visitor σ) : Scan σ Unit := do
  let version ← Scan.read Read.classVersion
  let p ← Scan.read Pool.read
  Scan.classBody v p version

/-- Scans the bytes of a class file: the result of the scan and the last state of the
visitor. -/
def scanClass {σ : Type} (v : Visitor σ) (bytes : List UInt8) (s : σ) :
    Except ClassError Unit × σ :=
  let (result, s) := Scan.classFile v (Cursor.start bytes) s
  (result.map fun _ => (), s)

/-- The events of a class file up to its end or its first defect. -/
def classEvents (bytes : List UInt8) : Except ClassError Unit × List ClassEvent :=
  let (result, events) := scanClass Visitor.log bytes []
  (result, events.reverse)

end JavaScope
