/-
# Errors of class files

Why a class has no stub: its bytes cannot be obtained, or they are no class file, or they
are one that declares another class.  A last sort of error, the inconsistency, is for
events in an order that no class file gives rise to.
-/
import JavaScope.ClassFile.Event
import JavaScope.Text.Escape

namespace JavaScope

/-- What the index of a pool entry should have led to. -/
inductive PoolExpectation
  | usableEntry
  | utf8
  | classEntry
  | integer
  | long
  | float
  | double
  | string
deriving DecidableEq, Repr, Inhabited

/-- The expectation in words. -/
def PoolExpectation.message : PoolExpectation → String
  | usableEntry => "a usable entry"
  | utf8 => "a Utf8 constant"
  | classEntry => "a Class constant"
  | integer => "an Integer constant"
  | long => "a Long constant"
  | float => "a Float constant"
  | double => "a Double constant"
  | string => "a String constant"

/-- What is wrong with the bytes of a class file. -/
inductive Defect
  | endOfInput (needed left : Nat)
  | trailingBytes (count : Nat) (after : String)
  | emptyPool
  | badText
  | unknownConstantTag (tag : UInt8)
  | wideInLastSlot
  | badPoolIndex (index : UInt16) (expected : PoolExpectation)
  | nestedTooDeeply
  | unknownValueTag (tag : UInt8)
  | duplicateElement (name : String)
  | repeatedConstant (field : String)
  | repeatedDefault (method : String)
deriving DecidableEq, Repr, Inhabited

/-- The defect in words. -/
def Defect.message : Defect → String
  | endOfInput needed left => s!"unexpected end of input: need {needed} bytes, {left} left"
  | trailingBytes count after => s!"{count} trailing bytes after {after}"
  | emptyPool => "constant pool count is zero"
  | badText => "invalid modified UTF-8 in constant"
  | unknownConstantTag tag => s!"unknown constant pool tag {tag.toNat}"
  | wideInLastSlot => "wide constant in last pool slot"
  | badPoolIndex index expected =>
    s!"constant pool index {index.toNat} is not {expected.message}"
  | nestedTooDeeply => "annotation value nested too deeply"
  | unknownValueTag tag => s!"unknown element value tag {Text.quoteByte tag}"
  | duplicateElement name => s!"duplicate annotation element `{name}`"
  | repeatedConstant field => s!"field `{field}` has more than one ConstantValue"
  | repeatedDefault method => s!"method `{method}` has more than one AnnotationDefault"

/-- Where in a sequence of events an event was not expected. -/
inductive EventContext
  | beforeClass
  | inClass
  | inField
  | inMethod
  | afterClass
deriving DecidableEq, Repr, Inhabited

/-- The context in words. -/
def EventContext.message : EventContext → String
  | beforeClass => "before ClassStart"
  | inClass => "in class"
  | inField => "in field"
  | inMethod => "in method"
  | afterClass => "after ClassEnd"

/-- How a sequence of events breaks its grammar. -/
inductive Violation
  | unexpected (event : String) (context : EventContext)
  | notAValue (event : String)
  | afterValue (event : String)
  | secondDefault
  | namedInArray (name : String)
  | unnamedElement
  | unterminated (count : Nat)
  | noValue
  | noStub
deriving DecidableEq, Repr, Inhabited

/-- The violation in words. -/
def Violation.message : Violation → String
  | unexpected event context => s!"unexpected {event} {context.message}"
  | notAValue event => s!"{event} inside an annotation value"
  | afterValue event => s!"{event} after the value was complete"
  | secondDefault => "more than one value for an annotation default"
  | namedInArray name => s!"named element `{name}` inside an array"
  | unnamedElement => "unnamed element inside an annotation"
  | unterminated count => s!"value finished with {count} unterminated compound values"
  | noValue => "value finished with no content"
  | noStub => "class stub requested before ClassEnd"

/-- Why the bytes of a class cannot be obtained. -/
structure ReadError where
  path : String
  reason : String
deriving DecidableEq, Repr, Inhabited

/-- The error as shown to a reader. -/
def ReadError.message (e : ReadError) : String := s!"cannot read {e.path}: {e.reason}"

/-- Why there is no stub of a class. -/
inductive ClassError
  | malformed (offset : Nat) (defect : Defect)
  | badMagic (word : UInt32)
  | unsupportedVersion (version : ClassVersion)
  | badDescriptor (text : String)
  | nameMismatch (expected found : String)
  | inconsistent (violation : Violation)
  | unreadable (error : ReadError)
deriving DecidableEq, Repr, Inhabited

namespace ClassError

/-- The error as shown to a reader. -/
def message : ClassError → String
  | malformed offset defect =>
    s!"malformed class file at offset {offset}: {defect.message}"
  | badMagic word => s!"not a class file (magic 0x{Text.hex 8 word.toNat})"
  | unsupportedVersion version =>
    s!"unsupported class file version {version.major.toNat}.{version.minor.toNat}"
  | badDescriptor text => s!"invalid descriptor `{text}`"
  | nameMismatch expected found =>
    s!"class file declares `{found}` but was requested as `{expected}`"
  | inconsistent violation => s!"internal consistency violation: {violation.message}"
  | unreadable error => error.message

/-- The error is not about the input. -/
def isInternal : ClassError → Bool
  | inconsistent _ => true
  | _ => false

end ClassError

end JavaScope
