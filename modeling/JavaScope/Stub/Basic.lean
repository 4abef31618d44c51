/-
# Class stubs

A class stub holds the declarations of one class file, without code: everything that an
analysis of the callers of a class needs to know about it.  The symbols of a class and of
its members are functions of the stub.
-/
import JavaScope.ClassFile.Event
import JavaScope.Symbol

namespace JavaScope

/-- An annotation on a class, field or method. -/
structure AnnotationUse where
  value : Annotation
  /-- The annotation is kept at run time. -/
  isVisible : Bool
deriving Inhabited

/-- A member class, as its owner lists it. -/
structure MemberType where
  binaryName : String
  simpleName : String
  access : Access
deriving DecidableEq, Repr, Inhabited

/-- A field of a class file. -/
structure FieldStub where
  access : Access
  name : String
  descriptor : String
  type : TypeRef
  signature : Option String := none
  constant : Option Scalar := none
  annotations : List AnnotationUse := []
deriving Inhabited

/-- A method or constructor of a class file. -/
structure MethodStub where
  access : Access
  name : String
  descriptor : String
  parameters : List TypeRef
  returnType : TypeRef
  signature : Option String := none
  /-- The binary names of the declared exceptions. -/
  exceptions : List String := []
  annotations : List AnnotationUse := []
  /-- The default value of an annotation element. -/
  default? : Option Value := none
deriving Inhabited

/-- The declarations of a class file. -/
structure ClassStub where
  internalName : String
  version : ClassVersion
  access : Access
  kind : TypeKind
  signature : Option String
  /-- The binary name of the superclass. -/
  superName : Option String
  /-- The binary names of the direct superinterfaces. -/
  interfaces : List String
  /-- The binary name of the enclosing class of a member class. -/
  enclosing : Option String
  simpleName : String
  /-- The modifiers; a member class has those that its owner's source gives it. -/
  modifiers : Modifiers
  annotations : List AnnotationUse
  memberTypes : List MemberType
  fields : List FieldStub
  methods : List MethodStub
deriving Inhabited

/-- Private and synthetic members are hidden from subclasses. -/
def Modifiers.isHidden (m : Modifiers) : Bool := m.isPrivate || m.isSynthetic

namespace FieldStub

/-- The modifiers of the field. -/
def modifiers (f : FieldStub) : Modifiers := Access.fieldModifiers f.access

/-- The symbol of a field of the class with this binary name. -/
def symbol (owner : String) (f : FieldStub) : VariableSymbol where
  name := f.name
  kind := .ofAccess f.access
  modifiers := f.modifiers
  type := some f.type
  constant := f.constant
  origin := .stub owner f.name f.descriptor

end FieldStub

namespace MethodStub

/-- The modifiers of the method. -/
def modifiers (m : MethodStub) : Modifiers := Access.methodModifiers m.access

/-- The method is a constructor. -/
def isConstructor (m : MethodStub) : Bool := m.name = constructorName

/-- The method is a constructor or a class initializer. -/
def isInitializer (m : MethodStub) : Bool :=
  m.name = constructorName || m.name = initializerName

/-- The symbol of a method of the class with this binary name. -/
def symbol (owner : String) (m : MethodStub) : MethodSymbol where
  name := m.name
  kind := .ofName m.name
  modifiers := m.modifiers
  parameters := m.parameters
  returnType := if m.isConstructor then none else some m.returnType
  declaringType := owner
  default? := m.default?
  origin := .stub owner m.name m.descriptor

end MethodStub

namespace ClassStub

/-- The binary name of the class. -/
def binaryName (c : ClassStub) : String := Name.toBinary c.internalName

/-- The symbol of the class. -/
def symbol (c : ClassStub) : TypeSymbol where
  name := c.simpleName
  binaryName := c.binaryName
  kind := c.kind
  modifiers := c.modifiers
  origin := .stub c.binaryName (Name.simple c.binaryName) ("L" ++ c.internalName ++ ";")

/-- The superclass and then the interfaces, by binary name. -/
def supertypes (c : ClassStub) : List String := c.superName.toList ++ c.interfaces

/-- The first field of this name. -/
def field? (c : ClassStub) (name : String) : Option FieldStub :=
  c.fields.find? (·.name = name)

/-- The methods of this name. -/
def methodsNamed (c : ClassStub) (name : String) : List MethodStub :=
  c.methods.filter (·.name = name)

/-- The first member class of this simple name. -/
def memberType? (c : ClassStub) (simpleName : String) : Option MemberType :=
  c.memberTypes.find? (·.simpleName = simpleName)

/-! ## What subclasses inherit -/

/-- The fields that a subclass can inherit: all but private and synthetic ones. -/
def inheritableFields (c : ClassStub) : List FieldStub :=
  c.fields.filter fun f => !f.modifiers.isHidden

/-- The methods that a subclass can inherit: no initializers, bridges, private or synthetic
methods. -/
def inheritableMethods (c : ClassStub) : List MethodStub :=
  c.methods.filter fun m =>
    !m.isInitializer && !m.modifiers.isHidden && !m.modifiers.isBridge

/-- The member classes that a subclass sees by their simple names. -/
def inheritableMemberTypes (c : ClassStub) : List MemberType :=
  c.memberTypes.filter fun t => !(Access.classModifiers t.access).isHidden

/-- The symbols of the inheritable fields. -/
def fieldSymbols (c : ClassStub) : List VariableSymbol :=
  c.inheritableFields.map (·.symbol c.binaryName)

/-- The symbols of the inheritable methods. -/
def methodSymbols (c : ClassStub) : List MethodSymbol :=
  c.inheritableMethods.map (·.symbol c.binaryName)

end ClassStub

end JavaScope
