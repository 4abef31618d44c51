/-
# Symbols

A symbol is an entity that a simple name can stand for: a type, a variable or a method.  It
looks the same whether it was declared in analysed source or comes from a class file; only
its origin tells, and the origin is its identity.
-/
import JavaScope.Ident
import JavaScope.Modifiers
import JavaScope.Name
import JavaScope.Value.Basic

namespace JavaScope

/-- Where a symbol was declared. -/
inductive Origin
  /-- Declared in analysed source. -/
  | source (declaration : DefId)
  /-- Read from a class file: the binary name of the owning class, the member's name and
  its descriptor.  A type owns itself. -/
  | stub (owner name descriptor : String)
  /-- Named by an import, but absent from the classpath. -/
  | unresolved (name : String)
deriving DecidableEq, Repr, Inhabited

namespace Origin

/-- Declared in analysed source. -/
def isSource : Origin → Bool
  | source _ => true
  | _ => false

/-- Read from a class file. -/
def isStub : Origin → Bool
  | stub .. => true
  | _ => false

end Origin

/-! ## Types -/

/-- The kinds of types. -/
inductive TypeKind
  | normalClass
  | interface
  | enum
  | annotationType
  | record
  | typeParameter
  | unresolved
deriving DecidableEq, Repr, Inhabited

namespace TypeKind

/-- All kinds of types. -/
def all : List TypeKind :=
  [normalClass, interface, enum, annotationType, record, typeParameter, unresolved]

/-- The name of a kind in traces. -/
def label : TypeKind → String
  | normalClass => "Class"
  | interface => "Interface"
  | enum => "Enum"
  | annotationType => "Annotation"
  | record => "Record"
  | typeParameter => "TypeParameter"
  | unresolved => "Unresolved"

/-- The kind of a class file with these access flags and this superclass (an internal
name).  Annotation types carry the interface flag too, so they are told first. -/
def ofAccess (flags : Access) (superName : Option String) : TypeKind :=
  if Access.isAnnotationType flags then annotationType
  else if Access.isInterface flags then interface
  else if Access.isEnum flags then enum
  else if superName = some "java/lang/Record" then record
  else normalClass

/-- Subtypes inherit the static methods of a type of this kind: not those of interfaces. -/
def passesOnStaticMethods : TypeKind → Bool
  | interface | annotationType => false
  | _ => true

end TypeKind

/-- A type declaration: a class-like type or a type parameter. -/
structure TypeSymbol where
  name : String
  /-- The binary name; the simple name of a type parameter. -/
  binaryName : String
  kind : TypeKind
  modifiers : Modifiers
  origin : Origin
deriving DecidableEq, Repr, Inhabited

namespace TypeSymbol

/-- A type declared in source. -/
def ofSource (d : DefId) (binaryName : String) (kind : TypeKind) (modifiers : Modifiers) :
    TypeSymbol where
  name := Name.simple binaryName
  binaryName := binaryName
  kind := kind
  modifiers := modifiers
  origin := .source d

/-- Stands for a type that is named but cannot be found. -/
def placeholder (binaryName : String) : TypeSymbol where
  name := Name.simple binaryName
  binaryName := binaryName
  kind := .unresolved
  modifiers := .none
  origin := .unresolved binaryName

/-- The symbol stands for a type that cannot be found. -/
def isUnresolved (t : TypeSymbol) : Bool := t.kind = .unresolved

/-- The type as a reference. -/
def toRef (t : TypeSymbol) : TypeRef := ⟨t.binaryName⟩

/-- The type as shown to a reader. -/
def display (t : TypeSymbol) : String := t.binaryName

end TypeSymbol

/-! ## Variables -/

/-- The kinds of variables. -/
inductive VariableKind
  | field
  | enumConstant
  | localVariable
  | formalParameter
  | catchParameter
  | resource
deriving DecidableEq, Repr, Inhabited

namespace VariableKind

/-- All kinds of variables. -/
def all : List VariableKind :=
  [field, enumConstant, localVariable, formalParameter, catchParameter, resource]

/-- The name of a kind in traces. -/
def label : VariableKind → String
  | field => "Field"
  | enumConstant => "EnumConstant"
  | localVariable => "Local"
  | formalParameter => "FormalParameter"
  | catchParameter => "CatchParameter"
  | resource => "ResourceVariable"

/-- The kind of a field of a class file. -/
def ofAccess (flags : Access) : VariableKind :=
  if Access.isEnum flags then enumConstant else field

/-- A member of a type: a field or an enum constant. -/
def isField : VariableKind → Bool
  | field | enumConstant => true
  | _ => false

end VariableKind

/-- A field, enum constant, local variable or parameter. -/
structure VariableSymbol where
  name : String
  kind : VariableKind
  modifiers : Modifiers
  type : Option TypeRef
  /-- The value of a constant field of a class file. -/
  constant : Option Scalar
  origin : Origin
deriving DecidableEq, Repr, Inhabited

namespace VariableSymbol

/-- A variable declared in source. -/
def ofSource (d : DefId) (name : String) (kind : VariableKind) (modifiers : Modifiers)
    (type : Option TypeRef) : VariableSymbol where
  name := name
  kind := kind
  modifiers := modifiers
  type := type
  constant := none
  origin := .source d

/-- The variable as shown to a reader: its type, if known, and its name. -/
def display (v : VariableSymbol) : String :=
  match v.type with
  | some t => t.binaryName ++ " " ++ v.name
  | none => v.name

end VariableSymbol

/-! ## Methods -/

/-- The kinds of methods. -/
inductive MethodKind
  | method
  | constructor
deriving DecidableEq, Repr, Inhabited

/-- The name of constructors. -/
def constructorName : String := "<init>"

/-- The name of class initializers. -/
def initializerName : String := "<clinit>"

/-- The name of a kind in traces. -/
def MethodKind.label : MethodKind → String
  | method => "Method"
  | constructor => "Constructor"

/-- The kind of a method of this name. -/
def MethodKind.ofName (name : String) : MethodKind :=
  if name = constructorName then .constructor else .method

/-- A method or constructor. -/
structure MethodSymbol where
  name : String
  kind : MethodKind
  modifiers : Modifiers
  parameters : List TypeRef
  /-- Absent for the constructors of class files. -/
  returnType : Option TypeRef
  /-- The binary name of the declaring type. -/
  declaringType : String
  /-- The default value of an annotation element that declares one. -/
  default? : Option Value
  origin : Origin
deriving Inhabited

namespace MethodSymbol

/-- A method declared in source. -/
def ofSource (d : DefId) (name declaringType : String) (modifiers : Modifiers)
    (parameters : List TypeRef) (returnType : Option TypeRef) : MethodSymbol where
  name := name
  kind := .ofName name
  modifiers := modifiers
  parameters := parameters
  returnType := returnType
  declaringType := declaringType
  default? := none
  origin := .source d

/-- The number of parameters. -/
def arity (m : MethodSymbol) : Nat := m.parameters.length

/-- The symbol is a constructor. -/
def isConstructor (m : MethodSymbol) : Bool := m.kind = .constructor

/-- The method as shown to a reader: `java.util.Map#put(java.lang.Object)`. -/
def display (m : MethodSymbol) : String :=
  m.declaringType ++ "#" ++ m.name ++ "("
    ++ ", ".intercalate (m.parameters.map (·.binaryName)) ++ ")"

end MethodSymbol

/-! ## Any symbol -/

/-- A symbol of any of the three sorts. -/
inductive Symbol
  | type (symbol : TypeSymbol)
  | var (symbol : VariableSymbol)
  | method (symbol : MethodSymbol)
deriving Inhabited

namespace Symbol

/-- The name of the symbol. -/
def name : Symbol → String
  | type t => t.name
  | var v => v.name
  | method m => m.name

/-- Where the symbol was declared. -/
def origin : Symbol → Origin
  | type t => t.origin
  | var v => v.origin
  | method m => m.origin

/-- The modifiers of the symbol. -/
def modifiers : Symbol → Modifiers
  | type t => t.modifiers
  | var v => v.modifiers
  | method m => m.modifiers

/-- Two symbols of one sort with one origin are the same declaration. -/
def same : Symbol → Symbol → Bool
  | type a, type b => a.origin = b.origin
  | var a, var b => a.origin = b.origin
  | method a, method b => a.origin = b.origin
  | _, _ => false

/-- The number of different declarations in a list. -/
def countDistinct : List Symbol → Nat
  | [] => 0
  | s :: rest => countDistinct rest + if rest.any s.same then 0 else 1

end Symbol

end JavaScope
