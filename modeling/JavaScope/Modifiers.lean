/-
# Modifiers

Class files encode modifiers as access flags, whose bits mean different things on classes,
fields and methods.  The analysis uses one record of modifiers for all declarations; this
file decodes access flags into it.
-/

namespace JavaScope

/-- The modifiers of a declaration. -/
structure Modifiers where
  isPublic : Bool := false
  isProtected : Bool := false
  isPrivate : Bool := false
  isStatic : Bool := false
  isFinal : Bool := false
  isAbstract : Bool := false
  isSynchronized : Bool := false
  isVolatile : Bool := false
  isTransient : Bool := false
  isNative : Bool := false
  isStrictfp : Bool := false
  isDefault : Bool := false
  isSynthetic : Bool := false
  isVarargs : Bool := false
  isBridge : Bool := false
deriving DecidableEq, Repr, Inhabited

namespace Modifiers

/-- No modifiers. -/
def none : Modifiers := {}

/-- The modifiers in their fixed order, each with its name. -/
def table (m : Modifiers) : List (String × Bool) :=
  [("PUBLIC", m.isPublic), ("PROTECTED", m.isProtected), ("PRIVATE", m.isPrivate),
   ("STATIC", m.isStatic), ("FINAL", m.isFinal), ("ABSTRACT", m.isAbstract),
   ("SYNCHRONIZED", m.isSynchronized), ("VOLATILE", m.isVolatile),
   ("TRANSIENT", m.isTransient), ("NATIVE", m.isNative), ("STRICTFP", m.isStrictfp),
   ("DEFAULT", m.isDefault), ("SYNTHETIC", m.isSynthetic), ("VARARGS", m.isVarargs),
   ("BRIDGE", m.isBridge)]

/-- The names of the modifiers that are set, in order. -/
def names (m : Modifiers) : List String :=
  (m.table.filter (·.2)).map (·.1)

/-- The modifiers as a number: bit `i` for the modifier at place `i`. -/
def bits (m : Modifiers) : Nat :=
  m.table.foldr (fun (_, isSet) n => 2 * n + isSet.toNat) 0

/-- The modifiers whose names are listed. -/
def ofNames (names : List String) : Modifiers where
  isPublic := names.contains "PUBLIC"
  isProtected := names.contains "PROTECTED"
  isPrivate := names.contains "PRIVATE"
  isStatic := names.contains "STATIC"
  isFinal := names.contains "FINAL"
  isAbstract := names.contains "ABSTRACT"
  isSynchronized := names.contains "SYNCHRONIZED"
  isVolatile := names.contains "VOLATILE"
  isTransient := names.contains "TRANSIENT"
  isNative := names.contains "NATIVE"
  isStrictfp := names.contains "STRICTFP"
  isDefault := names.contains "DEFAULT"
  isSynthetic := names.contains "SYNTHETIC"
  isVarargs := names.contains "VARARGS"
  isBridge := names.contains "BRIDGE"

end Modifiers

/-! ## Access flags -/

/-- The access flags of a class, field or method as a class file stores them. -/
abbrev Access := UInt16

namespace Access

/-- Whether any of the bits of `mask` is set. -/
def has (flags : Access) (mask : UInt16) : Bool := flags &&& mask != 0

/-- The type is an interface; annotation types are interfaces too. -/
def isInterface (flags : Access) : Bool := has flags 0x0200

/-- The type is an annotation type. -/
def isAnnotationType (flags : Access) : Bool := has flags 0x2000

/-- The type is an enum, or the field one of its constants. -/
def isEnum (flags : Access) : Bool := has flags 0x4000

/-- The modifiers whose bits mean the same on classes, fields and methods. -/
def commonModifiers (flags : Access) : Modifiers where
  isPublic := has flags 0x0001
  isPrivate := has flags 0x0002
  isProtected := has flags 0x0004
  isStatic := has flags 0x0008
  isFinal := has flags 0x0010
  isSynthetic := has flags 0x1000

/-- The modifiers of a class.  An interface counts as abstract only if its flag says so. -/
def classModifiers (flags : Access) : Modifiers :=
  { commonModifiers flags with isAbstract := has flags 0x0400 }

/-- The modifiers of a field. -/
def fieldModifiers (flags : Access) : Modifiers :=
  { commonModifiers flags with
    isVolatile := has flags 0x0040
    isTransient := has flags 0x0080 }

/-- The modifiers of a method.  The bits of `volatile` and `transient` fields mark bridges
and methods of variable arity here. -/
def methodModifiers (flags : Access) : Modifiers :=
  { commonModifiers flags with
    isSynchronized := has flags 0x0020
    isBridge := has flags 0x0040
    isVarargs := has flags 0x0080
    isNative := has flags 0x0100
    isAbstract := has flags 0x0400
    isStrictfp := has flags 0x0800 }

end Access

end JavaScope
