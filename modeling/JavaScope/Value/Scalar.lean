/-
# Scalar constants

A scalar constant is a value of a primitive type or a string.  Floating-point constants are
kept as the bits that the class file stores, so that no information is lost; they are
compared and shown as the numbers these bits stand for.
-/
import JavaScope.Decimal.Shortest
import JavaScope.Text.Escape

namespace JavaScope

/-- A constant of a primitive type, or a string. -/
inductive Scalar
  | boolean (value : Bool)
  | char (value : Char)
  | byte (value : Int8)
  | short (value : Int16)
  | int (value : Int32)
  | long (value : Int64)
  /-- A single-precision number, by its bits. -/
  | float (bits : UInt32)
  /-- A double-precision number, by its bits. -/
  | double (bits : UInt64)
  | string (text : String)
deriving DecidableEq, Repr, Inhabited

namespace Scalar

/-- The name of the constant's type. -/
def typeName : Scalar → String
  | boolean _ => "boolean"
  | char _ => "char"
  | byte _ => "byte"
  | short _ => "short"
  | int _ => "int"
  | long _ => "long"
  | float _ => "float"
  | double _ => "double"
  | string _ => "java.lang.String"

/-- The text of a string constant. -/
def text? : Scalar → Option String
  | string s => some s
  | _ => none

/-- The constant is a floating-point non-number. -/
def isNaN : Scalar → Bool
  | float b => Decimal.binary32.isNaN b.toNat
  | double b => Decimal.binary64.isNaN b.toNat
  | _ => false

/-- Equality of constants.  Floating-point constants compare as numbers: the two zeros are
equal, and a non-number differs from itself. -/
def same : Scalar → Scalar → Bool
  | float a, float b => Decimal.binary32.sameNumber a.toNat b.toNat
  | double a, double b => Decimal.binary64.sameNumber a.toNat b.toNat
  | a, b => a = b

/-- The constant as a literal: quotes around characters and strings, a suffix that tells
`long`, `float` and `double` apart. -/
def display : Scalar → String
  | boolean b => if b then "true" else "false"
  | char c => "'" ++ String.ofList (Text.escapeChar c) ++ "'"
  | byte n => toString n.toInt
  | short n => toString n.toInt
  | int n => toString n.toInt
  | long n => toString n.toInt ++ "L"
  | float b => (Decimal.binary32.decode b.toNat).text ++ "f"
  | double b => (Decimal.binary64.decode b.toNat).text ++ "d"
  | string s => "\"" ++ Text.escape s ++ "\""

end Scalar

end JavaScope
