/-
# The layout of class files

What it means that bytes lay out a class: every part of its description stands in its place,
by value or by reference to a constant pool.  The pool may have its entries in any order,
may share them or not, and may have others.
-/
import JavaScope.Proofs.ClassFile.Attributes
import JavaScope.Proofs.ClassFile.PoolLayout

namespace JavaScope

open PoolEntry (At TextRef ClassRef OptionalRef PoolLaid)

/-! ## Constants -/

/-- The form in which the pool holds a constant of a primitive type.  The smaller integer
types are stored as integers. -/
inductive Scalar.StoredAs : Scalar → PoolEntry → Prop
  | boolean (b : Bool) : StoredAs (.boolean b) (.integer (if b then 1 else 0))
  | char (c : Char) : c.toNat < 65536 → StoredAs (.char c) (.integer (.ofNat c.toNat))
  | byte (n : Int8) : StoredAs (.byte n) (.integer n.toInt32.toUInt32)
  | short (n : Int16) : StoredAs (.short n) (.integer n.toInt32.toUInt32)
  | int (n : Int32) : StoredAs (.int n) (.integer n.toUInt32)
  | long (n : Int64) : StoredAs (.long n) (.long n.toUInt64)
  | float (bits : UInt32) : StoredAs (.float bits) (.float bits)
  | double (bits : UInt64) : StoredAs (.double bits) (.double bits)

/-- The letter that tags a constant in element values. -/
def Scalar.tag : Scalar → UInt8
  | boolean _ => 90
  | char _ => 67
  | byte _ => 66
  | short _ => 83
  | int _ => 73
  | long _ => 74
  | float _ => 70
  | double _ => 68
  | string _ => 115

/-- The bytes refer to a constant of a primitive type. -/
def NumberRef (es : List PoolEntry) (s : Scalar) (bytes : List UInt8) : Prop :=
  ∃ i e, s.StoredAs e ∧ At es i e ∧ bytes = be16 i

/-- The bytes refer to the constant of a field.  A text has an entry of its own above its
characters. -/
def ConstantRef (es : List PoolEntry) (s : Scalar) (bytes : List UInt8) : Prop :=
  NumberRef es s bytes ∨
    ∃ text i j, s = .string text ∧ At es i (.string j) ∧ At es j (.utf8 text) ∧ bytes = be16 i

/-- The bytes refer to a constant in an element value. -/
def ScalarRef (es : List PoolEntry) (s : Scalar) (bytes : List UInt8) : Prop :=
  NumberRef es s bytes ∨ ∃ text, s = .string text ∧ TextRef es text bytes

/-! ## Element values and annotations -/

namespace ElementValue

mutual

/-- The bytes lay out a value: a tag and what it asks for. -/
inductive Laid (es : List PoolEntry) : ElementValue → List UInt8 → Prop
  | scalar {s : Scalar} {ref : List UInt8} : ScalarRef es s ref → Laid es (scalar s) (s.tag :: ref)
  | enumConstant {t : FieldType} {name : String} {typeRef nameRef : List UInt8} :
      TextRef es t.descriptor typeRef → TextRef es name nameRef →
      Laid es (enumConstant t name) (101 :: (typeRef ++ nameRef))
  | classLiteral {t : ResultType} {typeRef : List UInt8} :
      TextRef es t.descriptor typeRef → Laid es (classLiteral t) (99 :: typeRef)
  | array {items : List ElementValue} {bytes : List UInt8} :
      items.length < 65536 → ItemsLaid es items bytes →
      Laid es (array items) (91 :: (be16 (.ofNat items.length) ++ bytes))
  | annotated {t : FieldType} {elements : List (String × ElementValue)}
      {typeRef bytes : List UInt8} :
      TextRef es t.descriptor typeRef → elements.length < 65536 →
      ElementsLaid es elements bytes →
      Laid es (annotated t elements)
        (64 :: (typeRef ++ (be16 (.ofNat elements.length) ++ bytes)))

/-- The bytes lay out the items of an array. -/
inductive ItemsLaid (es : List PoolEntry) : List ElementValue → List UInt8 → Prop
  | nil : ItemsLaid es [] []
  | cons {v : ElementValue} {vs : List ElementValue} {bytes rest : List UInt8} :
      Laid es v bytes → ItemsLaid es vs rest → ItemsLaid es (v :: vs) (bytes ++ rest)

/-- The bytes lay out the elements of an annotation: names and values. -/
inductive ElementsLaid (es : List PoolEntry) : List (String × ElementValue) → List UInt8 → Prop
  | nil : ElementsLaid es [] []
  | cons {name : String} {v : ElementValue} {elements : List (String × ElementValue)}
      {nameRef bytes rest : List UInt8} :
      TextRef es name nameRef → Laid es v bytes → ElementsLaid es elements rest →
      ElementsLaid es ((name, v) :: elements) (nameRef ++ (bytes ++ rest))

end

end ElementValue

/-- The bytes lay out an annotation. -/
def AnnotationDescription.Laid (es : List PoolEntry) (a : AnnotationDescription)
    (bytes : List UInt8) : Prop :=
  ∃ typeRef elements, TextRef es a.type.descriptor typeRef ∧ a.elements.length < 65536 ∧
    ElementValue.ElementsLaid es a.elements elements ∧
    bytes = typeRef ++ (be16 (.ofNat a.elements.length) ++ elements)

/-! ## Attributes and members -/

/-- The bytes lay out an entry of the table of inner classes. -/
def InnerClassDescription.Laid (es : List PoolEntry) (e : InnerClassDescription)
    (bytes : List UInt8) : Prop :=
  ∃ inner outer simpleName, ClassRef es e.inner inner ∧ OptionalRef (ClassRef es) e.outer outer ∧
    OptionalRef (TextRef es) e.simpleName simpleName ∧
    bytes = inner ++ (outer ++ (simpleName ++ be16 e.access))

namespace AttributeContent

/-- The bytes lay out what an attribute says. -/
def BodyLaid (es : List PoolEntry) : AttributeContent → List UInt8 → Prop
  | constantValue s, bytes => ConstantRef es s bytes
  | signature text, bytes => TextRef es text bytes
  | exceptions names, bytes => Counted (ClassRef es) names bytes
  | annotationDefault v, bytes => v.Laid es bytes
  | innerClasses entries, bytes => Counted (InnerClassDescription.Laid es) entries bytes
  | annotations _ uses, bytes => Counted (AnnotationDescription.Laid es) uses bytes
  | other _ body, bytes => bytes = body

/-- The bytes lay out an attribute: its name, its length, and what it says. -/
def Laid (es : List PoolEntry) (a : AttributeContent) (bytes : List UInt8) : Prop :=
  ∃ nameRef body, TextRef es a.name nameRef ∧ a.BodyLaid es body ∧ body.length < 4294967296 ∧
    bytes = nameRef ++ (be32 (.ofNat body.length) ++ body)

end AttributeContent

/-- The bytes lay out a field or method with these attributes. -/
def MemberLaid (es : List PoolEntry) (access : Access) (name descriptor : String)
    (table : List AttributeContent) (bytes : List UInt8) : Prop :=
  ∃ nameRef typeRef attributes, TextRef es name nameRef ∧ TextRef es descriptor typeRef ∧
    Counted (AttributeContent.Laid es) table attributes ∧
    bytes = be16 access ++ (nameRef ++ (typeRef ++ attributes))

/-- The bytes lay out a field. -/
def FieldDescription.Laid (es : List PoolEntry) (f : FieldDescription) (bytes : List UInt8) :
    Prop :=
  ∃ table, f.SpreadOver table ∧ MemberLaid es f.access f.name f.type.descriptor table bytes

/-- The bytes lay out a method. -/
def MethodDescription.Laid (es : List PoolEntry) (m : MethodDescription) (bytes : List UInt8) :
    Prop :=
  ∃ table, m.SpreadOver table ∧ MemberLaid es m.access m.name m.type.descriptor table bytes

/-! ## Class files -/

/-- The bytes lay out what follows the constant pool. -/
def ClassDescription.BodyLaid (es : List PoolEntry) (d : ClassDescription)
    (bytes : List UInt8) : Prop :=
  ∃ table self super interfaces fields methods attributes,
    d.SpreadOver table ∧ ClassRef es d.name self ∧
    OptionalRef (ClassRef es) d.superName super ∧ Counted (ClassRef es) d.interfaces interfaces ∧
    Counted (FieldDescription.Laid es) d.fields fields ∧
    Counted (MethodDescription.Laid es) d.methods methods ∧
    Counted (AttributeContent.Laid es) table attributes ∧
    bytes = be16 d.access ++ (self ++ (super ++ (interfaces ++ (fields ++ (methods ++
      attributes)))))

/-- The bytes are a class file that lays out the class: the magic word, the version, a
constant pool, and everything else by reference to the pool. -/
def ClassDescription.Laid (d : ClassDescription) (bytes : List UInt8) : Prop :=
  ∃ es pool body, PoolLaid es pool ∧ d.BodyLaid es body ∧
    bytes = be32 0xCAFEBABE ++ (be16 d.version.minor ++ (be16 d.version.major ++
      (pool ++ body)))

end JavaScope
