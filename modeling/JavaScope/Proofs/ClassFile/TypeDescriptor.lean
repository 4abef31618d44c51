/-
# Types and their descriptors

The types that descriptors write, as data: primitive types, classes by internal name,
arrays, and method types.  Each type has a descriptor and a type reference, and reading the
descriptor gives the reference (`field?_descriptor`).

For method types the reader makes one exception, which `method?_descriptor` states: it
refuses a parameter whose type is the class called `void`, although that is a class name
like any other.
-/
import Mathlib.Tactic.Lemma
import JavaScope.ClassFile.Descriptor

namespace JavaScope

/-! ## Types -/

/-- The primitive types. -/
inductive Primitive
  | boolean
  | byte
  | char
  | short
  | int
  | long
  | float
  | double
deriving DecidableEq, Repr

namespace Primitive

/-- The letter of a primitive type in descriptors. -/
def letter : Primitive → Char
  | boolean => 'Z'
  | byte => 'B'
  | char => 'C'
  | short => 'S'
  | int => 'I'
  | long => 'J'
  | float => 'F'
  | double => 'D'

/-- The keyword of a primitive type. -/
def keyword : Primitive → String
  | boolean => "boolean"
  | byte => "byte"
  | char => "char"
  | short => "short"
  | int => "int"
  | long => "long"
  | float => "float"
  | double => "double"

end Primitive

/-- The internal name of a class, of the form that descriptors can hold. -/
structure ClassName where
  text : String
  ne_nil : text.toList ≠ []
  no_semicolon : ';' ∉ text.toList
deriving DecidableEq

/-- A type that is no array. -/
inductive ElementType
  | primitive (type : Primitive)
  | named (name : ClassName)
deriving DecidableEq

/-- A type of fields and parameters. -/
structure FieldType where
  element : ElementType
  dimensions : Nat := 0
deriving DecidableEq

/-- What a method can return. -/
inductive ResultType
  | void
  | value (type : FieldType)
deriving DecidableEq

/-- The type of a method. -/
structure MethodType where
  parameters : List FieldType
  result : ResultType
deriving DecidableEq

/-! ## Descriptors and references -/

/-- The characters of an element type in descriptors. -/
def ElementType.chars : ElementType → List Char
  | primitive p => [p.letter]
  | named n => 'L' :: (n.text.toList ++ [';'])

/-- The binary name of an element type. -/
def ElementType.binaryName : ElementType → String
  | primitive p => p.keyword
  | named n => Name.toBinary n.text

/-- The characters of a field type in descriptors. -/
def FieldType.chars (t : FieldType) : List Char :=
  List.replicate t.dimensions '[' ++ t.element.chars

/-- The descriptor of a field type. -/
def FieldType.descriptor (t : FieldType) : String := String.ofList t.chars

/-- The reference to a field type. -/
def FieldType.ref (t : FieldType) : TypeRef := TypeRef.array ⟨t.element.binaryName⟩ t.dimensions

/-- The type is the class called `void`. -/
def FieldType.isClassVoid : FieldType → Bool
  | ⟨.named n, 0⟩ => n.text = "void"
  | _ => false

namespace ResultType

/-- The characters of a result type in descriptors. -/
def chars : ResultType → List Char
  | void => ['V']
  | value t => t.chars

/-- The descriptor of a result type. -/
def descriptor (t : ResultType) : String := String.ofList t.chars

/-- The reference to a result type. -/
def ref : ResultType → TypeRef
  | void => Descriptor.void
  | value t => t.ref

end ResultType

namespace MethodType

/-- The descriptor of a method type. -/
def descriptor (m : MethodType) : String :=
  String.ofList ('(' :: (m.parameters.flatMap FieldType.chars ++ ')' :: m.result.chars))

/-- The references to the types of a method. -/
def refs (m : MethodType) : Descriptor.Method := ⟨m.parameters.map FieldType.ref, m.result.ref⟩

end MethodType

/-! ## Reading one type -/

namespace Descriptor

lemma primitive?_letter (p : Primitive) : primitive? p.letter = some p.keyword := by
  cases p <;> rfl

lemma letter_ne (p : Primitive) :
    p.letter ≠ 'L' ∧ p.letter ≠ 'V' ∧ p.letter ≠ '[' ∧ p.letter ≠ ')' := by
  cases p <;> decide

lemma takeWhile_append_cons {p : Char → Bool} {c : Char} (cs rest : List Char)
    (h : ∀ a ∈ cs, p a = true) (hc : p c = false) :
    (cs ++ c :: rest).takeWhile p = cs ∧ (cs ++ c :: rest).dropWhile p = c :: rest := by
  constructor
  · rw [List.takeWhile_append_of_pos h]
    simp [hc]
  · rw [List.dropWhile_append_of_pos h]
    simp [hc]

lemma element?_chars (e : ElementType) (rest : List Char) :
    element? (e.chars ++ rest) = some (⟨e.binaryName⟩, rest) := by
  cases e with
  | primitive p =>
    have hL := (letter_ne p).1
    simp only [ElementType.chars, List.singleton_append]
    rw [element?]
    · simp [primitive?_letter, ElementType.binaryName]
    · exact hL
  | named n =>
    have hall : ∀ a ∈ n.text.toList, decide (a ≠ ';') = true := by
      intro a ha
      have : a ≠ ';' := fun h => n.no_semicolon (h ▸ ha)
      simpa using this
    obtain ⟨htake, hdrop⟩ := takeWhile_append_cons (c := ';') n.text.toList rest hall (by decide)
    obtain ⟨c, cs, hcs⟩ := List.exists_cons_of_ne_nil n.ne_nil
    simp only [ElementType.chars, List.cons_append, List.append_assoc, List.nil_append, element?,
      ElementType.binaryName, Name.toBinary]
    rw [htake, hdrop, hcs]

/-- An element type starts with a character that ends the brackets, and neither with `V` nor
with the parenthesis that ends the parameters. -/
lemma chars_eq_cons (e : ElementType) :
    ∃ c cs, e.chars = c :: cs ∧ c ≠ '[' ∧ c ≠ 'V' ∧ c ≠ ')' := by
  cases e with
  | primitive p =>
    obtain ⟨-, hV, hbracket, hparen⟩ := letter_ne p
    exact ⟨p.letter, [], rfl, hbracket, hV, hparen⟩
  | named n => exact ⟨'L', _, rfl, by decide, by decide, by decide⟩

lemma type?_chars (t : FieldType) (rest : List Char) :
    type? (t.chars ++ rest) = some (t.ref, rest) := by
  obtain ⟨c, cs, hchars, hbracket, hV, -⟩ := chars_eq_cons t.element
  have hall : ∀ a ∈ List.replicate t.dimensions '[', decide (a = '[') = true := by
    intro a ha
    simp [List.eq_of_mem_replicate ha]
  obtain ⟨htake, hdrop⟩ := takeWhile_append_cons (List.replicate t.dimensions '[') (cs ++ rest) hall
    (decide_eq_false hbracket)
  have hsplit : t.chars ++ rest = List.replicate t.dimensions '[' ++ c :: (cs ++ rest) := by
    simp [FieldType.chars, hchars]
  have helement := element?_chars t.element rest
  rw [hchars, List.cons_append] at helement
  rw [hsplit, type?, htake, hdrop]
  -- the sign of `void` is looked for first, and no type starts with it
  split
  · next h => exact absurd (List.cons.inj h).1 hV
  · simp [helement, FieldType.ref]

/-- Reading the descriptor of a type gives the reference to the type. -/
theorem field?_descriptor (t : ResultType) : field? t.descriptor = some t.ref := by
  rw [field?, ResultType.descriptor, String.toList_ofList]
  cases t with
  | void => rfl
  | value t =>
    have h := type?_chars t []
    rw [List.append_nil] at h
    rw [ResultType.chars, h]
    rfl

lemma field_descriptor (t : ResultType) : field t.descriptor = .ok t.ref := by
  rw [field, field?_descriptor]

lemma field_fieldType (t : FieldType) : field t.descriptor = .ok t.ref :=
  field_descriptor (.value t)

/-! ## Reading a method type -/

lemma replace_eq_of_not_mem {old new : Char} {cs ds : List Char} (h : Name.replace old new cs = ds)
    (hnew : new ∉ ds) : cs = ds := by
  subst h
  induction cs with
  | nil => rfl
  | cons c cs ih =>
    simp only [Name.replace, List.map_cons, List.mem_cons, not_or] at hnew ih ⊢
    by_cases hc : c = old
    · simp [hc] at hnew
    · rw [if_neg hc, ← ih hnew.2]

/-- Only the class called `void` has the reference of `void`. -/
lemma ref_eq_void_iff (t : FieldType) : t.ref = void ↔ t.isClassVoid = true := by
  obtain ⟨e, n⟩ := t
  cases n with
  | zero =>
    have hzero : (FieldType.mk e 0).ref = ⟨e.binaryName⟩ := by
      simp [FieldType.ref, TypeRef.array]
    rw [hzero]
    cases e with
    | primitive p => cases p <;> simp [ElementType.binaryName, Primitive.keyword, void,
        FieldType.isClassVoid]
    | named name =>
      simp only [ElementType.binaryName, void, FieldType.isClassVoid, TypeRef.mk.injEq,
        decide_eq_true_eq, Name.toBinary]
      constructor
      · intro h
        have hlist := congrArg String.toList h
        rw [String.toList_ofList] at hlist
        have := replace_eq_of_not_mem hlist (by decide)
        exact String.toList_inj.mp this
      · intro h
        rw [h]
        decide
  | succ n =>
    -- the name of an array type has brackets
    have hmem : '[' ∈ (FieldType.mk e (n + 1)).ref.binaryName.toList := by
      simp [FieldType.ref, TypeRef.array, List.replicate_succ, String.toList_join]
    constructor
    · intro h
      rw [h] at hmem
      exact absurd hmem (by decide)
    · intro h
      simp [FieldType.isClassVoid] at h

lemma fieldType_chars_eq_cons (t : FieldType) : ∃ c cs, t.chars = c :: cs ∧ c ≠ ')' := by
  obtain ⟨e, n⟩ := t
  cases n with
  | zero =>
    obtain ⟨c, cs, hchars, -, -, hparen⟩ := chars_eq_cons e
    exact ⟨c, cs, by simpa [FieldType.chars] using hchars, hparen⟩
  | succ n => exact ⟨'[', _, rfl, by decide⟩

lemma length_le_flatMap_chars (ts : List FieldType) :
    ts.length ≤ (ts.flatMap FieldType.chars).length := by
  induction ts with
  | nil => simp
  | cons t ts ih =>
    obtain ⟨c, cs, hchars, -⟩ := fieldType_chars_eq_cons t
    simp only [List.flatMap_cons, List.length_append, List.length_cons, hchars]
    omega

lemma parameters?_flatMap_chars (ts : List FieldType) (rest : List Char) (fuel : Nat)
    (hfuel : ts.length ≤ fuel) :
    parameters? fuel (ts.flatMap FieldType.chars ++ ')' :: rest) =
      if ts.any FieldType.isClassVoid then none else some (ts.map FieldType.ref, rest) := by
  induction ts generalizing fuel with
  | nil => cases fuel <;> rfl
  | cons t ts ih =>
    obtain ⟨fuel, rfl⟩ : ∃ n, fuel = n + 1 := ⟨fuel - 1, by simp at hfuel; omega⟩
    obtain ⟨c, cs, hchars, hparen⟩ := fieldType_chars_eq_cons t
    have htype := type?_chars t (ts.flatMap FieldType.chars ++ ')' :: rest)
    have hrest := ih fuel (by simpa using hfuel)
    rw [List.flatMap_cons, List.append_assoc]
    rw [hchars, List.cons_append] at htype ⊢
    rw [parameters?]
    · simp only [htype, hrest, ref_eq_void_iff, List.any_cons, List.map_cons]
      by_cases hvoid : t.isClassVoid = true
      · simp [hvoid]
      · simp only [hvoid, Bool.false_eq_true, if_false, Bool.false_or]
        split <;> rfl
    · intro rest' h
      exact hparen (List.cons.inj h).1

/-- Reading the descriptor of a method type gives the references to its types, unless a
parameter is of the class called `void`: then nothing is read. -/
theorem method?_descriptor (m : MethodType) :
    method? m.descriptor =
      if m.parameters.any FieldType.isClassVoid then none else some m.refs := by
  have hparameters := parameters?_flatMap_chars m.parameters m.result.chars
    (m.parameters.flatMap FieldType.chars ++ ')' :: m.result.chars).length (by
      have := length_le_flatMap_chars m.parameters
      simp only [List.length_append]
      omega)
  have hresult : type? m.result.chars = some (m.result.ref, []) := by
    cases m.result with
    | void => rfl
    | value t => simpa [ResultType.chars, ResultType.ref] using type?_chars t []
  rw [method?, MethodType.descriptor, String.toList_ofList]
  by_cases hvoid : m.parameters.any FieldType.isClassVoid = true
  · simp only [hparameters, if_pos hvoid]
  · simp only [hparameters, if_neg hvoid, hresult]
    rfl

lemma method_descriptor (m : MethodType) :
    method m.descriptor =
      if m.parameters.any FieldType.isClassVoid then .error (.badDescriptor m.descriptor)
      else .ok m.refs := by
  rw [method, method?_descriptor]
  split
  · next t h =>
    split at h
    · cases h
    · next hvoid => rw [if_neg hvoid, Option.some.inj h]
  · next h =>
    split at h
    · next hvoid => rw [if_pos hvoid]
    · cases h

end Descriptor

end JavaScope
