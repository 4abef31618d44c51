/-
# The texts that are descriptors

A text is read as the descriptor of a field exactly if it is the descriptor of a type or of `void`,
and then the reference to that type is read.  The reference tells the dimensions and the name of the
element type, and so the type itself, unless a class name has a character that references use
otherwise or is a keyword (`field_readsDescriptors`).

A text is read as the descriptor of a method exactly if it is the descriptor of a method type, but
for those with a parameter of the class called `void`: these are refused, as `V` is, since the
reader looks at the reference and not at the text (`method_readsDescriptors`).
-/
import Mathlib.Data.List.TakeWhile
import Mathlib.Data.Set.Function
import JavaScope.Proofs.ClassFile.TypeDescriptor
import JavaScope.Proofs.Run.Independence
import JavaScope.Proofs.TypeRef

namespace JavaScope

/-! ## Types told by their references -/

/-- A class name that is none of the names of other types when it is decoded. -/
structure ClassName.Plain (n : ClassName) : Prop where
  no_dot : Dotless n.text
  no_bracket : '[' ∉ n.text.toList
  no_keyword : n.text ∉ TypeRef.primitiveNames

namespace ResultType

/-- The class name in a type is plain, if there is one. -/
def Plain : ResultType → Prop
  | value ⟨.named n, _⟩ => n.Plain
  | _ => True

/-- The name of a type without its dimensions. -/
def elementName : ResultType → String
  | void => "void"
  | value t => t.element.binaryName

/-- The number of dimensions of a type. -/
def dimensions : ResultType → Nat
  | void => 0
  | value t => t.dimensions

lemma ref_eq (r : ResultType) : r.ref = TypeRef.array ⟨r.elementName⟩ r.dimensions := by
  cases r with
  | void => rfl
  | value t => rfl

end ResultType

namespace Descriptor

lemma keyword_mem (p : Primitive) : p.keyword ∈ TypeRef.primitiveNames := by
  cases p <;> decide

lemma keyword_injective : Function.Injective Primitive.keyword := by
  intro p q h
  cases p <;> cases q <;> first | rfl | exact absurd h (by decide)

end Descriptor

namespace ClassName.Plain

variable {n m : ClassName}

/-- Nor is the decoded name a keyword: a name that changes has dots then. -/
lemma binaryName_not_keyword (h : n.Plain) : Name.toBinary n.text ∉ TypeRef.primitiveNames := by
  intro hmem
  have hdot : '.' ∉ (Name.toBinary n.text).toList := by
    have hall : ∀ k ∈ TypeRef.primitiveNames, '.' ∉ k.toList := by decide
    exact hall _ hmem
  have hsame : n.text.toList = (Name.toBinary n.text).toList := by
    rw [Name.toBinary, String.toList_ofList] at hdot ⊢
    exact Descriptor.replace_eq_of_not_mem rfl hdot
  rw [← String.toList_inj.mp hsame] at hmem
  exact h.no_keyword hmem

lemma bracket_not_mem_binaryName (h : n.Plain) : '[' ∉ (Name.toBinary n.text).toList := by
  rw [Name.toBinary, String.toList_ofList, Name.replace]
  intro hmem
  obtain ⟨c, hc, hnew⟩ := List.mem_map.mp hmem
  split at hnew
  · cases hnew
  · exact h.no_bracket (hnew ▸ hc)

lemma eq_of_binaryName (hn : n.Plain) (hm : m.Plain)
    (h : Name.toBinary n.text = Name.toBinary m.text) : n = m := by
  cases n
  cases m
  simpa using toBinary_injective hn.no_dot hm.no_dot h

end ClassName.Plain

namespace ResultType

variable {r r' : ResultType}

lemma Plain.bracket_not_mem (h : r.Plain) : '[' ∉ r.elementName.toList := by
  rcases r with _ | ⟨p | n, dimensions⟩
  · decide
  · have hall : ∀ k ∈ TypeRef.primitiveNames, '[' ∉ k.toList := by decide
    exact hall _ (Descriptor.keyword_mem p)
  · exact ClassName.Plain.bracket_not_mem_binaryName h

lemma Plain.elementName_ref (h : r.Plain) : r.ref.elementName = r.elementName := by
  rw [ref_eq, TypeRef.elementName_array (t := ⟨r.elementName⟩) h.bracket_not_mem]

lemma Plain.dimensions_ref (h : r.Plain) : r.ref.dimensions = r.dimensions := by
  rw [ref_eq, TypeRef.dimensions_array (t := ⟨r.elementName⟩) h.bracket_not_mem]

/-- Types with plain class names are told by their element names and dimensions. -/
lemma Plain.eq_of_elementName (h : r.Plain) (h' : r'.Plain)
    (hname : r.elementName = r'.elementName) (hdimensions : r.dimensions = r'.dimensions) :
    r = r' := by
  have hvoid (p : Primitive) : "void" ≠ p.keyword := by cases p <;> decide
  -- no plain class name is a keyword when it is decoded
  have hkeyword {n : ClassName} (hn : n.Plain) {k : String} (hk : k ∈ TypeRef.primitiveNames) :
      k ≠ Name.toBinary n.text := fun he => hn.binaryName_not_keyword (he ▸ hk)
  rcases r with _ | ⟨p | n, dims⟩ <;> rcases r' with _ | ⟨p' | n', dims'⟩
  · rfl
  · exact absurd hname (hvoid p')
  · exact absurd hname (hkeyword h' (by decide))
  · exact absurd hname.symm (hvoid p)
  · obtain rfl := Descriptor.keyword_injective hname
    obtain rfl : dims = dims' := hdimensions
    rfl
  · exact absurd hname (hkeyword h' (Descriptor.keyword_mem p))
  · exact absurd hname.symm (hkeyword h (by decide))
  · exact absurd hname.symm (hkeyword h (Descriptor.keyword_mem p'))
  · obtain rfl := ClassName.Plain.eq_of_binaryName h h' hname
    obtain rfl : dims = dims' := hdimensions
    rfl

lemma Plain.eq_of_ref (h : r.Plain) (h' : r'.Plain) (href : r.ref = r'.ref) : r = r' := by
  refine h.eq_of_elementName h' ?_ ?_
  · rw [← h.elementName_ref, ← h'.elementName_ref, href]
  · rw [← h.dimensions_ref, ← h'.dimensions_ref, href]

end ResultType

/-! ## What is read is a descriptor -/

namespace Descriptor

lemma exists_of_primitive? {c : Char} {name : String} (h : primitive? c = some name) :
    ∃ p : Primitive, p.letter = c ∧ p.keyword = name := by
  unfold primitive? at h
  split at h
  · exact ⟨.boolean, rfl, Option.some.inj h⟩
  · exact ⟨.byte, rfl, Option.some.inj h⟩
  · exact ⟨.char, rfl, Option.some.inj h⟩
  · exact ⟨.short, rfl, Option.some.inj h⟩
  · exact ⟨.int, rfl, Option.some.inj h⟩
  · exact ⟨.long, rfl, Option.some.inj h⟩
  · exact ⟨.float, rfl, Option.some.inj h⟩
  · exact ⟨.double, rfl, Option.some.inj h⟩
  · cases h

variable {cs rest : List Char} {t : TypeRef}

lemma exists_of_element? (h : element? cs = some (t, rest)) :
    ∃ e : ElementType, cs = e.chars ++ rest ∧ t = ⟨e.binaryName⟩ := by
  unfold element? at h
  split at h
  · cases h
  · next cs =>
    split at h
    · next c name d others htake hdrop =>
      obtain ⟨rfl, rfl⟩ := Prod.mk.inj (Option.some.inj h)
      have hsplit := List.takeWhile_append_dropWhile (p := (· ≠ ';')) (l := cs)
      -- the name goes on up to the first semicolon
      have hname : ∀ a ∈ c :: name, a ≠ ';' := by
        intro a ha
        rw [← htake] at ha
        simpa using List.mem_takeWhile_imp ha
      have hd : d = ';' := by
        have hstop := List.head?_dropWhile_not (· ≠ ';') cs
        rw [hdrop] at hstop
        simpa using hstop
      refine ⟨.named ⟨String.ofList (c :: name), by simp, fun hmem => ?_⟩, ?_, ?_⟩
      · exact hname ';' (by simpa using hmem) rfl
      · rw [← hsplit, htake, hdrop, hd]
        simp [ElementType.chars]
      · simp [ElementType.binaryName, Name.toBinary]
    · cases h
  · next c others _ =>
    obtain ⟨name, hname, hread⟩ := Option.map_eq_some_iff.mp h
    obtain ⟨rfl, rfl⟩ := Prod.mk.inj hread
    obtain ⟨p, rfl, rfl⟩ := exists_of_primitive? hname
    exact ⟨.primitive p, rfl, rfl⟩

/-- What is read at the front of a text is the descriptor of a type. -/
lemma exists_of_type? (h : type? cs = some (t, rest)) :
    ∃ r : ResultType, cs = r.chars ++ rest ∧ t = r.ref := by
  have hsplit := List.takeWhile_append_dropWhile (p := (· = '[')) (l := cs)
  have hbrackets : cs.takeWhile (· = '[') =
      List.replicate (cs.takeWhile (· = '[')).length '[' :=
    List.eq_replicate_of_mem fun a ha => by simpa using List.mem_takeWhile_imp ha
  unfold type? at h
  dsimp only at h
  split at h
  · next others hdrop =>
    -- `V` is read without brackets only
    split at h
    · next hnone =>
      obtain ⟨rfl, rfl⟩ := Prod.mk.inj (Option.some.inj h)
      refine ⟨.void, ?_, rfl⟩
      rw [← hsplit, List.length_eq_zero_iff.mp hnone, hdrop]
      rfl
    · cases h
  · obtain ⟨⟨e, others⟩, helement, hread⟩ := Option.map_eq_some_iff.mp h
    obtain ⟨rfl, rfl⟩ := Prod.mk.inj hread
    obtain ⟨e, hchars, rfl⟩ := exists_of_element? helement
    refine ⟨.value ⟨e, (cs.takeWhile (· = '[')).length⟩, ?_, rfl⟩
    rw [ResultType.chars, FieldType.chars, List.append_assoc, ← hchars, ← hbrackets, hsplit]

lemma field?_eq_some_iff {s : String} :
    field? s = some t ↔ ∃ r : ResultType, r.descriptor = s ∧ r.ref = t := by
  constructor
  · intro h
    unfold field? at h
    split at h
    · next read htype =>
      obtain ⟨r, hchars, rfl⟩ := exists_of_type? htype
      refine ⟨r, ?_, Option.some.inj h⟩
      rw [ResultType.descriptor, ← List.append_nil r.chars, ← hchars, String.ofList_toList]
    · cases h
  · rintro ⟨r, rfl, rfl⟩
    exact field?_descriptor r

lemma field_eq_ok_iff {s : String} :
    field s = .ok t ↔ ∃ r : ResultType, r.descriptor = s ∧ r.ref = t := by
  rw [← field?_eq_some_iff, field]
  cases field? s <;> simp

/-- A text is read as the descriptor of a field exactly if it is `V` or the descriptor of a type:
brackets, and then the letter of a primitive type or the name of a class between `L` and `;`.  What
is read is the reference to the type: its keyword, or the name with dots in place of slashes, and a
pair of brackets for each dimension.  Any other text is named in the error.

If the class name has no `.` and no `[`, and is not `void` or the keyword of a primitive type, then
the reference gives back the dimensions and the name without them, and different descriptors are
read as different references. -/
theorem field_readsDescriptors :
    (∀ (s : String) (t : TypeRef),
      field s = .ok t ↔ ∃ r : ResultType, r.descriptor = s ∧ r.ref = t) ∧
    (∀ s : String, (∀ r : ResultType, r.descriptor ≠ s) → field s = .error (.badDescriptor s)) ∧
    (∀ r : ResultType, r.Plain →
      r.ref.dimensions = r.dimensions ∧ r.ref.elementName = r.elementName) ∧
    Set.InjOn field (ResultType.descriptor '' {r | r.Plain}) := by
  refine ⟨fun s t => field_eq_ok_iff, fun s hs => ?_,
    fun r hr => ⟨hr.dimensions_ref, hr.elementName_ref⟩, ?_⟩
  · rw [field]
    cases hread : field? s with
    | none => rfl
    | some t =>
      obtain ⟨r, hr, -⟩ := field?_eq_some_iff.mp hread
      exact absurd hr (hs r)
  · rintro _ ⟨r, hr, rfl⟩ _ ⟨r', hr', rfl⟩ hfield
    rw [field_descriptor, field_descriptor] at hfield
    rw [ResultType.Plain.eq_of_ref hr hr' (Except.ok.inj hfield)]

/-- The type `a/b` with two dimensions, whose descriptor is `[[La/b;`. -/
def nestedArray : ResultType := .value ⟨.named ⟨"a/b", by decide, by decide⟩, 2⟩

/-- The reference gives back the dimensions and the name, and is not that of `void`. -/
theorem field_readsDescriptors_nestedArray :
    nestedArray.Plain ∧ ResultType.void.Plain ∧
      nestedArray.ref.dimensions = 2 ∧ nestedArray.ref.elementName = "a.b" ∧
      field nestedArray.descriptor ≠ field ResultType.void.descriptor := by
  obtain ⟨-, -, htold, hinjective⟩ := field_readsDescriptors
  have hplain : nestedArray.Plain :=
    ⟨by unfold Dotless; decide, by decide, by decide⟩
  have hvoid : ResultType.void.Plain := trivial
  obtain ⟨hdimensions, hname⟩ := htold nestedArray hplain
  refine ⟨hplain, hvoid, hdimensions, hname.trans (by decide), fun hsame => ?_⟩
  exact absurd (hinjective ⟨_, hplain, rfl⟩ ⟨_, hvoid, rfl⟩ hsame) (by decide)

/-! ## What is read as a method descriptor -/

lemma exists_of_parameters? {fuel : Nat} {cs rest : List Char} {ts : List TypeRef}
    (h : parameters? fuel cs = some (ts, rest)) :
    ∃ ps : List FieldType, cs = ps.flatMap FieldType.chars ++ ')' :: rest ∧
      ts = ps.map FieldType.ref ∧ ps.any FieldType.isClassVoid = false := by
  fun_induction parameters? fuel cs generalizing ts with
  | case1 =>
    obtain ⟨rfl, rfl⟩ := Prod.mk.inj (Option.some.inj h)
    exact ⟨[], rfl, rfl, rfl⟩
  | case2 => cases h
  | case3 => cases h
  | case4 fuel cs _ t others htype hvoid ih =>
    obtain ⟨⟨us, behind⟩, hothers, hread⟩ := Option.map_eq_some_iff.mp h
    obtain ⟨rfl, rfl⟩ := Prod.mk.inj hread
    obtain ⟨r, rfl, rfl⟩ := exists_of_type? htype
    obtain ⟨ps, rfl, rfl, hnone⟩ := ih hothers
    -- a parameter that is not refused has a type of fields
    cases r with
    | void => exact absurd rfl hvoid
    | value p =>
      refine ⟨p :: ps, ?_, rfl, ?_⟩
      · rw [List.flatMap_cons, List.append_assoc, ResultType.chars]
      · rw [List.any_cons, hnone, Bool.or_false]
        simpa [ResultType.ref, ref_eq_void_iff] using hvoid
  | case5 => cases h

lemma method?_eq_some_iff {s : String} {m : Method} :
    method? s = some m ↔ ∃ t : MethodType, t.descriptor = s ∧ t.refs = m ∧
      t.parameters.any FieldType.isClassVoid = false := by
  constructor
  · intro h
    unfold method? at h
    split at h
    · next cs hopen =>
      split at h
      · next ts rest hparameters =>
        split at h
        · next result hresult =>
          obtain ⟨ps, rfl, rfl, hnone⟩ := exists_of_parameters? hparameters
          obtain ⟨r, hchars, rfl⟩ := exists_of_type? hresult
          refine ⟨⟨ps, r⟩, ?_, Option.some.inj h, hnone⟩
          rw [List.append_nil] at hchars
          rw [MethodType.descriptor, ← hchars, ← hopen, String.ofList_toList]
        · cases h
      · cases h
    · cases h
  · rintro ⟨t, rfl, rfl, hnone⟩
    rw [method?_descriptor, hnone]
    rfl

/-- No parameter is written `V`, whatever stands in front of it. -/
lemma parameters?_flatMap_void (ps : List FieldType) (rest : List Char) (fuel : Nat) :
    parameters? fuel (ps.flatMap FieldType.chars ++ 'V' :: rest) = none := by
  induction ps generalizing fuel with
  | nil =>
    cases fuel with
    | zero => rfl
    | succ fuel => simp [parameters?, type?]
  | cons p ps ih =>
    obtain ⟨c, cs, hchars, hparen⟩ := fieldType_chars_eq_cons p
    have htype := type?_chars p (ps.flatMap FieldType.chars ++ 'V' :: rest)
    rw [List.flatMap_cons, List.append_assoc]
    rw [hchars, List.cons_append] at htype ⊢
    cases fuel with
    | zero =>
      rw [parameters?]
      exact fun _ h => hparen (List.cons.inj h).1
    | succ fuel =>
      rw [parameters?]
      · simp [htype, ih fuel]
      · exact fun _ h => hparen (List.cons.inj h).1

lemma method_eq_ok_iff {s : String} {m : Method} :
    method s = .ok m ↔ ∃ t : MethodType, t.descriptor = s ∧ t.refs = m ∧
      t.parameters.any FieldType.isClassVoid = false := by
  rw [← method?_eq_some_iff, method]
  cases method? s <;> simp

/-- A text is read as the descriptor of a method exactly if it is the descriptor of a method type
without a parameter of the class called `void`: a parenthesis, the descriptors of the parameters, a
parenthesis, and the descriptor of the result or `V`.  What is read are the references to the
parameter types, in order, and to the result type.

Any other text is named in the error.  Those are the texts that are no such descriptors, also with
`V` among the parameters, and the descriptors of method types with a parameter of the class called
`void`, and no others. -/
theorem method_readsDescriptors (s : String) :
    (∀ m : Method, method s = .ok m ↔ ∃ t : MethodType, t.descriptor = s ∧ t.refs = m ∧
      t.parameters.any FieldType.isClassVoid = false) ∧
    (method s = .error (.badDescriptor s) ↔
      ∀ t : MethodType, t.descriptor = s → t.parameters.any FieldType.isClassVoid = true) ∧
    ∀ (ps : List FieldType) (rest : List Char),
      s = String.ofList ('(' :: (ps.flatMap FieldType.chars ++ 'V' :: rest)) →
        method s = .error (.badDescriptor s) := by
  refine ⟨fun m => method_eq_ok_iff, ⟨?_, fun hall => ?_⟩, ?_⟩
  · rintro hrefused t rfl
    rw [method_descriptor] at hrefused
    by_contra hnone
    rw [if_neg hnone] at hrefused
    cases hrefused
  · rw [method]
    cases hread : method? s with
    | none => rfl
    | some m =>
      obtain ⟨t, ht, -, hnone⟩ := method?_eq_some_iff.mp hread
      rw [hall t ht] at hnone
      cases hnone
  · rintro ps rest rfl
    have hnone : method? (String.ofList ('(' :: (ps.flatMap FieldType.chars ++ 'V' :: rest))) =
        none := by
      rw [method?, String.toList_ofList]
      simp only [parameters?_flatMap_void]
    rw [method, hnone]

/-- The class called `void` is a type of fields, but a method with a parameter of it is refused. -/
example :
    field "Lvoid;" = .ok ⟨"void"⟩ ∧ method "(Lvoid;)V" = .error (.badDescriptor "(Lvoid;)V") ∧
      method "([Lvoid;Lvoid/x;)V" = .ok ⟨[⟨"void[]"⟩, ⟨"void.x"⟩], ⟨"void"⟩⟩ := by
  decide

end Descriptor

end JavaScope
