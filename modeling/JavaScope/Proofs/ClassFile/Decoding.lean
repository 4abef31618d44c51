/-
# Scans of laid out classes

A scan of the bytes that lay out a class tells the class (`exhausts_classFile`): it uses up
the bytes and hands over the events of the description.  The file goes the way of the scan,
from single constants over values, attributes and members to the class.
-/
import JavaScope.Proofs.ClassFile.Layout

namespace JavaScope

open PoolEntry (At TextRef ClassRef OptionalRef PoolLaid pool)
open Scan (Reports)

/-! ## Constants -/

lemma charOfUnit_toNat {c : Char} (h : c.toNat < 65536) :
    charOfUnit (UInt32.ofNat c.toNat).toUInt16 = c := by
  have hnat : (UInt32.ofNat c.toNat).toUInt16.toNat = c.toNat := by
    rw [UInt32.toNat_toUInt16, UInt32.toNat_ofNat_of_lt' (by simp only [UInt32.size]; omega)]
    exact Nat.mod_eq_of_lt h
  have hvalid : c.toNat.isValidChar := c.valid
  rw [charOfUnit, hnat, if_pos hvalid, Char.ofNat_toNat]

/-- The lower bits of a number are those that were there before the sign was extended. -/
lemma setWidth_signExtend {w v : Nat} (h : w ≤ v) (n : BitVec w) :
    (n.signExtend v).setWidth w = n := by
  ext i hi
  have hv : i < v := Nat.lt_of_lt_of_le hi h
  simp [BitVec.getElem_signExtend, hi, hv]

lemma toInt8_toInt32 (n : Int8) : n.toInt32.toUInt32.toUInt8.toInt8 = n := by
  apply Int8.toBitVec_inj.mp
  show (n.toInt32.toBitVec).setWidth 8 = n.toBitVec
  rw [Int8.toBitVec_toInt32]
  exact setWidth_signExtend (by omega) n.toBitVec

lemma toInt16_toInt32 (n : Int16) : n.toInt32.toUInt32.toUInt16.toInt16 = n := by
  apply Int16.toBitVec_inj.mp
  show (n.toInt32.toBitVec).setWidth 16 = n.toBitVec
  rw [Int16.toBitVec_toInt32]
  exact setWidth_signExtend (by omega) n.toBitVec

/-- The pool finds a stored constant under its tag. -/
lemma scalar?_tag {es : List PoolEntry} {s : Scalar} {e : PoolEntry} {i : UInt16}
    (hs : s.StoredAs e) (hi : At es i e) :
    ∃ look, (pool es).scalar? (Char.ofNat s.tag.toNat) = some look ∧ look i = .ok s := by
  have hconstant := PoolEntry.constant_of_at hi
  cases hs with
  | boolean b =>
    refine ⟨_, rfl, ?_⟩
    simp only [Pool.integer, hconstant]
    cases b <;> rfl
  | char c h =>
    refine ⟨_, rfl, ?_⟩
    simp only [Pool.integer, hconstant]
    exact congrArg (fun c => Except.ok (Scalar.char c)) (charOfUnit_toNat h)
  | byte n =>
    refine ⟨_, rfl, ?_⟩
    simp only [Pool.integer, hconstant]
    exact congrArg (fun n => Except.ok (Scalar.byte n)) (toInt8_toInt32 n)
  | short n =>
    refine ⟨_, rfl, ?_⟩
    simp only [Pool.integer, hconstant]
    exact congrArg (fun n => Except.ok (Scalar.short n)) (toInt16_toInt32 n)
  | int n =>
    refine ⟨_, rfl, ?_⟩
    simp only [Pool.integer, hconstant]
    rfl
  | long n =>
    refine ⟨_, rfl, ?_⟩
    simp only [Pool.long, hconstant]
    rfl
  | float bits =>
    refine ⟨_, rfl, ?_⟩
    simp only [Pool.float, hconstant]
    rfl
  | double bits =>
    refine ⟨_, rfl, ?_⟩
    simp only [Pool.double, hconstant]
    rfl

/-! ## Element values -/

lemma takes_scalarHead {p : Pool} {name : Option String} {tag : UInt8} {i : UInt16} {s : Scalar}
    (h : ∃ look, p.scalar? (Char.ofNat tag.toNat) = some look ∧ look i = .ok s) :
    (p.readValueHead name).Takes (tag :: be16 i) (.whole (.scalar name s)) := by
  obtain ⟨look, hlook, hs⟩ := h
  refine Read.takes_offset_bind fun start => (Read.takes_u8 tag).bind ?_
  -- the four tags that are tried first stand for no constant
  split
  · next h => rw [h] at hlook; cases hlook
  · next h => rw [h] at hlook; cases hlook
  · next h => rw [h] at hlook; cases hlook
  · next h => rw [h] at hlook; cases hlook
  · rw [hlook]
    exact (Read.takes_u16 i).bind_nil (Read.takes_ofExcept_bind hs (Read.takes_pure _))

lemma takes_wholeHead {es : List PoolEntry} {name : Option String} {s : Scalar}
    {ref : List UInt8} (h : ScalarRef es s ref) :
    ((pool es).readValueHead name).Takes (s.tag :: ref) (.whole (.scalar name s)) := by
  rcases h with ⟨i, e, hs, hi, rfl⟩ | ⟨text, rfl, i, hi, rfl⟩
  · exact takes_scalarHead (scalar?_tag hs hi)
  · refine takes_scalarHead ⟨_, rfl, ?_⟩
    simp only [PoolEntry.utf8_of_at hi]
    rfl

section Values

variable {σ : Type} {v : Visitor σ} {p : Pool} {name : Option String}

lemma reports_whole {bytes : List UInt8} {e : ClassEvent} {budget : Nat}
    (h : (p.readValueHead name).Takes bytes (.whole e)) :
    Reports v (Scan.elementValue v p (budget + 1) name) bytes [e] () :=
  (Scan.reports_read h).bind_nil (Scan.reports_emit e)

lemma reports_array {bytes : List UInt8} {n : Nat} {events : List ClassEvent} {budget : Nat}
    (hn : n < 65536)
    (h : Reports v (Scan.times n (Scan.elementValue v p budget none)) bytes events ()) :
    Reports v (Scan.elementValue v p (budget + 1) name) (91 :: (be16 (.ofNat n) ++ bytes))
      (.arrayStart name :: (events ++ [.valueEnd])) () := by
  have hhead : (p.readValueHead name).Takes (91 :: be16 (.ofNat n)) (.array (.ofNat n)) :=
    Read.takes_offset_bind fun start => (Read.takes_u8 91).bind ((Read.takes_u16 _).map _)
  refine Reports.after_read hhead (Reports.after_emit ?_)
  rw [toNat_count hn]
  exact h.then_emit

lemma reports_counted_elements {bytes : List UInt8} {n : Nat} {events : List ClassEvent}
    {value : Option String → Scan σ Unit} (hn : n < 65536)
    (h : Reports v (Scan.times n (Scan.read p.readUtf8 >>= fun name => value (some name))) bytes
      events ()) :
    Reports v (Scan.elements p value) (be16 (.ofNat n) ++ bytes) events () := by
  refine Reports.after_read (Read.takes_u16 _) ?_
  rwa [toNat_count hn]

lemma reports_annotated {typeRef bytes : List UInt8} {descriptor : String}
    {events : List ClassEvent} {budget : Nat} (htype : p.readUtf8.Takes typeRef descriptor)
    (h : Reports v (Scan.elements p fun name => Scan.elementValue v p budget name) bytes
      events ()) :
    Reports v (Scan.elementValue v p (budget + 1) name) (64 :: (typeRef ++ bytes))
      (.nestedAnnotationStart name descriptor :: (events ++ [.valueEnd])) () := by
  have hhead : (p.readValueHead name).Takes (64 :: typeRef) (.annotated descriptor) :=
    Read.takes_offset_bind fun start => (Read.takes_u8 64).bind (htype.map _)
  exact Reports.after_read hhead (Reports.after_emit h.then_emit)

-- The three inductions go along the values.  The budget that is left at a depth is what the
-- greatest depth leaves, so it is never used up.
mutual

/-- The bytes of a value, scanned within the budget for its depth, tell the value. -/
theorem reports_elementValue {es : List PoolEntry} (w : ElementValue) {bytes : List UInt8}
    (name : Option String) {depth budget : Nat} (h : w.Laid es bytes) (hw : w.Valid depth)
    (hbudget : depth + budget = maxValueDepth) :
    Reports v (Scan.elementValue v (pool es) (budget + 1) name) bytes (w.events name) () := by
  cases w with
  | scalar s =>
    cases h with
    | scalar href => exact reports_whole (takes_wholeHead href)
  | enumConstant t constant =>
    cases h with
    | enumConstant htype hname =>
      refine reports_whole (Read.takes_offset_bind fun start => (Read.takes_u8 101).bind ?_)
      exact (PoolEntry.takes_readUtf8 htype).bind ((PoolEntry.takes_readUtf8 hname).map _)
  | classLiteral t =>
    cases h with
    | classLiteral htype =>
      refine reports_whole (Read.takes_offset_bind fun start => (Read.takes_u8 99).bind ?_)
      exact (PoolEntry.takes_readUtf8 htype).map _
  | array items =>
    cases h with
    | array hlength hitems =>
      exact reports_array hlength (reports_items items hitems hw.items hbudget)
  | annotated t elements =>
    cases h with
    | annotated htype hlength helements =>
      exact reports_annotated (PoolEntry.takes_readUtf8 htype) (reports_counted_elements hlength
        (reports_elements elements helements hw.elements hbudget))
termination_by structural w

/-- The bytes of the parts of a value of this depth tell them. -/
theorem reports_items {es : List PoolEntry} (items : List ElementValue) {bytes : List UInt8}
    {depth budget : Nat} (h : ElementValue.ItemsLaid es items bytes)
    (hitems : ∀ w ∈ items, w.Valid (depth + 1)) (hbudget : depth + budget = maxValueDepth) :
    Reports v (Scan.times items.length (Scan.elementValue v (pool es) budget none)) bytes
      (ElementValue.itemEvents items) () := by
  cases items with
  | nil =>
    cases h
    exact Scan.reports_pure ()
  | cons w ws =>
    cases h with
    | cons hfirst hrest =>
      have hw := hitems w (by simp)
      obtain ⟨budget, rfl⟩ : ∃ n, budget = n + 1 := ⟨budget - 1, by have := hw.depth_le; omega⟩
      have hnext : depth + 1 + budget = maxValueDepth := by omega
      have hfirst := reports_elementValue w none hfirst hw hnext
      have hrest := reports_items ws hrest (fun w h => hitems w (by simp [h])) hbudget
      exact hfirst.bind (f := fun _ => Scan.times ws.length _) hrest
termination_by structural items

/-- The bytes of the elements of an annotation of this depth tell them. -/
theorem reports_elements {es : List PoolEntry} (elements : List (String × ElementValue))
    {bytes : List UInt8} {depth budget : Nat} (h : ElementValue.ElementsLaid es elements bytes)
    (helements : ∀ e ∈ elements, e.2.Valid (depth + 1))
    (hbudget : depth + budget = maxValueDepth) :
    Reports v (Scan.times elements.length (Scan.read (pool es).readUtf8 >>= fun name =>
      Scan.elementValue v (pool es) budget (some name))) bytes
      (ElementValue.elementEvents elements) () := by
  match elements with
  | [] =>
    cases h
    exact Scan.reports_pure ()
  | (name, w) :: rest =>
    cases h with
    | cons hname hfirst hrest =>
      have hw := helements (name, w) (by simp)
      obtain ⟨budget, rfl⟩ : ∃ n, budget = n + 1 := ⟨budget - 1, by have := hw.depth_le; omega⟩
      have hnext : depth + 1 + budget = maxValueDepth := by omega
      have hfirst := reports_elementValue w (some name) hfirst hw hnext
      have hrest := reports_elements rest hrest (fun e h => helements e (by simp [h])) hbudget
      have hnamed := Reports.after_read (PoolEntry.takes_readUtf8 hname)
        (f := fun name => Scan.elementValue v (pool es) (budget + 1) (some name)) hfirst
      have h := hnamed.bind (f := fun _ => Scan.times rest.length _) hrest
      rwa [List.append_assoc] at h
termination_by structural elements

end

end Values

/-! ## Attributes -/

section Attributes

variable {σ : Type} {v : Visitor σ} {es : List PoolEntry}

/-- The bytes of the annotations on a declaration tell them. -/
lemma reports_annotations {isVisible : Bool} {uses : List AnnotationDescription}
    {bytes : List UInt8} (huses : ∀ a ∈ uses, a.isVisible = isVisible ∧ a.Valid)
    (h : Counted (AnnotationDescription.Laid es) uses bytes) :
    Reports v (Scan.annotations v (pool es) isVisible) bytes (uses.flatMap (·.events)) () := by
  refine Scan.reports_counted_flatMap (fun a bytes ha => ?_) h.with_mem
  obtain ⟨⟨typeRef, elements, htype, hlength, helements, rfl⟩, ha⟩ := ha
  obtain ⟨rfl, -, hvalid⟩ := huses a ha
  refine Reports.after_read (PoolEntry.takes_readUtf8 htype) (Reports.after_emit ?_)
  have hparts := reports_elements (v := v) a.elements helements hvalid (Nat.zero_add maxValueDepth)
  exact (reports_counted_elements hlength hparts).then_emit

/-- The bytes of an entry of the table of inner classes, read as an event. -/
lemma takes_readInnerClass {e : InnerClassDescription} {bytes : List UInt8} (h : e.Laid es bytes) :
    (pool es).readInnerClass.Takes bytes e.event := by
  obtain ⟨inner, outer, simpleName, hinner, houter, hname, rfl⟩ := h
  refine (PoolEntry.takes_readClassName hinner).bind ?_
  refine (PoolEntry.takes_readClassName? houter).bind ?_
  exact (PoolEntry.takes_readUtf8? hname).bind ((Read.takes_u16 e.access).map _)

/-- The constants that a type admits: a number under the letter of its type, or a text. -/
lemma admits_cases {t : FieldType} {s : Scalar} (h : t.Admits s) :
    (∃ p, t = ⟨.primitive p, 0⟩ ∧ p.letter = Char.ofNat s.tag.toNat ∧ ∀ text, s ≠ .string text) ∨
      ∃ n text, t = ⟨.named n, 0⟩ ∧ n.text = "java/lang/String" ∧ s = .string text := by
  obtain ⟨e, dimensions⟩ := t
  obtain ⟨hzero, hmatch⟩ := h
  have hzero : dimensions = 0 := hzero
  subst hzero
  cases e with
  | primitive p =>
    left
    refine ⟨p, rfl, ?_⟩
    cases p <;> cases s <;> first | exact absurd hmatch id | exact ⟨rfl, by simp⟩
  | named n =>
    right
    cases s with
    | string text => exact ⟨n, text, rfl, hmatch, rfl⟩
    | _ => exact absurd hmatch id

/-- A reference to a constant that its type admits leads to the constant. -/
lemma fieldConstant_of_ref {t : FieldType} {s : Scalar} {bytes : List UInt8} (ht : t.Admits s)
    (h : ConstantRef es s bytes) :
    ∃ i, bytes = be16 i ∧ (pool es).fieldConstant t.descriptor i = .ok (some s) := by
  rcases admits_cases ht with ⟨p, rfl, hletter, hs⟩ | ⟨n, text, rfl, hn, rfl⟩
  · rcases h with ⟨i, e, hstored, hi, rfl⟩ | ⟨text, i, j, hstring, -⟩
    · refine ⟨i, rfl, ?_⟩
      have hlist : (FieldType.mk (.primitive p) 0).descriptor.toList = [p.letter] := by
        simp [FieldType.descriptor, FieldType.chars, ElementType.chars]
      obtain ⟨look, hlook, hok⟩ := scalar?_tag hstored hi
      simp only [Pool.fieldConstant, hlist, Descriptor.primitive?_letter, Option.bind_some]
      rw [hletter, hlook]
      simp only [hok]
      rfl
    · exact absurd hstring (hs text)
  · rcases h with ⟨i, e, hstored, -⟩ | ⟨text', i, j, hstring, hi, hj, rfl⟩
    · cases hstored
    · refine ⟨i, rfl, ?_⟩
      obtain rfl : text = text' := Scalar.string.inj hstring
      have hdescriptor : (FieldType.mk (.named n) 0).descriptor = "Ljava/lang/String;" := by
        simp only [FieldType.descriptor, FieldType.chars, ElementType.chars, hn]
        decide
      rw [hdescriptor]
      have hstring := PoolEntry.string_of_at hi hj
      show (do return some (Scalar.string (← (pool es).string i)) : Except ClassError _) = _
      rw [hstring]
      rfl

/-- The attribute stands on a suitable element, and class files can hold what it says. -/
def AttributeContent.FitsOn (element : Element) : AttributeContent → Prop
  | constantValue s => ∃ t : FieldType, element = .ofField t.descriptor ∧ t.Admits s
  | signature _ => True
  | exceptions _ => element = .ofMethod
  | annotationDefault w => element = .ofMethod ∧ w.Valid 0
  | innerClasses _ => element = .ofClass
  | annotations isVisible uses => ∀ a ∈ uses, a.isVisible = isVisible ∧ a.Valid
  | other name _ => name ∉ element.knownNames

lemma attribute?_eq_none {element : Element} {name : String} (h : name ∉ element.knownNames) :
    element.attribute? name = none := by
  cases element <;>
    · simp only [Element.knownNames, List.mem_cons, List.not_mem_nil, or_false, not_or] at h
      simp [Element.attribute?, h]

lemma attribute?_signature (element : Element) :
    element.attribute? "Signature" = some .signature := by
  cases element <;> rfl

lemma attribute?_annotations (element : Element) (isVisible : Bool)
    (uses : List AnnotationDescription) :
    element.attribute? (AttributeContent.annotations isVisible uses).name =
      some (.annotations isVisible) := by
  cases isVisible <;> cases element <;> rfl

/-- What an attribute says is scanned as an attribute of its sort, or not at all. -/
lemma reports_attributeBody {element : Element} {a : AttributeContent} {body : List UInt8}
    (ha : a.FitsOn element) (h : a.BodyLaid es body) :
    (element.attribute? a.name = none ∧ a.events = []) ∨
      ∃ k, element.attribute? a.name = some k ∧
        Reports v (Scan.attributeBody v (pool es) k) body a.events () := by
  cases a with
  | constantValue s =>
    right
    obtain ⟨t, rfl, ht⟩ := ha
    obtain ⟨i, rfl, hok⟩ := fieldConstant_of_ref ht h
    refine ⟨.constantValue t.descriptor, rfl, ?_⟩
    have hread : (Read.ofExcept ((pool es).fieldConstant t.descriptor i)).Takes [] (some s) :=
      Read.takes_ofExcept hok
    refine (Scan.reports_read (Read.takes_u16 i)).bind_nil ?_
    exact (Scan.reports_read hread).bind_nil (Scan.reports_emit _)
  | signature text =>
    right
    refine ⟨.signature, attribute?_signature element, ?_⟩
    exact (Scan.reports_read (PoolEntry.takes_readUtf8 h)).bind_nil (Scan.reports_emit _)
  | exceptions names =>
    right
    obtain rfl : element = .ofMethod := ha
    refine ⟨.exceptions, rfl, ?_⟩
    obtain ⟨hlt, rest, hrest, rfl⟩ := h
    have hread := Read.takes_times (fun _ _ => PoolEntry.takes_readClassName) hrest
    refine Reports.after_read (Read.takes_u16 _) ?_
    rw [toNat_count hlt]
    exact (Scan.reports_read hread).bind_nil (Scan.reports_emit _)
  | annotationDefault w =>
    right
    obtain ⟨rfl, hw⟩ := ha
    refine ⟨.annotationDefault, rfl, Reports.after_emit ?_⟩
    exact (reports_elementValue w none h hw (Nat.zero_add maxValueDepth)).then_emit
  | innerClasses entries =>
    right
    obtain rfl : element = .ofClass := ha
    refine ⟨.innerClasses, rfl, ?_⟩
    have hentry : ∀ e bytes, InnerClassDescription.Laid es e bytes →
        Reports v (Scan.read (pool es).readInnerClass >>= fun e => Scan.emit v e) bytes
          [e.event] () :=
      fun e bytes he => (Scan.reports_read (takes_readInnerClass he)).bind_nil (Scan.reports_emit _)
    show Reports v _ _ (entries.map (·.event)) ()
    rw [List.map_eq_flatMap]
    exact Scan.reports_counted_flatMap hentry h
  | annotations isVisible uses =>
    right
    exact ⟨.annotations isVisible, attribute?_annotations element isVisible uses,
      reports_annotations ha h⟩
  | other name bytes =>
    left
    exact ⟨attribute?_eq_none ha, rfl⟩

/-- The bytes of an attribute tell what it says, and nothing if it is not known. -/
lemma reports_attributeEntry {element : Element} {a : AttributeContent} {bytes : List UInt8}
    (ha : a.FitsOn element) (h : a.Laid es bytes) :
    Reports v (Scan.attributeEntry v (pool es) element) bytes a.events () := by
  obtain ⟨nameRef, body, hname, hbody, hlength, rfl⟩ := h
  refine Reports.after_read (PoolEntry.takes_readUtf8 hname) ?_
  refine Reports.after_read (Read.takes_u32 _) ?_
  have hnat : body.length = (UInt32.ofNat body.length).toNat :=
    (UInt32.toNat_ofNat_of_lt' hlength).symm
  rcases reports_attributeBody (v := v) ha hbody with ⟨hnone, hevents⟩ | ⟨k, hk, hreports⟩
  · rw [hnone, hevents]
    exact Scan.reports_skip hnat
  · rw [hk]
    have hall := hreports.bind_exhausts (f := fun _ => Scan.read (Read.expectEnd a.name))
      (Scan.exhausts_expectEnd a.name)
    rw [List.append_nil, List.append_nil] at hall
    exact Scan.reports_within hall hnat

lemma reports_attributes {element : Element} {table : List AttributeContent}
    {bytes : List UInt8} (htable : ∀ a ∈ table, a.FitsOn element)
    (h : Counted (AttributeContent.Laid es) table bytes) :
    Reports v (Scan.attributes v (pool es) element) bytes (table.flatMap (·.events)) () :=
  Scan.reports_counted_flatMap
    (fun a _ ha => reports_attributeEntry (htable a ha.2) ha.1) h.with_mem

end Attributes

/-! ## Members -/

lemma AttributeContent.StandsOn.fitsOn {element : Element} {a : AttributeContent}
    (h : a.StandsOn element)
    (hconstant : ∀ d s, element = .ofField d → a.constant? = some s →
      ∃ t : FieldType, d = t.descriptor ∧ t.Admits s)
    (hdefault : ∀ w, element = .ofMethod → a.default? = some w → w.Valid 0)
    (huses : ∀ u ∈ a.uses, u.Valid) :
    a.FitsOn element := by
  cases a with
  | constantValue s =>
    cases element with
    | ofField d =>
      obtain ⟨t, rfl, ht⟩ := hconstant d s rfl rfl
      exact ⟨t, rfl, ht⟩
    | ofClass => simp [StandsOn, name, Element.knownNames] at h
    | ofMethod => simp [StandsOn, name, Element.knownNames] at h
  | signature text => trivial
  | exceptions names =>
    cases element with
    | ofMethod => rfl
    | _ => simp [StandsOn, name, Element.knownNames] at h
  | annotationDefault w =>
    cases element with
    | ofMethod => exact ⟨rfl, hdefault w rfl rfl⟩
    | _ => simp [StandsOn, name, Element.knownNames] at h
  | innerClasses entries =>
    cases element with
    | ofClass => rfl
    | _ => simp [StandsOn, name, Element.knownNames] at h
  | annotations isVisible uses => exact fun u hu => ⟨h.2 u hu, huses u hu⟩
  | other name body => exact h

lemma FieldDescription.SpreadOver.fitsOn {f : FieldDescription} {table : List AttributeContent}
    (h : f.SpreadOver table) (hf : f.Valid) :
    ∀ a ∈ table, a.FitsOn (.ofField f.type.descriptor) := by
  intro a ha
  refine (h.standing a ha).fitsOn (fun d s hd hs => ?_) (fun w hmethod => nomatch hmethod)
    (fun u hu => ?_)
  · have hmem : s ∈ table.filterMap (·.constant?) := List.mem_filterMap.mpr ⟨a, ha, hs⟩
    rw [h.constant, Option.mem_toList] at hmem
    exact ⟨f.type, (Element.ofField.inj hd).symm, hf.1 s hmem⟩
  · refine hf.2 u ?_
    rw [← h.annotations]
    exact List.mem_flatMap.mpr ⟨a, ha, hu⟩

lemma MethodDescription.SpreadOver.fitsOn {m : MethodDescription} {table : List AttributeContent}
    (h : m.SpreadOver table) (hm : m.Valid) : ∀ a ∈ table, a.FitsOn .ofMethod := by
  intro a ha
  refine (h.standing a ha).fitsOn (fun d s hfield => nomatch hfield) (fun w _ hw => ?_)
    (fun u hu => ?_)
  · have hmem : w ∈ table.filterMap (·.default?) := List.mem_filterMap.mpr ⟨a, ha, hw⟩
    rw [h.default?, Option.mem_toList] at hmem
    exact hm.1 w hmem
  · refine hm.2 u ?_
    rw [← h.annotations]
    exact List.mem_flatMap.mpr ⟨a, ha, hu⟩

lemma ClassDescription.SpreadOver.fitsOn {d : ClassDescription} {table : List AttributeContent}
    (h : d.SpreadOver table) (hd : d.Valid) : ∀ a ∈ table, a.FitsOn .ofClass := by
  intro a ha
  refine (h.standing a ha).fitsOn (fun d s hfield => nomatch hfield)
    (fun w hmethod => nomatch hmethod) (fun u hu => ?_)
  refine hd.annotations u ?_
  rw [← h.annotations]
  exact List.mem_flatMap.mpr ⟨a, ha, hu⟩

section Members

variable {σ : Type} {v : Visitor σ} {es : List PoolEntry}

/-- The bytes of a member tell its head, its attributes and its end. -/
lemma reports_member (start : Access → String → String → ClassEvent) (element : String → Element)
    (last : ClassEvent) {access : Access} {name descriptor : String}
    {table : List AttributeContent} {bytes : List UInt8}
    (htable : ∀ a ∈ table, a.FitsOn (element descriptor))
    (h : MemberLaid es access name descriptor table bytes) :
    Reports v (Scan.member v (pool es) start element last) bytes
      (start access name descriptor :: (table.flatMap (·.events) ++ [last])) () := by
  obtain ⟨nameRef, typeRef, attributes, hname, htype, hattributes, rfl⟩ := h
  refine Reports.after_read (Read.takes_u16 access) ?_
  refine Reports.after_read (PoolEntry.takes_readUtf8 hname) ?_
  refine Reports.after_read (PoolEntry.takes_readUtf8 htype) (Reports.after_emit ?_)
  exact (reports_attributes htable hattributes).then_emit

lemma reports_field {f : FieldDescription} {bytes : List UInt8} (hf : f.Valid)
    (h : f.Laid es bytes) :
    ∃ events, f.ToldBy events ∧ Reports v (Scan.field v (pool es)) bytes events () := by
  obtain ⟨table, htable, hlaid⟩ := h
  have hreports := reports_member (v := v) .fieldStart .ofField .fieldEnd (htable.fitsOn hf) hlaid
  exact ⟨_, ⟨table, htable, rfl⟩, hreports⟩

lemma reports_method {m : MethodDescription} {bytes : List UInt8} (hm : m.Valid)
    (h : m.Laid es bytes) :
    ∃ events, m.ToldBy events ∧ Reports v (Scan.method v (pool es)) bytes events () := by
  obtain ⟨table, htable, hlaid⟩ := h
  have hreports := reports_member (v := v) .methodStart (fun _ => .ofMethod) .methodEnd
    (htable.fitsOn hm) hlaid
  exact ⟨_, ⟨table, htable, rfl⟩, hreports⟩

/-! ## Classes -/

lemma exhausts_classBody {d : ClassDescription} {bytes : List UInt8} (hd : d.Valid)
    (h : d.BodyLaid es bytes) :
    ∃ events, d.ToldBy events ∧ Scan.Exhausts v (Scan.classBody v (pool es) d.version) bytes
      events := by
  obtain ⟨table, self, super, interfaces, fieldBytes, methodBytes, attributes, htable, hself,
    hsuper, hinterfaces, hfields, hmethods, hattributes, rfl⟩ := h
  obtain ⟨fields, hfields, hfieldEvents⟩ := Scan.reports_counted (v := v)
    (fun f bytes hf => reports_field (hd.fields f hf.2) hf.1) hfields.with_mem
  obtain ⟨methods, hmethods, hmethodEvents⟩ := Scan.reports_counted (v := v)
    (fun m bytes hm => reports_method (hd.methods m hm.2) hm.1) hmethods.with_mem
  refine ⟨_, ⟨table, fields, methods, htable, hfields, hmethods, rfl⟩, ?_⟩
  obtain ⟨hlt, interfaces, hinterfaces, rfl⟩ := hinterfaces
  have hnames := Read.takes_times (fun _ _ => PoolEntry.takes_readClassName) hinterfaces
  refine (Scan.reports_read (Read.takes_u16 d.access)).bind_exhausts ?_
  refine (Scan.reports_read (PoolEntry.takes_readClassName hself)).bind_exhausts ?_
  refine (Scan.reports_read (PoolEntry.takes_readClassName? hsuper)).bind_exhausts ?_
  rw [List.append_assoc]
  refine (Scan.reports_read (Read.takes_u16 _)).bind_exhausts ?_
  rw [toNat_count hlt]
  refine (Scan.reports_read hnames).bind_exhausts ?_
  refine (Scan.reports_emit _).bind_exhausts ?_
  -- a count and what it counts are one step
  rw [← Scan.bind_assoc]
  refine hfieldEvents.bind_exhausts ?_
  rw [← Scan.bind_assoc]
  refine hmethodEvents.bind_exhausts ?_
  rw [← List.append_nil attributes]
  refine (reports_attributes (htable.fitsOn hd) hattributes).bind_exhausts ?_
  exact Scan.exhausts_expectEnd_bind (Scan.reports_emit .classEnd).exhausts

lemma takes_classVersion {version : ClassVersion} (h : ClassVersion.oldestMajor ≤ version.major) :
    Read.classVersion.Takes (be32 0xCAFEBABE ++ (be16 version.minor ++ be16 version.major))
      version := by
  have hmagic : (0xCAFEBABE : UInt32) = classFileMagic := rfl
  refine (Read.takes_u32 _).bind ?_
  rw [if_pos hmagic]
  refine (Read.takes_u16 version.minor).bind ((Read.takes_u16 version.major).bind_nil ?_)
  rw [if_neg (UInt16.not_lt.mpr h)]
  exact Read.takes_pure version

/-- The bytes that lay out a class are scanned to their end, and the scan tells the class. -/
theorem exhausts_classFile {d : ClassDescription} {bytes : List UInt8} (hd : d.Valid)
    (h : d.Laid bytes) :
    ∃ events, d.ToldBy events ∧ Scan.Exhausts v (Scan.classFile v) bytes events := by
  obtain ⟨es, poolBytes, body, hpool, hbody, rfl⟩ := h
  obtain ⟨events, htold, hevents⟩ := exhausts_classBody (v := v) hd hbody
  refine ⟨events, htold, ?_⟩
  have hhead := Scan.reports_read (v := v) (takes_classVersion hd.version)
  have hrest := (Scan.reports_read (v := v) (PoolEntry.takes_pool hpool)).bind_exhausts
    (f := fun p => Scan.classBody v p d.version) hevents
  have hall := hhead.bind_exhausts (f := fun version => Scan.read Pool.read >>= fun p =>
    Scan.classBody v p version) hrest
  simp only [List.append_assoc, List.nil_append] at hall
  exact hall

end Members

end JavaScope
