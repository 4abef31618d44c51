/-
# Drafts of told values

The events that tell a value name its constants in order, with a start and an end around the
parts of every array and annotation (`Value.ToldBy`).  A draft that gets these events, one by
one, ends as if the value had been added to it at once (`Value.ToldBy.brings`).  The same holds
for the elements of an annotation, whether the annotation is the root of the draft or open in it.
-/
import JavaScope.Proofs.ClassFile.Attributes
import JavaScope.Stub.ValueDraft

namespace JavaScope

/-! ## Told values -/

/-- An element of an annotation, with the events that tell its value. -/
structure ToldElement where
  name : String
  value : Value
  events : List ClassEvent

/-- The element alone. -/
def ToldElement.element (e : ToldElement) : String × Value := (e.name, e.value)

/-- The events are the value, in order, under a name.  The items of an array have no names; the
elements of an annotation have, each its own. -/
inductive Value.ToldBy : Value → Option String → List ClassEvent → Prop
  | scalar (s : Scalar) (name : Option String) : ToldBy (.scalar s) name [.scalar name s]
  | enumConstant {type : TypeRef} {descriptor : String} (constant : String)
      (name : Option String) : Descriptor.field descriptor = .ok type →
      ToldBy (.enumConstant type constant) name [.enumValue name descriptor constant]
  | classLiteral {type : TypeRef} {descriptor : String} (name : Option String) :
      Descriptor.field descriptor = .ok type →
      ToldBy (.classLiteral type) name [.classValue name descriptor]
  | array (items : List (Value × List ClassEvent)) (name : Option String) :
      (∀ i ∈ items, ToldBy i.1 none i.2) →
      ToldBy (.array (items.map (·.1))) name
        (.arrayStart name :: (items.flatMap (·.2) ++ [.valueEnd]))
  | annotated {type : TypeRef} {descriptor : String} (elements : List ToldElement)
      (name : Option String) : Descriptor.field descriptor = .ok type →
      (elements.map (·.name)).Nodup → (∀ e ∈ elements, ToldBy e.value (some e.name) e.events) →
      ToldBy (.annotated type (elements.map (·.element))) name
        (.nestedAnnotationStart name descriptor :: (elements.flatMap (·.events) ++ [.valueEnd]))

section Drafts

variable {ρ : Type} [ValueRoot ρ]

lemma acceptAll_append (p : Progress ρ) (es fs : List ClassEvent) :
    p.acceptAll (es ++ fs) = p.acceptAll es >>= fun p => p.acceptAll fs := by
  induction es generalizing p with
  | nil => rfl
  | cons e es ih =>
    simp only [List.cons_append, Progress.acceptAll]
    cases p.accept e with
    | error x => rfl
    | ok p => exact ih p

lemma acceptAll_trans {p q r : Progress ρ} {es fs : List ClassEvent}
    (h : p.acceptAll es = .ok q) (h' : q.acceptAll fs = .ok r) :
    p.acceptAll (es ++ fs) = .ok r := by
  rw [acceptAll_append, h]
  exact h'

lemma acceptAll_cons {p q r : Progress ρ} {e : ClassEvent} {es : List ClassEvent}
    (h : p.accept e = .ok q) (h' : q.acceptAll es = .ok r) : p.acceptAll (e :: es) = .ok r := by
  rw [Progress.acceptAll, h]
  exact h'

lemma acceptAll_singleton {p q : Progress ρ} {e : ClassEvent} (h : p.accept e = .ok q) :
    p.acceptAll [e] = .ok q :=
  acceptAll_cons h rfl

/-! ## Single steps -/

lemma insert?_of_not_mem {a : Annotation} {name : String} (v : Value)
    (h : name ∉ a.elements.map (·.1)) :
    a.insert? name v = some ⟨a.type, a.elements ++ [(name, v)]⟩ := by
  have hnone : a.get? name = none := by
    unfold Annotation.get?
    rw [List.lookup_eq_none_iff]
    intro e he
    have hne : name ≠ e.1 := fun h' => h (List.mem_map.mpr ⟨e, he, h'.symm⟩)
    simpa using hne
  unfold Annotation.insert?
  rw [hnone]

lemma add_of_not_mem {a : Annotation} {name : String} (v : Value)
    (h : name ∉ a.elements.map (·.1)) :
    a.add (some name) v = .ok ⟨a.type, a.elements ++ [(name, v)]⟩ := by
  unfold Annotation.add
  simp only [insert?_of_not_mem v h]

lemma add_push (d : ValueDraft ρ) (k : Compound) (name : Option String) (v : Value) :
    (d.push k).add name v = (k.add name v).map d.push := by
  show (k.add name v >>= fun k => pure _) = _
  cases k.add name v <;> rfl

/-- What is added to the draft at this spot is added to the annotation there. -/
def Holds (spot : Annotation → ValueDraft ρ) : Prop :=
  ∀ a name v, (spot a).add name v = (a.add name v).map spot

lemma holds_push (d : ValueDraft ρ) (own : Option String) :
    Holds fun a => d.push (.annotated own a) := by
  intro a name v
  rw [add_push]
  show ((a.add name v >>= fun a => pure (Compound.annotated own a)).map d.push) = _
  cases a.add name v <;> rfl

lemma holds_root : Holds fun root => (⟨[], root⟩ : ValueDraft Annotation) := by
  intro a name v
  show ((a.add name v) >>= fun root => pure (ValueDraft.mk [] root)) = _
  cases a.add name v <;> rfl

lemma accept_scalar {d d' : ValueDraft ρ} {name : Option String} {s : Scalar}
    (h : d.add name (.scalar s) = .ok d') : d.accept (.scalar name s) = .ok (.pending d') := by
  show (d.add name (.scalar s) >>= fun d => pure (Progress.pending d)) = _
  rw [h]
  rfl

lemma accept_enumValue {d d' : ValueDraft ρ} {name : Option String} {descriptor : String}
    {type : TypeRef} {constant : String} (htype : Descriptor.field descriptor = .ok type)
    (h : d.add name (.enumConstant type constant) = .ok d') :
    d.accept (.enumValue name descriptor constant) = .ok (.pending d') := by
  simp only [ValueDraft.accept, htype]
  show (d.add name (.enumConstant type constant) >>= fun d => pure (Progress.pending d)) = _
  rw [h]
  rfl

lemma accept_classValue {d d' : ValueDraft ρ} {name : Option String} {descriptor : String}
    {type : TypeRef} (htype : Descriptor.field descriptor = .ok type)
    (h : d.add name (.classLiteral type) = .ok d') :
    d.accept (.classValue name descriptor) = .ok (.pending d') := by
  simp only [ValueDraft.accept, htype]
  show (d.add name (.classLiteral type) >>= fun d => pure (Progress.pending d)) = _
  rw [h]
  rfl

lemma accept_nestedAnnotationStart (d : ValueDraft ρ) (name : Option String) {descriptor : String}
    {type : TypeRef} (htype : Descriptor.field descriptor = .ok type) :
    d.accept (.nestedAnnotationStart name descriptor) =
      .ok (.pending (d.push (.annotated name ⟨type, []⟩))) := by
  simp only [ValueDraft.accept, htype]
  rfl

/-- The end of a compound adds it to what is around it. -/
lemma accept_valueEnd {d d' : ValueDraft ρ} {k : Compound} (h : d.add k.name k.value = .ok d') :
    (d.push k).accept .valueEnd = .ok (.pending d') := by
  show (d.add k.name k.value >>= fun d => pure (Progress.pending d)) = _
  rw [h]
  rfl

/-! ## Parts of compounds -/

variable (ρ) in
/-- A draft that gets the events gets the value. -/
def Brings (v : Value) (name : Option String) (es : List ClassEvent) : Prop :=
  ∀ d d' : ValueDraft ρ, d.add name v = .ok d' →
    (Progress.pending d).acceptAll es = .ok (.pending d')

/-- An open array that gets the events of items gets the items. -/
lemma acceptAll_items {items : List (Value × List ClassEvent)}
    (hitems : ∀ i ∈ items, Brings ρ i.1 none i.2) (d : ValueDraft ρ) (own : Option String)
    (before : List Value) :
    (Progress.pending (d.push (.array own before))).acceptAll (items.flatMap (·.2)) =
      .ok (.pending (d.push (.array own (before ++ items.map (·.1))))) := by
  induction items generalizing before with
  | nil => simp [Progress.acceptAll]
  | cons i items ih =>
    have hadd : (d.push (.array own before)).add none i.1 =
        .ok (d.push (.array own (before ++ [i.1]))) := rfl
    have hfirst := hitems i (by simp) _ _ hadd
    have hrest := ih (fun i h => hitems i (by simp [h])) (before ++ [i.1])
    rw [List.append_assoc] at hrest
    exact acceptAll_trans hfirst hrest

/-- An open annotation that gets the events of elements under new names gets the elements. -/
lemma acceptAll_elements {elements : List ToldElement}
    (helements : ∀ e ∈ elements, Brings ρ e.value (some e.name) e.events) (t : TypeRef)
    (before : List (String × Value))
    (hnodup : (before.map (·.1) ++ elements.map (·.name)).Nodup)
    {spot : Annotation → ValueDraft ρ} (hspot : Holds spot) :
    (Progress.pending (spot ⟨t, before⟩)).acceptAll (elements.flatMap (·.events)) =
      .ok (.pending (spot ⟨t, before ++ elements.map (·.element)⟩)) := by
  induction elements generalizing before with
  | nil => simp [Progress.acceptAll]
  | cons e elements ih =>
    have hnew : e.name ∉ before.map (·.1) := by
      intro hmem
      exact (List.nodup_append.mp hnodup).2.2 e.name hmem e.name (by simp) rfl
    have hadd : (spot ⟨t, before⟩).add (some e.name) e.value =
        .ok (spot ⟨t, before ++ [e.element]⟩) := by
      rw [hspot, add_of_not_mem e.value hnew]
      rfl
    have hfirst := helements e (by simp) _ _ hadd
    have hrest := ih (fun e h => helements e (by simp [h])) (before ++ [e.element])
      (by simpa [ToldElement.element] using hnodup)
    rw [List.append_assoc] at hrest
    exact acceptAll_trans hfirst hrest

/-- A draft that gets the events of a value gets the value. -/
theorem Value.ToldBy.brings {v : Value} {name : Option String} {es : List ClassEvent}
    (h : v.ToldBy name es) : Brings ρ v name es := by
  -- an array or annotation is pushed, gets its parts, and is then added as a whole
  induction h with
  | scalar s name => exact fun d d' hadd => acceptAll_singleton (accept_scalar hadd)
  | enumConstant constant name htype =>
    exact fun d d' hadd => acceptAll_singleton (accept_enumValue htype hadd)
  | classLiteral name htype =>
    exact fun d d' hadd => acceptAll_singleton (accept_classValue htype hadd)
  | array items name _ ih =>
    intro d d' hadd
    have hopen : (Progress.pending d).accept (.arrayStart name) =
        .ok (.pending (d.push (.array name []))) := rfl
    have hitems := acceptAll_items ih d name []
    have hclose : (Progress.pending (d.push (.array name (items.map (·.1))))).accept .valueEnd =
        .ok (.pending d') := accept_valueEnd hadd
    exact acceptAll_cons hopen (acceptAll_trans hitems (acceptAll_singleton hclose))
  | @annotated type descriptor elements name htype hnodup _ ih =>
    intro d d' hadd
    have hopen := accept_nestedAnnotationStart d name htype
    have helements := acceptAll_elements ih type [] (by simpa using hnodup) (holds_push d name)
    have hclose : (Progress.pending (d.push (.annotated name
        ⟨type, elements.map (·.element)⟩))).accept .valueEnd = .ok (.pending d') :=
      accept_valueEnd hadd
    exact acceptAll_cons hopen (acceptAll_trans helements (acceptAll_singleton hclose))

end Drafts

/-! ## Described values -/

namespace ElementValue

/-- A described element, with its events. -/
def told (e : String × ElementValue) : ToldElement := ⟨e.1, e.2.value, e.2.events (some e.1)⟩

lemma values_eq (items : List ElementValue) : values items = items.map (·.value) := by
  induction items with
  | nil => rfl
  | cons w items ih => exact congrArg _ ih

lemma itemEvents_eq (items : List ElementValue) :
    itemEvents items = items.flatMap (·.events none) := by
  induction items with
  | nil => rfl
  | cons w items ih => exact congrArg _ ih

lemma namedValues_eq (elements : List (String × ElementValue)) :
    namedValues elements = (elements.map told).map (·.element) := by
  induction elements with
  | nil => rfl
  | cons e elements ih => exact congrArg _ ih

lemma elementEvents_eq (elements : List (String × ElementValue)) :
    elementEvents elements = (elements.map told).flatMap (·.events) := by
  induction elements with
  | nil => rfl
  | cons e elements ih => exact congrArg _ ih

lemma map_name_told (elements : List (String × ElementValue)) :
    (elements.map told).map (·.name) = elements.map (·.1) := List.map_map

theorem toldBy {w : ElementValue} {depth : Nat} (hw : w.Valid depth) (name : Option String) :
    w.value.ToldBy name (w.events name) := by
  induction hw generalizing name with
  | scalar => exact .scalar _ name
  | @enumConstant _ t constant => exact .enumConstant constant name (Descriptor.field_fieldType t)
  | @classLiteral _ t => exact .classLiteral name (Descriptor.field_descriptor t)
  | @array _ items _ _ ih =>
    have h := Value.ToldBy.array (items.map fun w => (w.value, w.events none)) name
      (List.forall_mem_map.mpr fun w hmem => ih w hmem none)
    rw [List.map_map, List.flatMap_map] at h
    rw [value, events, values_eq, itemEvents_eq]
    exact h
  | @annotated _ t elements _ hnodup _ ih =>
    have h := Value.ToldBy.annotated (elements.map told) name (Descriptor.field_fieldType t)
      (by rwa [map_name_told]) (List.forall_mem_map.mpr fun e hmem => ih e hmem (some e.1))
    rwa [← namedValues_eq, ← elementEvents_eq] at h

/-- An annotation that gets the events of described elements gets the elements. -/
lemma acceptAll_elementEvents {ρ : Type} [ValueRoot ρ] {elements : List (String × ElementValue)}
    {depth : Nat} (helements : ∀ e ∈ elements, e.2.Valid depth)
    (hnodup : (elements.map (·.1)).Nodup) (t : TypeRef) {spot : Annotation → ValueDraft ρ}
    (hspot : Holds spot) :
    (Progress.pending (spot ⟨t, []⟩)).acceptAll (elementEvents elements) =
      .ok (.pending (spot ⟨t, namedValues elements⟩)) := by
  rw [elementEvents_eq, namedValues_eq]
  refine acceptAll_elements ?_ t [] (by rwa [map_name_told]) hspot
  exact List.forall_mem_map.mpr fun e hmem => (toldBy (helements e hmem) (some e.1)).brings

end ElementValue

end JavaScope
