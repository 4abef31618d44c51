/-
# The size of stubs

The size of a stub counts its members, its annotations and all values in them, at any depth.  Every
event adds one at most to what is drafted (`StubDraft.modest_step`), so a stub is no larger than the
class file that it is read from, whatever the file claims (`scanClass_doesNotAmplify`).

The same look at every step shows that drafts name no offset of a file in their errors.
-/
import JavaScope.Proofs.ClassFile.EventCount
import JavaScope.Stub.Draft

namespace JavaScope

/-! ## Sizes -/

namespace Value

mutual

/-- The number of values in a value, at any depth, with the value itself. -/
def size : Value → Nat
  | scalar _ | classLiteral _ | enumConstant _ _ => 1
  | array items => 1 + itemsSize items
  | annotated _ elements => 1 + elementsSize elements

/-- The size of the items of an array. -/
def itemsSize : List Value → Nat
  | [] => 0
  | v :: vs => size v + itemsSize vs

/-- The size of the elements of an annotation. -/
def elementsSize : List (String × Value) → Nat
  | [] => 0
  | (_, v) :: rest => size v + elementsSize rest

end

lemma itemsSize_concat (items : List Value) (v : Value) :
    itemsSize (items ++ [v]) = itemsSize items + v.size := by
  induction items with
  | nil => simp [itemsSize]
  | cons i items ih => simp [itemsSize, ih, Nat.add_assoc]

lemma elementsSize_concat (elements : List (String × Value)) (name : String) (v : Value) :
    elementsSize (elements ++ [(name, v)]) = elementsSize elements + v.size := by
  induction elements with
  | nil => simp [elementsSize]
  | cons e elements ih => simp [elementsSize, ih, Nat.add_assoc]

end Value

/-- An annotation with the values in it. -/
def Annotation.size (a : Annotation) : Nat := a.toValue.size

/-- The size of a list is that of its items. -/
def totalSize {α : Type} (size : α → Nat) : List α → Nat
  | [] => 0
  | a :: as => size a + totalSize size as

lemma totalSize_concat {α : Type} (size : α → Nat) (as : List α) (a : α) :
    totalSize size (as ++ [a]) = totalSize size as + size a := by
  induction as with
  | nil => simp [totalSize]
  | cons b as ih => simp [totalSize, ih, Nat.add_assoc]

/-- The size of the annotations on a declaration. -/
def AnnotationUse.totalSize (uses : List AnnotationUse) : Nat :=
  JavaScope.totalSize (fun use => use.value.size) uses

/-- A field with its constant and its annotations. -/
def FieldStub.size (f : FieldStub) : Nat :=
  1 + f.constant.toList.length + AnnotationUse.totalSize f.annotations

/-- A method with its default value and its annotations. -/
def MethodStub.size (m : MethodStub) : Nat :=
  1 + m.default?.elim 0 Value.size + AnnotationUse.totalSize m.annotations

/-- The members of a class, the annotations on it and on them, and the values in these. -/
def ClassStub.size (c : ClassStub) : Nat :=
  AnnotationUse.totalSize c.annotations + c.memberTypes.length + totalSize FieldStub.size c.fields +
    totalSize MethodStub.size c.methods

/-- The size of the stub so far. -/
def ClassDraft.size (c : ClassDraft) : Nat := c.build.size

/-- The size of a compound whose parts are still being added. -/
def Compound.size (k : Compound) : Nat := k.value.size

/-- The size of an open value. -/
def ValueDraft.size {ρ : Type} (rootSize : ρ → Nat) (d : ValueDraft ρ) : Nat :=
  totalSize Compound.size d.compounds + rootSize d.root

/-- The size of a value, open or closed. -/
def Progress.size {ρ : Type} (rootSize : ρ → Nat) : Progress ρ → Nat
  | pending d => d.size rootSize
  | complete root => rootSize root

/-- The declaration of an open annotation, as far as it is not part of its class yet. -/
def AnnotationTarget.size : AnnotationTarget → Nat
  | onClass => 0
  | onField f => f.size
  | onMethod m => m.size

/-- The size of an annotation default that may not be there yet. -/
def defaultSize (root : Option Value) : Nat := root.elim 0 Value.size

/-- The size of all that is drafted. -/
def StubDraft.size : StubDraft → Nat
  | awaitingClass => 0
  | inClass c => c.size
  | inField c f => c.size + f.size
  | inMethod c m => c.size + m.size
  | inAnnotationUse c target _ value => c.size + target.size + value.size Annotation.size
  | inDefault c m value => c.size + m.size + value.size defaultSize
  | closed stub => stub.elim 0 ClassStub.size

/-! ## Modest outcomes -/

/-- The outcome is at most as large as said, or an error that names no offset of its own. -/
def Modest {α : Type} (size : α → Nat) (bound : Nat) : Except ClassError α → Prop
  | .ok a => size a ≤ bound
  | .error e => e.PlacedAt []

section Modest

variable {α β : Type} {size : α → Nat} {size' : β → Nat} {m n : Nat} {x : Except ClassError α}
  {f : α → Except ClassError β}

lemma Modest.bind (hx : Modest size m x) (hf : ∀ a, size a ≤ m → Modest size' n (f a)) :
    Modest size' n (x >>= f) := by
  cases x with
  | error e => exact hx
  | ok a => exact hf a hx

lemma Modest.map {g : α → β} (hx : Modest size m x) (h : ∀ a, size a ≤ m → size' (g a) ≤ n) :
    Modest size' n (x >>= fun a => pure (g a)) :=
  hx.bind h

lemma Modest.le (hx : Modest size m x) (h : m ≤ n) : Modest size n x := by
  cases x with
  | error e => exact hx
  | ok a => exact Nat.le_trans hx h

lemma modest_inconsistent (v : Violation) :
    Modest size n (.error (.inconsistent v) : Except ClassError α) := nofun

lemma modest_malformed {d : Defect} (h : ∀ needed left, d ≠ .endOfInput needed left) :
    Modest size n (.error (.malformed 0 d) : Except ClassError α) := by
  rintro _ _ ⟨⟩
  exact ⟨.inl rfl, h⟩

end Modest

lemma modest_field (text : String) : Modest (fun _ => 0) 0 (Descriptor.field text) := by
  unfold Descriptor.field
  split
  · exact Nat.le_refl 0
  · exact nofun

lemma modest_method (text : String) : Modest (fun _ => 0) 0 (Descriptor.method text) := by
  unfold Descriptor.method
  split
  · exact Nat.le_refl 0
  · exact nofun

/-! ## Values -/

lemma modest_add_element (a : Annotation) (name : Option String) (v : Value) :
    Modest Annotation.size (a.size + v.size) (a.add name v) := by
  unfold Annotation.add
  split
  · exact modest_inconsistent _
  · next name =>
    unfold Annotation.insert?
    cases a.get? name with
    | some _ => exact modest_malformed nofun
    | none =>
      refine Nat.le_of_eq ?_
      simp only [Value.size, Value.elementsSize_concat, Annotation.size, Annotation.toValue,
        Nat.add_assoc]

lemma modest_addDefault (root : Option Value) (name : Option String) (v : Value) :
    Modest defaultSize (defaultSize root + v.size) (addDefault root name v) := by
  unfold addDefault
  split
  · exact modest_inconsistent _
  · exact modest_inconsistent _
  · exact Nat.le_add_left _ _

lemma modest_add_part (k : Compound) (name : Option String) (v : Value) :
    Modest Compound.size (k.size + v.size) (k.add name v) := by
  cases k with
  | array own items =>
    cases name with
    | none =>
      refine Nat.le_of_eq ?_
      simp only [Compound.size, Compound.value, Value.size, Value.itemsSize_concat, Nat.add_assoc]
    | some name => exact modest_inconsistent _
  | annotated own a => exact (modest_add_element a name v).map fun a' h => h

lemma ValueDraft.size_push {ρ : Type} (rootSize : ρ → Nat) (d : ValueDraft ρ) (k : Compound) :
    (d.push k).size rootSize = d.size rootSize + k.size := by
  simp only [size, push, totalSize]
  omega

section Drafts

variable {ρ : Type} [ValueRoot ρ] {rootSize : ρ → Nat}
  (hroot : ∀ root name v, Modest rootSize (rootSize root + v.size) (ValueRoot.add root name v))

namespace ValueDraft

include hroot

lemma modest_add (d : ValueDraft ρ) (name : Option String) (v : Value) :
    Modest (size rootSize) (d.size rootSize + v.size) (d.add name v) := by
  obtain ⟨_ | ⟨k, ks⟩, root⟩ := d
  · refine (hroot root name v).map fun root' h => ?_
    simp only [size] at h ⊢
    omega
  · refine (modest_add_part k name v).map fun k' h => ?_
    simp only [size, totalSize] at h ⊢
    omega

lemma modest_add_single (d : ValueDraft ρ) (name : Option String) {v : Value} (h : v.size = 1) :
    Modest (Progress.size rootSize) (d.size rootSize + 1)
      (d.add name v >>= fun d => pure (.pending d)) := by
  refine (modest_add hroot d name v).map fun d' hd => ?_
  rwa [h] at hd

lemma modest_close (d : ValueDraft ρ) :
    Modest (Progress.size rootSize) (d.size rootSize) d.close := by
  obtain ⟨_ | ⟨k, ks⟩, root⟩ := d
  · exact Nat.le_add_left _ _
  · refine (modest_add hroot ⟨ks, root⟩ k.name k.value).map fun d' h => ?_
    simp only [size, Progress.size, totalSize, Compound.size] at h ⊢
    omega

/-- An event adds one to an open value at most. -/
lemma modest_accept (d : ValueDraft ρ) (e : ClassEvent) :
    Modest (Progress.size rootSize) (d.size rootSize + 1) (d.accept e) := by
  cases e with
  | scalar name s => exact modest_add_single hroot d name rfl
  | enumValue name descriptor constant =>
    exact (modest_field descriptor).bind fun t _ => modest_add_single hroot d name rfl
  | classValue name descriptor =>
    exact (modest_field descriptor).bind fun t _ => modest_add_single hroot d name rfl
  | arrayStart name => exact Nat.le_of_eq (size_push rootSize d _)
  | nestedAnnotationStart name descriptor =>
    exact (modest_field descriptor).map fun t _ => Nat.le_of_eq (size_push rootSize d _)
  | valueEnd => exact (modest_close hroot d).le (Nat.le_succ _)
  | _ => exact modest_inconsistent _

end ValueDraft

end Drafts

/-! ## Declarations -/

namespace StubDraft

lemma size_addAnnotationUse (c : ClassDraft) (target : AnnotationTarget) (use : AnnotationUse) :
    (addAnnotationUse c use target).size = c.size + target.size + use.value.size := by
  cases target with
  | onClass =>
    simp only [addAnnotationUse, size, ClassDraft.size, ClassDraft.build, ClassStub.size,
      AnnotationUse.totalSize, AnnotationTarget.size, totalSize_concat]
    omega
  | onField f =>
    simp only [addAnnotationUse, size, FieldStub.size, AnnotationUse.totalSize,
      AnnotationTarget.size, totalSize_concat]
    omega
  | onMethod m =>
    simp only [addAnnotationUse, size, MethodStub.size, AnnotationUse.totalSize,
      AnnotationTarget.size, totalSize_concat]
    omega

/-- An annotation is opened: it is one value so far. -/
lemma modest_annotationStart (c : ClassDraft) (target : AnnotationTarget) (descriptor : String)
    (isVisible : Bool) :
    Modest size (c.size + target.size + 1) (do
      return inAnnotationUse c target isVisible (← ValueDraft.annotationOf descriptor)) := by
  have hopened : Modest (ValueDraft.size Annotation.size) 1 (ValueDraft.annotationOf descriptor) :=
    (modest_field descriptor).map fun t _ => Nat.le_refl _
  exact hopened.map fun value h => Nat.add_le_add_left h _

lemma modest_stepAnnotationUse (c : ClassDraft) (target : AnnotationTarget) (isVisible : Bool)
    (value : ValueDraft Annotation) (e : ClassEvent) :
    Modest size ((inAnnotationUse c target isVisible value).size + 1)
      (stepAnnotationUse c target isVisible value e) := by
  refine (ValueDraft.modest_accept modest_add_element value e).bind fun p hp => ?_
  cases p with
  | pending value' =>
    show c.size + target.size + value'.size Annotation.size ≤ _
    simp only [size, Progress.size] at hp ⊢
    omega
  | complete root =>
    show (addAnnotationUse c ⟨root, isVisible⟩ target).size ≤ _
    rw [size_addAnnotationUse]
    simp only [size, Progress.size] at hp ⊢
    omega

lemma modest_finish (root : Option Value) :
    Modest Value.size (defaultSize root) (Progress.complete root).finish := by
  cases root with
  | none => exact modest_inconsistent _
  | some v => exact Nat.le_refl _

lemma modest_stepDefault (c : ClassDraft) (m : MethodStub) (value : ValueDraft (Option Value))
    (e : ClassEvent) :
    Modest size ((inDefault c m value).size + 1) (stepDefault c m value e) := by
  refine (ValueDraft.modest_accept modest_addDefault value e).bind fun p hp => ?_
  cases p with
  | pending value' =>
    show c.size + m.size + value'.size defaultSize ≤ _
    simp only [size, Progress.size] at hp ⊢
    omega
  | complete root =>
    refine (modest_finish root).map fun v hv => ?_
    simp only [size, Progress.size, MethodStub.size, Option.elim_some] at hp ⊢
    omega

lemma size_addInnerClass_le (c : ClassDraft) (inner : String) (outer simpleName : Option String)
    (access : Access) : (c.addInnerClass inner outer simpleName access).size ≤ c.size + 1 := by
  unfold ClassDraft.addInnerClass
  split
  · exact Nat.le_succ _
  · split
    · split
      · simp only [ClassDraft.size, ClassDraft.build, ClassStub.size, List.length_append,
          List.length_singleton]
        omega
      · exact Nat.le_succ _
    · exact Nat.le_succ _

lemma modest_stepClass (c : ClassDraft) (e : ClassEvent) :
    Modest size (c.size + 1) (stepClass c e) := by
  cases e with
  | fieldStart access name descriptor =>
    exact (modest_field descriptor).map fun t _ => Nat.le_refl _
  | methodStart access name descriptor =>
    exact (modest_method descriptor).map fun t _ => Nat.le_refl _
  | innerClass inner outer simpleName access => exact size_addInnerClass_le c _ _ _ _
  | signature text => exact Nat.le_succ _
  | annotationStart descriptor isVisible => exact modest_annotationStart c .onClass _ _
  | classEnd => exact Nat.le_succ _
  | _ => exact modest_inconsistent _

lemma modest_stepField (c : ClassDraft) (f : FieldStub) (e : ClassEvent) :
    Modest size (c.size + f.size + 1) (stepField c f e) := by
  cases e with
  | fieldConstant value =>
    unfold stepField
    simp only
    split
    · exact modest_malformed nofun
    · simp only [Modest, size, FieldStub.size, Option.toList, List.length_singleton]
      omega
  | signature text => exact Nat.le_succ _
  | annotationStart descriptor isVisible => exact modest_annotationStart c (.onField f) _ _
  | fieldEnd =>
    simp only [stepField, Modest, size, ClassDraft.size, ClassDraft.build, ClassStub.size,
      totalSize_concat]
    omega
  | _ => exact modest_inconsistent _

lemma modest_stepMethod (c : ClassDraft) (m : MethodStub) (e : ClassEvent) :
    Modest size (c.size + m.size + 1) (stepMethod c m e) := by
  cases e with
  | exceptions names => exact Nat.le_succ _
  | signature text => exact Nat.le_succ _
  | annotationStart descriptor isVisible => exact modest_annotationStart c (.onMethod m) _ _
  | annotationDefault =>
    unfold stepMethod
    simp only
    split
    · exact modest_malformed nofun
    · exact Nat.le_succ _
  | methodEnd =>
    simp only [stepMethod, Modest, size, ClassDraft.size, ClassDraft.build, ClassStub.size,
      totalSize_concat]
    omega
  | _ => exact modest_inconsistent _

/-- An event adds one to a draft at most, or is refused with an error that names no offset. -/
theorem modest_step (d : StubDraft) (e : ClassEvent) : Modest size (d.size + 1) (d.step e) := by
  cases d with
  | awaitingClass =>
    cases e with
    | classStart version access name superName interfaces => exact Nat.zero_le _
    | _ => exact modest_inconsistent _
  | inClass c => exact modest_stepClass c e
  | inField c f => exact modest_stepField c f e
  | inMethod c m => exact modest_stepMethod c m e
  | inAnnotationUse c target isVisible value =>
    exact modest_stepAnnotationUse c target isVisible value e
  | inDefault c m value => exact modest_stepDefault c m value e
  | closed stub => exact modest_inconsistent _

lemma size_abandon_le (d : StubDraft) : d.abandon.size ≤ d.size := by
  cases d with
  | closed stub => exact Nat.le_refl _
  | _ => exact Nat.zero_le _

lemma costs_visitor : visitor.Costs size := by
  intro e d
  have hstep := modest_step d e
  simp only [visitor]
  cases h : d.step e with
  | error x => exact Nat.le_trans (size_abandon_le d) (Nat.le_succ _)
  | ok d' => rwa [h] at hstep

/-- The errors of drafts are placed at the start of a file, if anywhere. -/
lemma placedAt_of_raises {e : ClassError} {event : ClassEvent} {d : StubDraft}
    (h : (visitor.visit event d).1 = .error e) : e.PlacedAt [] := by
  have hstep := modest_step d event
  simp only [visitor] at h
  cases hs : d.step event with
  | error x =>
    rw [hs] at h hstep
    cases h
    exact hstep
  | ok d' =>
    rw [hs] at h
    cases h

end StubDraft

/-- A stub is no larger than the file that it is read from. -/
lemma ClassStub.size_le {bytes : List UInt8} {c : ClassStub} (h : ofBytes bytes = .ok c) :
    c.size ≤ bytes.length := by
  have hcost := scanClass_cost_le StubDraft.costs_visitor bytes .awaitingClass
  unfold ofBytes at h
  rcases hrun : scanClass StubDraft.visitor bytes .awaitingClass with ⟨e | ⟨⟩, d⟩
  · rw [hrun] at h
    cases h
  · rw [hrun] at h hcost
    simp only [StubDraft.finish] at h
    split at h
    · cases h
      rwa [StubDraft.size, StubDraft.size, Nat.zero_add] at hcost
    · cases h

/-- Class files do not amplify.  A scan of any bytes, accepted or not, hands over no more events
than there are bytes: a log has no more, and no visitor is handed more, as counting its events
shows.  So the members, the annotations and the values of a stub are no more in all than the bytes
that it is read from. -/
theorem scanClass_doesNotAmplify (bytes : List UInt8) :
    (classEvents bytes).2.length ≤ bytes.length ∧
      (∀ {σ : Type} (v : Visitor σ) (s : σ),
        (scanClass v.counting bytes (s, 0)).1 = (scanClass v bytes s).1 ∧
        (scanClass v.counting bytes (s, 0)).2.1 = (scanClass v bytes s).2 ∧
        (scanClass v.counting bytes (s, 0)).2.2 ≤ bytes.length) ∧
      ∀ c, ClassStub.ofBytes bytes = .ok c → c.size ≤ bytes.length := by
  refine ⟨length_classEvents_le bytes, fun v s => ?_, fun c h => ClassStub.size_le h⟩
  obtain ⟨hresult, hstate⟩ := v.scanClass_counting bytes s 0
  have hcount := scanClass_cost_le v.costs_counting bytes (s, 0)
  exact ⟨hresult, hstate, by rwa [Nat.zero_add] at hcount⟩

end JavaScope
