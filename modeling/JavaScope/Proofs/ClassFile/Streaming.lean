/-
# Streaming and replaying

A visitor that receives the events of a class file while the file is scanned ends up where it
would if all events were first kept and then handed over one by one (`scanClass_replays`).  What a
visitor answers has no influence on what is read next, and its first refusal ends the scan.  A
scan for a visitor *replays* another scan, which keeps its events, if this holds from every cursor
on; replaying composes along the steps of a scan.
-/
import JavaScope.Proofs.ClassFile.Framing
import JavaScope.Stub.Draft

namespace JavaScope

/-! ## Refusals -/

/-- A visitor that refuses one of some events accepted those before it. -/
lemma Visitor.exists_refused {σ : Type} {v : Visitor σ} {es : List ClassEvent} {s t : σ}
    {x : ClassError} (h : v.visitAll es s = (.error x, t)) :
    ∃ before e later t', es = before ++ e :: later ∧ v.visitAll before s = (.ok (), t') ∧
      v.visit e t' = (.error x, t) := by
  induction es generalizing s with
  | nil => cases h
  | cons e es ih =>
    simp only [visitAll] at h
    rcases hv : v.visit e s with ⟨y | ⟨⟩, s'⟩
    · rw [hv] at h
      exact ⟨[], e, es, s, rfl, rfl, hv.trans h⟩
    · rw [hv] at h
      obtain ⟨before, e', later, t', hes, hbefore, hrefused⟩ := ih h
      refine ⟨e :: before, e', later, t', by simp [hes], ?_, hrefused⟩
      simp only [visitAll, hv]
      exact hbefore

/-! ## Scans -/

/-- From every cursor, the scan `x` hands the visitor `v` the events that the scan `kept` keeps,
and goes on to the end of that scan if the visitor accepts them all. -/
def Scan.Replays {σ α : Type} (v : Visitor σ) (x : Scan σ α) (kept : Scan (List ClassEvent) α) :
    Prop :=
  ∀ c s log, ∃ es, (kept c log).2 = es.reverse ++ log ∧
    x c s =
      match v.visitAll es s with
      | (.ok (), s) => ((kept c log).1, s)
      | (.error e, s) => (.error e, s)

namespace Scan

variable {σ α β : Type} {v : Visitor σ} {x : Scan σ α} {y : Scan (List ClassEvent) α}
  {f : α → Scan σ β} {g : α → Scan (List ClassEvent) β}

lemma replays_pure (a : α) : Replays v (pure a) (pure a) := fun _ _ _ => ⟨[], rfl, rfl⟩

lemma Replays.bind (hx : Replays v x y) (hf : ∀ a, Replays v (f a) (g a)) :
    Replays v (x >>= f) (y >>= g) := by
  intro c s log
  obtain ⟨es, hlog, hrun⟩ := hx c s log
  rw [bind_apply, bind_apply]
  rcases hy : y c log with ⟨error | ⟨a, c'⟩, log'⟩
  · -- the file has a defect in the first part
    rw [hy] at hlog hrun
    refine ⟨es, hlog, ?_⟩
    rw [hrun]
    rcases v.visitAll es s with ⟨e | ⟨⟩, s'⟩ <;> rfl
  · rw [hy] at hlog hrun
    rcases hes : v.visitAll es s with ⟨e | ⟨⟩, s'⟩
    · -- the visitor refuses an event of the first part, and the second is not scanned
      obtain ⟨fs, hlog', -⟩ := hf a c' s log'
      refine ⟨es ++ fs, by simp_all, ?_⟩
      rw [hrun, Visitor.visitAll_append, hes]
    · obtain ⟨fs, hlog', hrun'⟩ := hf a c' s' log'
      refine ⟨es ++ fs, by simp_all, ?_⟩
      rw [hrun, Visitor.visitAll_append, hes]
      exact hrun'

lemma replays_read (x : Read α) : Replays v (read x) (read x) := fun _ _ _ => ⟨[], rfl, rfl⟩

lemma Replays.after_read {x : Read α} (hf : ∀ a, Replays v (f a) (g a)) :
    Replays v (read x >>= f) (read x >>= g) :=
  (replays_read x).bind hf

lemma replays_emit (e : ClassEvent) : Replays v (emit v e) (emit Visitor.log e) := by
  intro c s log
  refine ⟨[e], rfl, ?_⟩
  simp only [emit, Visitor.visitAll]
  rcases v.visit e s with ⟨x | ⟨⟩, s'⟩ <;> rfl

lemma replays_times {x : Scan σ Unit} {y : Scan (List ClassEvent) Unit} (h : Replays v x y)
    (n : Nat) : Replays v (times n x) (times n y) := by
  induction n with
  | zero => exact replays_pure ()
  | succ n ih => exact h.bind fun _ => ih

lemma replays_within (n : Nat) (h : Replays v x y) : Replays v (within n x) (within n y) := by
  intro c s log
  simp only [within]
  rcases Read.bytes n c with error | ⟨slice, after⟩
  · exact ⟨[], rfl, rfl⟩
  · obtain ⟨es, hlog, hrun⟩ := h ⟨c.offset, slice⟩ s log
    refine ⟨es, ?_, ?_⟩
    · simp only
      rw [← hlog]
      rcases y ⟨c.offset, slice⟩ log with ⟨error | ⟨a, c'⟩, log'⟩ <;> rfl
    · simp only
      rw [hrun]
      rcases v.visitAll es s with ⟨e | ⟨⟩, s'⟩
      · rfl
      · simp only
        rcases y ⟨c.offset, slice⟩ log with ⟨error | ⟨a, c'⟩, log'⟩ <;> rfl

/-! ## Element values -/

variable (v) (p : Pool)

lemma replays_elements {value : Option String → Scan σ Unit}
    {value' : Option String → Scan (List ClassEvent) Unit}
    (h : ∀ name, Replays v (value name) (value' name)) :
    Replays v (elements p value) (elements p value') := by
  refine Replays.after_read fun count => replays_times ?_ _
  exact Replays.after_read fun name => h (some name)

lemma replays_elementValue (budget : Nat) (name : Option String) :
    Replays v (elementValue v p budget name) (elementValue Visitor.log p budget name) := by
  induction budget generalizing name with
  | zero => exact replays_read _
  | succ budget ih =>
    refine Replays.after_read fun head => ?_
    cases head with
    | whole event => exact replays_emit event
    | array length =>
      refine (replays_emit _).bind fun _ => ?_
      exact (replays_times (ih none) _).bind fun _ => replays_emit _
    | annotated descriptor =>
      refine (replays_emit _).bind fun _ => ?_
      exact (replays_elements v p ih).bind fun _ => replays_emit _

lemma replays_annotations (isVisible : Bool) :
    Replays v (annotations v p isVisible) (annotations Visitor.log p isVisible) := by
  refine Replays.after_read fun count => replays_times ?_ _
  refine Replays.after_read fun descriptor => (replays_emit _).bind fun _ => ?_
  have hvalues := replays_elements v p (replays_elementValue v p maxValueDepth)
  exact hvalues.bind fun _ => replays_emit _

/-! ## Attributes -/

lemma replays_attributeBody (a : Attribute) :
    Replays v (attributeBody v p a) (attributeBody Visitor.log p a) := by
  cases a with
  | constantValue descriptor =>
    refine Replays.after_read fun index => Replays.after_read fun constant => ?_
    cases constant with
    | none => exact replays_pure ()
    | some value => exact replays_emit _
  | signature => exact Replays.after_read fun text => replays_emit _
  | exceptions =>
    exact Replays.after_read fun count => Replays.after_read fun names => replays_emit _
  | annotationDefault =>
    refine (replays_emit _).bind fun _ => ?_
    exact (replays_elementValue v p _ none).bind fun _ => replays_emit _
  | innerClasses =>
    refine Replays.after_read fun count => replays_times ?_ _
    exact Replays.after_read fun entry => replays_emit entry
  | annotations isVisible => exact replays_annotations v p isVisible

lemma replays_attributes (element : Element) :
    Replays v (attributes v p element) (attributes Visitor.log p element) := by
  refine Replays.after_read fun count => replays_times ?_ _
  refine Replays.after_read fun name => Replays.after_read fun length => replays_within _ ?_
  cases element.attribute? name with
  | none => exact replays_pure ()
  | some a => exact (replays_attributeBody v p a).bind fun _ => replays_read _

/-! ## Members and classes -/

lemma replays_member (start : Access → String → String → ClassEvent)
    (element : String → Element) (last : ClassEvent) :
    Replays v (member v p start element last) (member Visitor.log p start element last) := by
  refine Replays.after_read fun access => Replays.after_read fun name => ?_
  refine Replays.after_read fun descriptor => (replays_emit _).bind fun _ => ?_
  exact (replays_attributes v p (element descriptor)).bind fun _ => replays_emit _

lemma replays_field : Replays v (field v p) (field Visitor.log p) :=
  replays_member v p .fieldStart .ofField .fieldEnd

lemma replays_method : Replays v (method v p) (method Visitor.log p) :=
  replays_member v p .methodStart (fun _ => .ofMethod) .methodEnd

lemma replays_classBody (version : ClassVersion) :
    Replays v (classBody v p version) (classBody Visitor.log p version) := by
  refine Replays.after_read fun access => Replays.after_read fun name => ?_
  refine Replays.after_read fun superName => Replays.after_read fun interfaceCount => ?_
  refine Replays.after_read fun interfaces => (replays_emit _).bind fun _ => ?_
  refine Replays.after_read fun fieldCount => (replays_times (replays_field v p) _).bind fun _ => ?_
  refine Replays.after_read fun methodCount => ?_
  refine (replays_times (replays_method v p) _).bind fun _ => ?_
  refine (replays_attributes v p .ofClass).bind fun _ => ?_
  exact Replays.after_read fun _ => replays_emit _

lemma replays_classFile : Replays v (classFile v) (classFile Visitor.log) :=
  Replays.after_read fun version => Replays.after_read fun p => replays_classBody v p version

end Scan

/-! ## Class files -/

/-- A scan for a visitor gives the result and the state that handing over the kept events gives. -/
lemma scanClass_eq_visitAll {σ : Type} (v : Visitor σ) (bytes : List UInt8) (s : σ) :
    scanClass v bytes s =
      match v.visitAll (classEvents bytes).2 s with
      | (.ok (), t) => ((classEvents bytes).1, t)
      | (.error x, t) => (.error x, t) := by
  obtain ⟨es, hlog, hrun⟩ := Scan.replays_classFile v (Cursor.start bytes) s []
  have hkept : (classEvents bytes).2 = es := by
    show (Scan.classFile Visitor.log (Cursor.start bytes) []).2.reverse = es
    simp [hlog]
  rw [hkept]
  simp only [scanClass, hrun]
  rcases v.visitAll es s with ⟨x | ⟨⟩, t⟩ <;> rfl

/-- A class file that is scanned for a visitor gives the visitor its events as if they had been
kept first.  If the visitor accepts all of them, the scan has the result of the scan that keeps
them.  If the visitor refuses one, then the scan ends with its error, in the state in which it
refuses the event after all those before; it is not shown any later event.  So the stub of a class
file is the one that is assembled from the kept events. -/
theorem scanClass_replays {σ : Type} (v : Visitor σ) (bytes : List UInt8) (s : σ) :
    (match v.visitAll (classEvents bytes).2 s with
      | (.ok (), t) => scanClass v bytes s = ((classEvents bytes).1, t)
      | (.error x, t) => scanClass v bytes s = (.error x, t) ∧
          ∃ before e later t', (classEvents bytes).2 = before ++ e :: later ∧
            v.visitAll before s = (.ok (), t') ∧ v.visit e t' = (.error x, t)) ∧
      ClassStub.ofBytes bytes =
        match StubDraft.visitor.visitAll (classEvents bytes).2 .awaitingClass with
        | (.ok (), draft) => (classEvents bytes).1.bind fun _ => draft.finish
        | (.error x, _) => .error x := by
  constructor
  · have hscan := scanClass_eq_visitAll v bytes s
    rcases hv : v.visitAll (classEvents bytes).2 s with ⟨x | ⟨⟩, t⟩
    · rw [hv] at hscan
      exact ⟨hscan, Visitor.exists_refused hv⟩
    · rw [hv] at hscan
      exact hscan
  · rw [ClassStub.ofBytes, scanClass_eq_visitAll]
    rcases StubDraft.visitor.visitAll (classEvents bytes).2 .awaitingClass with ⟨x | ⟨⟩, draft⟩
    · rfl
    · rcases (classEvents bytes).1 with x | ⟨⟩ <;> rfl

end JavaScope
