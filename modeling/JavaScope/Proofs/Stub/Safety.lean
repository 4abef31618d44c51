/-
# Only the bytes are to blame

No bytes whatever make a scan hand over an event that a class draft does not expect.  Each
part of a scan is shown to lead from drafts that wait for this part to drafts that have got
it; errors on the way are about the input.  So every class file gives a stub or an error about
the input (`ofBytes_aboutInput`).
-/
import JavaScope.Proofs.ClassFile.Safety
import JavaScope.Proofs.Stub.Assembly

namespace JavaScope

open Scan (Leads leads_read leads_times leads_exists)

namespace StubDraft

lemma leads_step {P Q : StubDraft → Prop} {e : ClassEvent}
    (h : ∀ d, P d → Yields (d.step e) Q) : Leads P (Scan.emit visitor e) fun _ s => Q s := by
  refine Scan.leads_emit fun d hd => ?_
  have hstep := h d hd
  simp only [visitor]
  cases hs : d.step e with
  | error x => rwa [hs] at hstep
  | ok d' => rwa [hs] at hstep

/-! ## Values -/

section Values

variable {ρ : Type} [ValueRoot ρ] {place : ValueDraft ρ → StubDraft}

lemma Carries.step (hplace : Carries place) {w : ValueDraft ρ} {e : ClassEvent}
    {Q : StubDraft → Prop}
    (h : Yields (w.accept e) fun p => ∃ w', p = .pending w' ∧ Q (place w')) :
    Yields ((place w).step e) Q := by
  have hstep := hplace w e
  rcases haccept : w.accept e with x | ⟨w' | r⟩
  · rw [haccept] at h hstep
    rw [hstep]
    exact h
  · rw [haccept] at h hstep
    obtain ⟨w₁, hw, hq⟩ := h
    cases hw
    rw [hstep]
    exact hq
  · rw [haccept] at h
    obtain ⟨w₁, hw, -⟩ := h
    cases hw

/-- The draft takes any value of this name, or the input is to blame. -/
def Takes (w : ValueDraft ρ) (name : Option String) : Prop :=
  ∀ v, Yields (w.add name v) fun _ => True

/-- The drafts that have got a value of this name. -/
def Got (place : ValueDraft ρ → StubDraft) (w : ValueDraft ρ) (name : Option String)
    (d : StubDraft) : Prop :=
  ∃ v w', w.add name v = .ok w' ∧ d = place w'

lemma yields_add {w : ValueDraft ρ} {name : Option String} (h : Takes w name) (v : Value) :
    Yields (w.add name v >>= fun w' => pure (Progress.pending w')) fun p =>
      ∃ w', p = .pending w' ∧ Got place w name (place w') := by
  have hadd := h v
  cases hv : w.add name v with
  | error x => rwa [hv] at hadd
  | ok w' => exact ⟨w', rfl, v, w', hv, rfl⟩

lemma takes_array (w : ValueDraft ρ) (own : Option String) (items : List Value) :
    Takes (w.push (.array own items)) none := by
  intro v
  rw [add_push]
  trivial

lemma yields_add_element (a : Annotation) (name : String) (v : Value) :
    Yields (a.add (some name) v) fun _ => True := by
  unfold Annotation.add
  simp only
  cases a.insert? name v <;> trivial

/-- The scan of the elements of an annotation leaves the annotation open where it is. -/
lemma leads_annotationElements {spot : Annotation → ValueDraft ρ} (hspot : Holds spot) (p : Pool)
    {budget : Nat}
    (hvalue : ∀ name w, Takes w name → Leads (fun d => d = place w)
      (Scan.elementValue visitor p budget name) fun _ d => Got place w name d) :
    Leads (fun d => ∃ a, d = place (spot a))
      (Scan.elements p fun name => Scan.elementValue visitor p budget name)
      fun _ d => ∃ a, d = place (spot a) := by
  refine Scan.leads_elements p fun name => leads_exists fun a => ?_
  have htakes : Takes (spot a) (some name) := by
    intro v
    have hadd := yields_add_element a name v
    rw [hspot]
    cases h : a.add (some name) v with
    | error x => rwa [h] at hadd
    | ok a' => trivial
  refine (hvalue (some name) (spot a) htakes).post ?_
  rintro _ d ⟨v, w', hadd, rfl⟩
  rw [hspot] at hadd
  cases h : a.add (some name) v with
  | error x =>
    rw [h] at hadd
    cases hadd
  | ok a' =>
    rw [h] at hadd
    exact ⟨a', by rw [← Except.ok.inj hadd]⟩

/-- A scan of an element value leads from a draft that takes it to one that has got it. -/
theorem leads_elementValue (hplace : Carries place) (p : Pool) (budget : Nat)
    (name : Option String) (w : ValueDraft ρ) (hw : Takes w name) :
    Leads (fun d => d = place w) (Scan.elementValue visitor p budget name)
      fun _ d => Got place w name d := by
  induction budget generalizing name w with
  | zero =>
    have hfail : (do Read.fail (.malformed (← Read.offset) .nestedTooDeeply) : Read Unit).Gives
        fun _ => False := Read.gives_offset.bind fun _ _ => Read.gives_fail trivial
    exact (leads_read hfail).post fun _ d hd => hd.1.elim
  | succ budget ih =>
    refine (leads_read (Read.gives_readValueHead p name)).bind fun head => ?_
    cases head with
    | whole e =>
      -- a single event: the value is complete
      refine leads_step ?_
      rintro d ⟨he, rfl⟩
      refine hplace.step ?_
      rcases he e rfl with ⟨s, rfl⟩ | ⟨t, k, rfl⟩ | ⟨t, rfl⟩
      · exact yields_add hw _
      · exact (yields_field t).bind fun t _ => yields_add hw _
      · exact (yields_field t).bind fun t _ => yields_add hw _
    | array length =>
      -- the array stays open over its items and is then added to what is around it
      have hopen : ∀ d, d = place w → Yields (d.step (.arrayStart name))
          fun d => ∃ items, d = place (w.push (.array name items)) := by
        rintro d rfl
        exact hplace.step ⟨_, rfl, [], rfl⟩
      have hitem : Leads (fun d => ∃ items, d = place (w.push (.array name items)))
          (Scan.elementValue visitor p budget none)
          fun _ d => ∃ items, d = place (w.push (.array name items)) := by
        refine leads_exists fun items => (ih none _ (takes_array w name items)).post ?_
        rintro _ d ⟨v, w', hadd, rfl⟩
        exact ⟨items ++ [v], by rw [← Except.ok.inj hadd]; rfl⟩
      have hclose : ∀ d, (∃ items, d = place (w.push (.array name items))) →
          Yields (d.step .valueEnd) fun d => Got place w name d := by
        rintro d ⟨items, rfl⟩
        exact hplace.step (yields_add hw (.array items))
      refine ((leads_step hopen).pre fun d hd => hd.2).bind fun _ => ?_
      exact (leads_times hitem _).bind fun _ => leads_step hclose
    | annotated descriptor =>
      -- so does the annotation, but its elements may have to be refused
      have hopen : ∀ d, d = place w → Yields (d.step (.nestedAnnotationStart name descriptor))
          fun d => ∃ a, d = place (w.push (.annotated name a)) := by
        rintro d rfl
        refine hplace.step ((yields_field descriptor).bind fun t _ => ?_)
        exact ⟨_, rfl, ⟨t, []⟩, rfl⟩
      have helements := leads_annotationElements (holds_push w name) p ih
      have hclose : ∀ d, (∃ a, d = place (w.push (.annotated name a))) →
          Yields (d.step .valueEnd) fun d => Got place w name d := by
        rintro d ⟨a, rfl⟩
        exact hplace.step (yields_add hw a.toValue)
      refine ((leads_step hopen).pre fun d hd => hd.2).bind fun _ => ?_
      exact helements.bind fun _ => leads_step hclose

end Values

/-! ## Attributes -/

/-- The draft waits for more about an element of this sort. -/
def Awaits : Element → StubDraft → Prop
  | .ofClass, d => ∃ c, d = inClass c
  | .ofField _, d => ∃ c f, d = inField c f
  | .ofMethod, d => ∃ c m, d = inMethod c m

lemma Awaits.draft_eq {element : Element} {d : StubDraft} (h : Awaits element d) :
    ∃ c target, d = AnnotationTarget.draft c target ∧
      ∀ use, Awaits element (addAnnotationUse c use target) := by
  cases element with
  | ofClass =>
    obtain ⟨c, rfl⟩ := h
    exact ⟨c, .onClass, rfl, fun use => ⟨_, rfl⟩⟩
  | ofField descriptor =>
    obtain ⟨c, f, rfl⟩ := h
    exact ⟨c, .onField f, rfl, fun use => ⟨_, _, rfl⟩⟩
  | ofMethod =>
    obtain ⟨c, m, rfl⟩ := h
    exact ⟨c, .onMethod m, rfl, fun use => ⟨_, _, rfl⟩⟩

lemma step_annotationStart (c : ClassDraft) (target : AnnotationTarget) (descriptor : String)
    (isVisible : Bool) :
    (target.draft c).step (.annotationStart descriptor isVisible) =
      (Descriptor.field descriptor).map fun t =>
        inAnnotationUse c target isVisible ⟨[], ⟨t, []⟩⟩ := by
  cases target <;>
    · simp only [AnnotationTarget.draft, step, stepClass, stepField, stepMethod,
        ValueDraft.annotationOf]
      cases Descriptor.field descriptor <;> rfl

/-- The draft has an open annotation on an element of this sort. -/
def Annotating (element : Element) (isVisible : Bool) (d : StubDraft) : Prop :=
  ∃ c target, (∀ use, Awaits element (addAnnotationUse c use target)) ∧
    ∃ root, d = inAnnotationUse c target isVisible ⟨[], root⟩

/-- The annotations on a declaration leave its draft waiting. -/
lemma leads_annotations (element : Element) (p : Pool) (isVisible : Bool) :
    Leads (Awaits element) (Scan.annotations visitor p isVisible) fun _ d => Awaits element d := by
  refine (leads_read Read.stepwise_u16.gives).bind fun count => ?_
  refine (leads_times ?_ _).pre fun d hd => hd.2
  refine (leads_read (Read.stepwise_readUtf8 p).gives).bind fun descriptor => ?_
  have hopen : ∀ d, Awaits element d → Yields (d.step (.annotationStart descriptor isVisible))
      (Annotating element isVisible) := by
    intro d hd
    obtain ⟨c, target, rfl, hafter⟩ := hd.draft_eq
    rw [step_annotationStart]
    have hfield := yields_field descriptor
    cases h : Descriptor.field descriptor with
    | error x => rwa [h] at hfield
    | ok t => exact ⟨c, target, hafter, ⟨t, []⟩, rfl⟩
  have helements : Leads (Annotating element isVisible)
      (Scan.elements p (Scan.elementValue visitor p maxValueDepth))
      fun _ d => Annotating element isVisible d := by
    refine leads_exists fun c => leads_exists fun target => ?_
    refine (Scan.leads_and fun _ => ?_).post fun _ d h => ⟨c, target, h⟩
    exact leads_annotationElements holds_root p
      (leads_elementValue (carries_annotationUse c target isVisible) p maxValueDepth)
  have hclose : ∀ d, Annotating element isVisible d →
      Yields (d.step .valueEnd) (Awaits element) := by
    rintro d ⟨c, target, hafter, root, rfl⟩
    exact hafter ⟨root, isVisible⟩
  refine ((leads_step hopen).pre fun d hd => hd.2).bind fun _ => ?_
  exact helements.bind fun _ => leads_step hclose

/-- An annotation default leaves the draft of its method waiting. -/
lemma leads_annotationDefault (p : Pool) :
    Leads (Awaits .ofMethod) (Scan.attributeBody visitor p .annotationDefault)
      fun _ d => Awaits .ofMethod d := by
  have hopen : ∀ d, Awaits .ofMethod d → Yields (d.step .annotationDefault)
      fun d => ∃ c m, d = inDefault c m ValueDraft.ofDefault := by
    rintro d ⟨c, m, rfl⟩
    simp only [step, stepMethod]
    cases m.default? with
    | none => exact ⟨c, m, rfl⟩
    | some v => trivial
  have htakes : Takes ValueDraft.ofDefault none := fun v => trivial
  have hvalue : Leads (fun d => ∃ c m, d = inDefault c m ValueDraft.ofDefault)
      (Scan.elementValue visitor p (maxValueDepth + 1) none)
      fun _ d => ∃ c m v, d = inDefault c m ⟨[], some v⟩ := by
    refine leads_exists fun c => leads_exists fun m => ?_
    refine (leads_elementValue (carries_default c m) p _ none _ htakes).post ?_
    rintro _ d ⟨v, w', hadd, rfl⟩
    exact ⟨c, m, v, by rw [← Except.ok.inj hadd]; rfl⟩
  have hclose : ∀ d, (∃ c m v, d = inDefault c m ⟨[], some v⟩) →
      Yields (d.step .valueEnd) (Awaits .ofMethod) := by
    rintro d ⟨c, m, v, rfl⟩
    exact ⟨c, _, rfl⟩
  exact (leads_step hopen).bind fun _ => hvalue.bind fun _ => leads_step hclose

lemma step_signature {element : Element} (text : String) :
    ∀ d, Awaits element d → Yields (d.step (.signature text)) (Awaits element) := by
  intro d hd
  cases element with
  | ofClass =>
    obtain ⟨c, rfl⟩ := hd
    exact ⟨_, rfl⟩
  | ofField descriptor =>
    obtain ⟨c, f, rfl⟩ := hd
    exact ⟨_, _, rfl⟩
  | ofMethod =>
    obtain ⟨c, m, rfl⟩ := hd
    exact ⟨_, _, rfl⟩

/-- What a known attribute says leaves the draft of its element waiting. -/
lemma leads_attributeBody {element : Element} {name : String} {a : Attribute} (p : Pool)
    (h : element.attribute? name = some a) :
    Leads (Awaits element) (Scan.attributeBody visitor p a) fun _ d => Awaits element d := by
  rcases attribute?_cases h with rfl | ⟨isVisible, rfl⟩ | ⟨descriptor, rfl, rfl⟩ |
    ⟨rfl, rfl | rfl⟩ | ⟨rfl, rfl⟩
  · refine (leads_read (Read.stepwise_readUtf8 p).gives).bind fun text => ?_
    exact (leads_step (step_signature text)).pre fun d hd => hd.2
  · exact leads_annotations element p isVisible
  · refine (leads_read Read.stepwise_u16.gives).bind fun i => ?_
    have hlook := failsByIndex_fieldConstant p i descriptor
    refine (leads_read (Read.stepwise_ofExcept hlook).gives).bind fun k => ?_
    cases k with
    | none => exact Scan.leads_pure fun d hd => hd.2.2
    | some value =>
      refine leads_step ?_
      rintro d ⟨-, -, c, f, rfl⟩
      simp only [step, stepField]
      cases f.constant with
      | none => exact ⟨c, _, rfl⟩
      | some k => trivial
  · refine (leads_read Read.stepwise_u16.gives).bind fun count => ?_
    refine (leads_read (Read.stepwise_times _ (Read.stepwise_readClassName p)).gives).bind fun names => ?_
    refine leads_step ?_
    rintro d ⟨-, -, c, m, rfl⟩
    exact ⟨c, _, rfl⟩
  · exact leads_annotationDefault p
  · refine (leads_read Read.stepwise_u16.gives).bind fun count => ?_
    refine (leads_times ?_ _).pre fun d hd => hd.2
    refine (leads_read (Read.gives_readInnerClass p)).bind fun e => leads_step ?_
    rintro d ⟨⟨inner, outer, simpleName, access, rfl⟩, c, rfl⟩
    exact ⟨_, rfl⟩

lemma leads_attributes (element : Element) (p : Pool) :
    Leads (Awaits element) (Scan.attributes visitor p element) fun _ d => Awaits element d := by
  refine (leads_read Read.stepwise_u16.gives).bind fun count => ?_
  refine (leads_times ?_ _).pre fun d hd => hd.2
  refine (leads_read (Read.stepwise_readUtf8 p).gives).bind fun name => ?_
  refine (leads_read Read.stepwise_u32.gives).bind fun length => Scan.leads_within ?_
  cases h : element.attribute? name with
  | none => exact Scan.leads_pure fun d hd => hd.2.2
  | some a =>
    refine ((leads_attributeBody p h).pre fun d hd => hd.2.2).bind fun _ => ?_
    exact (leads_read (Read.stepwise_expectEnd name).gives).post fun _ d hd => hd.2

/-! ## Members and classes -/

/-- A member that the draft of a class opens and closes leaves it waiting. -/
lemma leads_member (p : Pool) (element : String → Element)
    {start : Access → String → String → ClassEvent} {last : ClassEvent}
    (hopen : ∀ access name descriptor d, Awaits .ofClass d →
      Yields (d.step (start access name descriptor)) (Awaits (element descriptor)))
    (hclose : ∀ descriptor d, Awaits (element descriptor) d →
      Yields (d.step last) (Awaits .ofClass)) :
    Leads (Awaits .ofClass) (Scan.member visitor p start element last)
      fun _ d => Awaits .ofClass d := by
  refine (leads_read Read.stepwise_u16.gives).bind fun access => ?_
  refine (leads_read (Read.stepwise_readUtf8 p).gives).bind fun name => ?_
  refine (leads_read (Read.stepwise_readUtf8 p).gives).bind fun descriptor => ?_
  refine ((leads_step (hopen access name descriptor)).pre fun d hd => hd.2.2.2).bind fun _ => ?_
  exact (leads_attributes _ p).bind fun _ => leads_step (hclose descriptor)

lemma leads_field (p : Pool) :
    Leads (Awaits .ofClass) (Scan.field visitor p) fun _ d => Awaits .ofClass d := by
  refine leads_member p .ofField ?_ ?_
  · rintro access name descriptor d ⟨c, rfl⟩
    exact (yields_field descriptor).bind fun t _ => ⟨c, _, rfl⟩
  · rintro descriptor d ⟨c, f, rfl⟩
    exact ⟨_, rfl⟩

lemma leads_method (p : Pool) :
    Leads (Awaits .ofClass) (Scan.method visitor p) fun _ d => Awaits .ofClass d := by
  refine leads_member p (fun _ => .ofMethod) ?_ ?_
  · rintro access name descriptor d ⟨c, rfl⟩
    exact (yields_method descriptor).bind fun types _ => ⟨c, _, rfl⟩
  · rintro descriptor d ⟨c, m, rfl⟩
    exact ⟨_, rfl⟩

/-- A scan of a class file leads from the empty draft to a closed one with a stub. -/
theorem leads_classFile :
    Leads (fun d => d = awaitingClass) (Scan.classFile visitor)
      fun _ d => ∃ stub, d = closed (some stub) := by
  refine (leads_read Read.stepwise_classVersion.gives).bind fun version => ?_
  refine (leads_read Read.stepwise_pool.gives).bind fun p => ?_
  refine (leads_read Read.stepwise_u16.gives).bind fun access => ?_
  refine (leads_read (Read.stepwise_readClassName p).gives).bind fun name => ?_
  refine (leads_read (Read.stepwise_readClassName? p).gives).bind fun superName => ?_
  refine (leads_read Read.stepwise_u16.gives).bind fun interfaceCount => ?_
  refine (leads_read (Read.stepwise_times _ (Read.stepwise_readClassName p)).gives).bind fun interfaces => ?_
  have hopen : ∀ d, d = awaitingClass → Yields
      (d.step (.classStart version access name superName interfaces)) (Awaits .ofClass) := by
    rintro d rfl
    exact ⟨_, rfl⟩
  have hclose : ∀ d, Awaits .ofClass d → Yields (d.step .classEnd)
      fun d => ∃ stub, d = closed (some stub) := by
    rintro d ⟨c, rfl⟩
    exact ⟨_, rfl⟩
  refine ((leads_step hopen).pre fun d hd => hd.2.2.2.2.2.2.2).bind fun _ => ?_
  refine (leads_read Read.stepwise_u16.gives).bind fun fieldCount => ?_
  refine ((leads_times (leads_field p) _).pre fun d hd => hd.2).bind fun _ => ?_
  refine (leads_read Read.stepwise_u16.gives).bind fun methodCount => ?_
  refine ((leads_times (leads_method p) _).pre fun d hd => hd.2).bind fun _ => ?_
  refine (leads_attributes _ p).bind fun _ => ?_
  refine (leads_read (Read.stepwise_expectEnd _).gives).bind fun _ => ?_
  exact (leads_step hclose).pre fun d hd => hd.2

end StubDraft

namespace ClassStub

/-- Any bytes give a stub or an error about these bytes: a scan that ends has finished a stub,
and a scan that stops has not met an event out of order. -/
theorem ofBytes_aboutInput (bytes : List UInt8) :
    (∀ d, scanClass StubDraft.visitor bytes .awaitingClass = (.ok (), d) →
        ∃ stub, d = .closed (some stub)) ∧
      (∀ e d, scanClass StubDraft.visitor bytes .awaitingClass = (.error e, d) →
        e.AboutInput) ∧
      ((∃ stub, ofBytes bytes = .ok stub) ∨ ∃ e, ofBytes bytes = .error e ∧ e.AboutInput) := by
  have hrun := StubDraft.leads_classFile (Cursor.start bytes) .awaitingClass rfl
  rcases h : Scan.classFile StubDraft.visitor (Cursor.start bytes) .awaitingClass with
    ⟨e | r, d⟩
  · rw [h] at hrun
    have hscan : scanClass StubDraft.visitor bytes .awaitingClass = (.error e, d) := by
      simp only [scanClass, h]
      rfl
    refine ⟨fun d' hd => ?_, fun e' d' hd => ?_, .inr ⟨e, ?_, hrun⟩⟩
    · rw [hscan] at hd
      cases hd
    · rw [hscan] at hd
      cases hd
      exact hrun
    · simp only [ofBytes, hscan]
  · rw [h] at hrun
    obtain ⟨stub, rfl⟩ := hrun
    have hscan : scanClass StubDraft.visitor bytes .awaitingClass =
        (.ok (), .closed (some stub)) := by
      simp only [scanClass, h]
      rfl
    refine ⟨fun d' hd => ?_, fun e' d' hd => ?_, .inl ⟨stub, ?_⟩⟩
    · rw [hscan] at hd
      cases hd
      exact ⟨stub, rfl⟩
    · rw [hscan] at hd
      cases hd
    · simp only [ofBytes, hscan, StubDraft.finish]

end ClassStub

end JavaScope
