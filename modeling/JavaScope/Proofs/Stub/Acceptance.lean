/-
# What class drafts accept

A class draft accepts all events of a sequence and ends with a stub exactly if the sequence is a
word of the grammar of stubs (`visitAll_iff_mem_stub`).  Every draft has a language: what may
still come until there is a stub.  An event takes a draft to the draft of what may come after
that event, and it is refused where nothing may (`quotient_rest`).
-/
import JavaScope.Proofs.Stub.ValueAcceptance
import JavaScope.Stub.Draft

namespace JavaScope

open scoped Computability

open EventGrammar

/-! ## Parts of members -/

section Once

variable {α : Type} {L C X : Language α} {a : α}

/-- Some parts, a part that may come once among them, which came already or not, and then the
rest. -/
def partsOnce (L C X : Language α) : Bool → Language α
  | true => L∗ * X
  | false => L∗ * (C * (L∗ * X) + X)

lemma kstar_once : L∗ * (1 + C) * L∗ * X = partsOnce L C X false := by
  simp only [partsOnce, mul_add, add_mul, mul_one, mul_assoc]
  rw [← mul_assoc L∗ L∗ X, kstar_mul_kstar, add_comm]

lemma quotient_partsOnce (hL : [] ∉ L) (hC : [] ∉ C) (came : Bool) :
    (partsOnce L C X came).leftQuotient [a] =
      L.leftQuotient [a] * partsOnce L C X came +
        ((if came then 0 else C.leftQuotient [a] * partsOnce L C X true) +
          X.leftQuotient [a]) := by
  cases came with
  | true =>
    rw [if_pos rfl, zero_add]
    exact quotient_kstar_mul hL
  | false =>
    show (L∗ * (C * (L∗ * X) + X)).leftQuotient [a] = _
    rw [if_neg (by decide), quotient_kstar_mul hL, quotient_add, quotient_mul hC]
    rfl

lemma nil_notMem_partsOnce (hC : [] ∉ C) (hX : [] ∉ X) (came : Bool) :
    [] ∉ partsOnce L C X came := by
  cases came with
  | true => exact nil_notMem_mul_of_right hX
  | false => exact nil_notMem_mul_of_right (nil_notMem_add (nil_notMem_mul hC) hX)

end Once

/-! ## Groups -/

section Groups

variable {p : ClassEvent → Prop} {e : ClassEvent} {L M : Language ClassEvent}

lemma nil_notMem_group : [] ∉ one p * L * M :=
  nil_notMem_mul (nil_notMem_mul nil_notMem_event)

open scoped Classical in
lemma quotient_group : (one p * L * M).leftQuotient [e] = if p e then L * M else 0 := by
  rw [mul_assoc, quotient_event_mul]

end Groups

/-! ## The languages of drafts -/

namespace StubDraft

/-- The parts of a class. -/
def classParts : Language ClassEvent :=
  innerClass + signature + annotationUse .strict + field .strict (fieldParts .strict) +
    method .strict (methodParts .strict)

/-- What may come in a class. -/
def classRest : Language ClassEvent := classParts∗ * one (· = .classEnd)

/-- What may come in a field, whose constant came already or not. -/
def fieldRest (hasConstant : Bool) : Language ClassEvent :=
  partsOnce (signature + annotationUse .strict) fieldConstant (one (· = .fieldEnd) * classRest)
    hasConstant

/-- What may come in a method, whose default came already or not. -/
def methodRest (hasDefault : Bool) : Language ClassEvent :=
  partsOnce (exceptions + signature + annotationUse .strict) (annotationDefault .strict)
    (one (· = .methodEnd) * classRest) hasDefault

/-- What may come after an annotation. -/
def targetRest : AnnotationTarget → Language ClassEvent
  | .onClass => classRest
  | .onField f => fieldRest f.constant.isSome
  | .onMethod m => methodRest m.default?.isSome

/-- What may come until there is a stub. -/
def rest : StubDraft → Language ClassEvent
  | awaitingClass => stub .strict
  | inClass _ => classRest
  | inField _ f => fieldRest f.constant.isSome
  | inMethod _ m => methodRest m.default?.isSome
  | inAnnotationUse _ target _ value => value.rest Annotation.spot (targetRest target)
  | inDefault _ _ value => value.rest defaultSpot (methodRest true)
  | closed stub => if stub.isSome then 1 else 0

/-- What may come after a step. -/
def restOf : Except ClassError StubDraft → Language ClassEvent
  | .ok d => d.rest
  | .error _ => 0

/-! ## Steps -/

variable {e : ClassEvent}

/-- An annotation is opened, or its descriptor is refused. -/
lemma restOf_annotationStart (c : ClassDraft) (target : AnnotationTarget) (descriptor : String)
    (isVisible : Bool) :
    (annotationUse .strict).leftQuotient [.annotationStart descriptor isVisible] * targetRest target =
      restOf (do
        return inAnnotationUse c target isVisible (← ValueDraft.annotationOf descriptor)) := by
  rw [annotationUse, quotient_group]
  cases h : Descriptor.field descriptor with
  | error x => simp [ValueDraft.annotationOf, EventRules.strict, h, restOf, bind, Except.bind]
  | ok t =>
    rw [if_pos ⟨descriptor, isVisible, ⟨t, h⟩, rfl⟩, mul_assoc, ValueDraft.annotationOf, h,
      ← Spot.laterElements_nil]
    rfl

lemma restOf_fieldStart (c : ClassDraft) (access : Access) (name descriptor : String) :
    (field .strict (fieldParts .strict)).leftQuotient [.fieldStart access name descriptor] *
        classRest =
      restOf (stepClass c (.fieldStart access name descriptor)) := by
  rw [field, quotient_group]
  cases h : Descriptor.field descriptor with
  | error x => simp [stepClass, EventRules.strict, h, restOf, bind, Except.bind]
  | ok t =>
    rw [if_pos ⟨access, name, descriptor, ⟨t, h⟩, rfl⟩, mul_assoc, fieldParts, kstar_once,
      stepClass, h]
    rfl

lemma restOf_methodStart (c : ClassDraft) (access : Access) (name descriptor : String) :
    (method .strict (methodParts .strict)).leftQuotient [.methodStart access name descriptor] *
        classRest =
      restOf (stepClass c (.methodStart access name descriptor)) := by
  rw [method, quotient_group]
  cases h : Descriptor.method descriptor with
  | error x => simp [stepClass, EventRules.strict, h, restOf, bind, Except.bind]
  | ok types =>
    rw [if_pos ⟨access, name, descriptor, ⟨types, h⟩, rfl⟩, mul_assoc, methodParts, kstar_once,
      stepClass, h]
    rfl

lemma nil_notMem_classParts : [] ∉ classParts :=
  nil_notMem_add (nil_notMem_add (nil_notMem_add (nil_notMem_add nil_notMem_event
    nil_notMem_event) nil_notMem_group) nil_notMem_group) nil_notMem_group

-- In each case the groups that do not start with the event leave nothing.
lemma quotient_classRest (c : ClassDraft) :
    classRest.leftQuotient [e] = restOf (stepClass c e) := by
  rw [classRest, quotient_kstar_mul nil_notMem_classParts, ← classRest]
  simp only [classParts, quotient_add, innerClass, signature, quotient_event]
  cases e with
  | fieldStart access name descriptor =>
    rw [← restOf_fieldStart]
    simp [annotationUse, method, quotient_group]
  | methodStart access name descriptor =>
    rw [← restOf_methodStart]
    simp [annotationUse, field, quotient_group]
  | annotationStart descriptor isVisible =>
    rw [stepClass, ← restOf_annotationStart]
    simp [field, method, quotient_group, targetRest]
  | _ =>
    simp [annotationUse, field, method, quotient_group, stepClass, unexpected, restOf, rest]

lemma nil_notMem_fieldConstant : [] ∉ fieldConstant := nil_notMem_event

lemma nil_notMem_fieldParts : [] ∉ signature + annotationUse .strict :=
  nil_notMem_add nil_notMem_event nil_notMem_group

lemma quotient_fieldRest (c : ClassDraft) (f : FieldStub) :
    (fieldRest f.constant.isSome).leftQuotient [e] = restOf (stepField c f e) := by
  rw [fieldRest, quotient_partsOnce nil_notMem_fieldParts nil_notMem_fieldConstant, ← fieldRest,
    ← fieldRest]
  simp only [fieldConstant, signature, quotient_add, quotient_event, quotient_event_mul]
  cases e with
  | annotationStart descriptor isVisible =>
    rw [stepField, ← restOf_annotationStart]
    simp [targetRest]
  | fieldConstant value =>
    cases h : f.constant with
    | none => simp [annotationUse, quotient_group, stepField, restOf, rest, h]
    | some s => simp [annotationUse, quotient_group, stepField, restOf, h]
  | _ => simp [annotationUse, quotient_group, stepField, unexpected, restOf, rest]

lemma nil_notMem_methodParts : [] ∉ exceptions + signature + annotationUse .strict :=
  nil_notMem_add (nil_notMem_add nil_notMem_event nil_notMem_event) nil_notMem_group

lemma nil_notMem_annotationDefault : [] ∉ annotationDefault .strict := nil_notMem_group

/-- What may come after the start of a default. -/
lemma rest_ofDefault (c : ClassDraft) (m : MethodStub) :
    (inDefault c m ValueDraft.ofDefault).rest =
      value .strict none * valueEnd * methodRest true :=
  (mul_assoc ..).symm

lemma quotient_methodRest (c : ClassDraft) (m : MethodStub) :
    (methodRest m.default?.isSome).leftQuotient [e] = restOf (stepMethod c m e) := by
  rw [methodRest, quotient_partsOnce nil_notMem_methodParts nil_notMem_annotationDefault,
    ← methodRest, ← methodRest]
  simp only [exceptions, signature, annotationDefault, quotient_add, quotient_event,
    quotient_event_mul, quotient_group]
  cases e with
  | annotationStart descriptor isVisible =>
    rw [stepMethod, ← restOf_annotationStart]
    simp [targetRest]
  | annotationDefault =>
    cases h : m.default? with
    | none => simp [annotationUse, quotient_group, stepMethod, restOf, rest_ofDefault, h]
    | some v => simp [annotationUse, quotient_group, stepMethod, restOf, h]
  | _ => simp [annotationUse, quotient_group, stepMethod, unexpected, restOf, rest]

/-- What may come after an event is what may come after the step of the draft. -/
theorem quotient_rest (d : StubDraft) (e : ClassEvent) :
    d.rest.leftQuotient [e] = restOf (d.step e) := by
  cases d with
  | awaitingClass =>
    show (stub .strict).leftQuotient [e] = _
    rw [stub, classOf, mul_assoc, quotient_event_mul, ← classParts, ← classRest]
    cases e with
    | classStart version access name superName interfaces =>
      rw [if_pos ⟨version, access, name, superName, interfaces, rfl⟩]
      rfl
    | _ =>
      simp
      rfl
  | inClass c => exact quotient_classRest c
  | inField c f => exact quotient_fieldRest c f
  | inMethod c m => exact quotient_methodRest c m
  | inAnnotationUse c target isVisible value =>
    refine (ValueDraft.quotient_rest Annotation.add_follows (targetRest target) value e).trans ?_
    simp only [step, stepAnnotationUse]
    cases value.accept e with
    | error x => rfl
    | ok p =>
      cases p with
      | pending value => rfl
      | complete root => cases target <;> rfl
  | inDefault c m value =>
    refine (ValueDraft.quotient_rest addDefault_follows (methodRest true) value e).trans ?_
    simp only [step, stepDefault]
    cases value.accept e with
    | error x => rfl
    | ok p =>
      cases p with
      | pending value => rfl
      | complete root => cases root <;> rfl
  | closed stub =>
    show (if stub.isSome then 1 else 0 : Language ClassEvent).leftQuotient [e] = 0
    split
    · exact quotient_one
    · exact quotient_zero

/-! ## Ends -/

lemma nil_notMem_stub : [] ∉ stub .strict := nil_notMem_group

lemma nil_notMem_classRest : [] ∉ classRest := nil_notMem_mul_of_right nil_notMem_event

lemma nil_notMem_fieldRest (hasConstant : Bool) : [] ∉ fieldRest hasConstant :=
  nil_notMem_partsOnce nil_notMem_event (nil_notMem_mul nil_notMem_event) hasConstant

lemma nil_notMem_methodRest (hasDefault : Bool) : [] ∉ methodRest hasDefault :=
  nil_notMem_partsOnce nil_notMem_group (nil_notMem_mul nil_notMem_event) hasDefault

lemma eq_closed_of_finish {d : StubDraft} {stub : ClassStub} (h : d.finish = .ok stub) :
    d = closed (some stub) := by
  unfold finish at h
  split at h
  · rw [Except.ok.inj h]
  · cases h

/-- There is a stub where nothing more has to come. -/
lemma finish_iff_nil_mem (d : StubDraft) : (∃ stub, d.finish = .ok stub) ↔ [] ∈ d.rest := by
  constructor
  · rintro ⟨stub, h⟩
    rw [eq_closed_of_finish h]
    rfl
  · intro h
    cases d with
    | closed stub =>
      cases stub with
      | none => exact absurd h (Language.notMem_zero [])
      | some stub => exact ⟨stub, rfl⟩
    | _ =>
      simp only [rest, nil_notMem_stub, nil_notMem_classRest, nil_notMem_fieldRest,
        nil_notMem_methodRest, ValueDraft.nil_notMem_rest] at h

/-! ## Sequences of events -/

/-- From any draft, the events that lead to a stub are those that may still come. -/
lemma visitAll_iff_mem_rest (events : List ClassEvent) (d : StubDraft) :
    (∃ d' stub, visitor.visitAll events d = (.ok (), d') ∧ d'.finish = .ok stub) ↔
      events ∈ d.rest := by
  induction events generalizing d with
  | nil =>
    rw [← finish_iff_nil_mem]
    constructor
    · rintro ⟨d', stub, hvisit, hfinish⟩
      obtain rfl : d = d' := (Prod.mk.inj hvisit).2
      exact ⟨stub, hfinish⟩
    · rintro ⟨stub, hfinish⟩
      exact ⟨d, stub, rfl, hfinish⟩
  | cons e events ih =>
    have hmem : e :: events ∈ d.rest ↔ events ∈ restOf (d.step e) := by
      rw [← quotient_rest]
      rfl
    rw [hmem, Visitor.visitAll]
    cases h : d.step e with
    | error x =>
      have hvisit : visitor.visit e d = (.error x, d.abandon) := by simp only [visitor, h]
      rw [hvisit]
      refine iff_of_false ?_ (Language.notMem_zero events)
      rintro ⟨d', stub, hvisit, -⟩
      cases hvisit
    | ok d' =>
      have hvisit : visitor.visit e d = (.ok (), d') := by simp only [visitor, h]
      rw [hvisit]
      exact ih d'

/-- A draft accepts all events and has a stub in the end exactly if they tell a stub. -/
theorem visitAll_iff_mem_stub (events : List ClassEvent) :
    (∃ d stub, visitor.visitAll events awaitingClass = (.ok (), d) ∧ d.finish = .ok stub) ↔
      events ∈ EventGrammar.stub .strict :=
  visitAll_iff_mem_rest events awaitingClass

end StubDraft

end JavaScope
