/-
# Drafts of described classes

A class draft that gets the events of a described class ends closed with the stub of the
description, unless a method takes a parameter of the class called `void`: the first such
method is refused for its descriptor (`visitAll_toldBy`).
-/
import JavaScope.Proofs.Stub.ValueAssembly
import JavaScope.Proofs.ClassFile.Decoding
import JavaScope.Stub.Draft

namespace JavaScope

/-- The draft around an annotation that is not open. -/
def AnnotationTarget.draft (c : ClassDraft) : AnnotationTarget → StubDraft
  | onClass => .inClass c
  | onField f => .inField c f
  | onMethod m => .inMethod c m

namespace StubDraft

/-- The draft accepts the events and becomes the other draft. -/
def Goes (d : StubDraft) (events : List ClassEvent) (d' : StubDraft) : Prop :=
  visitor.visitAll events d = (.ok (), d')

lemma goes_nil (d : StubDraft) : Goes d [] d := rfl

lemma goes_cons {d d' d'' : StubDraft} {e : ClassEvent} {es : List ClassEvent}
    (h : d.step e = .ok d') (h' : Goes d' es d'') : Goes d (e :: es) d'' := by
  have hvisit : visitor.visit e d = (.ok (), d') := by simp only [visitor, h]
  rw [Goes, Visitor.visitAll, hvisit]
  exact h'

lemma Goes.append {d d' d'' : StubDraft} {es fs : List ClassEvent} (h : Goes d es d')
    (h' : Goes d' fs d'') : Goes d (es ++ fs) d'' := by
  rw [Goes, Visitor.visitAll_append, h]
  exact h'

lemma goes_singleton {d d' : StubDraft} {e : ClassEvent} (h : d.step e = .ok d') :
    Goes d [e] d' :=
  goes_cons h (goes_nil d')

/-! ## Values -/

/-- In this place, an open value takes events and refuses them as it does alone. -/
def Carries {ρ : Type} [ValueRoot ρ] (place : ValueDraft ρ → StubDraft) : Prop :=
  ∀ (w : ValueDraft ρ) (e : ClassEvent),
    match w.accept e with
    | .ok (.pending w') => (place w).step e = .ok (place w')
    | .ok (.complete _) => True
    | .error x => (place w).step e = .error x

lemma carries_annotationUse (c : ClassDraft) (target : AnnotationTarget) (isVisible : Bool) :
    Carries (inAnnotationUse c target isVisible) := by
  intro w e
  rcases h : w.accept e with x | ⟨w' | r⟩
  · simp only [step, stepAnnotationUse, h]
    rfl
  · simp only [step, stepAnnotationUse, h]
    rfl
  · trivial

lemma carries_default (c : ClassDraft) (m : MethodStub) : Carries (inDefault c m) := by
  intro w e
  rcases h : w.accept e with x | ⟨w' | r⟩
  · simp only [step, stepDefault, h]
    rfl
  · simp only [step, stepDefault, h]
    rfl
  · trivial

/-- A draft with an open value goes where the value goes. -/
lemma Carries.goes {ρ : Type} [ValueRoot ρ] {place : ValueDraft ρ → StubDraft}
    (hplace : Carries place) {w w' : ValueDraft ρ} {es : List ClassEvent}
    (h : (Progress.pending w).acceptAll es = .ok (.pending w')) : Goes (place w) es (place w') := by
  induction es generalizing w with
  | nil =>
    obtain rfl : w = w' := Progress.pending.inj (Except.ok.inj h)
    exact goes_nil _
  | cons e es ih =>
    have hstep := hplace w e
    simp only [Progress.acceptAll, Progress.accept] at h
    rcases haccept : w.accept e with x | ⟨w₁ | r⟩
    · rw [haccept] at h
      cases h
    · rw [haccept] at h hstep
      exact goes_cons hstep (ih h)
    · -- a closed value accepts nothing, and was not left open
      rw [haccept] at h
      cases es <;> cases h

/-! ## Annotations -/

/-- An annotation lands on its declaration. -/
lemma goes_annotation (c : ClassDraft) (target : AnnotationTarget) {a : AnnotationDescription}
    (ha : a.Valid) : Goes (target.draft c) a.events (addAnnotationUse c a.use target) := by
  have hopen : (target.draft c).step (.annotationStart a.type.descriptor a.isVisible) =
      .ok (inAnnotationUse c target a.isVisible ⟨[], ⟨a.type.ref, []⟩⟩) := by
    cases target <;>
      simp only [AnnotationTarget.draft, step, stepClass, stepField, stepMethod,
        ValueDraft.annotationOf, Descriptor.field_fieldType] <;> rfl
  have helements :=
    ElementValue.acceptAll_elementEvents ha.2 ha.1 a.type.ref holds_root
  have hinside := (carries_annotationUse c target a.isVisible).goes helements
  have hclose : (inAnnotationUse c target a.isVisible
      ⟨[], ⟨a.type.ref, ElementValue.namedValues a.elements⟩⟩).step .valueEnd =
      .ok (addAnnotationUse c a.use target) := rfl
  exact goes_cons hopen (hinside.append (goes_singleton hclose))

/-- Puts finished annotations on their declaration. -/
def addAnnotationUses (c : ClassDraft) (uses : List AnnotationUse) : AnnotationTarget → StubDraft
  | .onClass => inClass { c with annotations := c.annotations ++ uses }
  | .onField f => inField c { f with annotations := f.annotations ++ uses }
  | .onMethod m => inMethod c { m with annotations := m.annotations ++ uses }

lemma goes_annotations (c : ClassDraft) (target : AnnotationTarget)
    {uses : List AnnotationDescription} (huses : ∀ a ∈ uses, a.Valid) :
    Goes (target.draft c) (uses.flatMap (·.events))
      (addAnnotationUses c (uses.map (·.use)) target) := by
  induction uses generalizing c target with
  | nil =>
    cases target <;>
      simp only [List.map_nil, addAnnotationUses, List.append_nil] <;> exact goes_nil _
  | cons a uses ih =>
    have hfirst := goes_annotation c target (huses a (by simp))
    have hrest := fun c target => ih c target fun b hb => huses b (by simp [hb])
    rw [List.flatMap_cons]
    cases target with
    | onClass =>
      have h := hrest { c with annotations := c.annotations ++ [a.use] } .onClass
      simp only [addAnnotationUses, List.append_assoc] at h
      exact hfirst.append h
    | onField f =>
      have h := hrest c (.onField { f with annotations := f.annotations ++ [a.use] })
      simp only [addAnnotationUses, List.append_assoc] at h
      exact hfirst.append h
    | onMethod m =>
      have h := hrest c (.onMethod { m with annotations := m.annotations ++ [a.use] })
      simp only [addAnnotationUses, List.append_assoc] at h
      exact hfirst.append h

/-! ## Fields -/

/-- A table that says something has nothing more to say of it. -/
lemma eq_some_of_cons {α : Type} {a : α} {as : List α} {o : Option α} (h : a :: as = o.toList) :
    o = some a ∧ as = (none : Option α).toList := by
  cases o with
  | none => cases h
  | some b =>
    obtain ⟨rfl, rfl⟩ := List.cons.inj h
    exact ⟨rfl, rfl⟩

lemma eq_none_of_nil {α : Type} {o : Option α} (h : [] = o.toList) : o = none := by
  cases o with
  | none => rfl
  | some a => cases h

/-- An open field takes what its attributes say. -/
lemma goes_fieldTable (c : ClassDraft) (f : FieldStub) {d : String} {table : List AttributeContent}
    {signature : Option String} {constant : Option Scalar}
    (hfits : ∀ a ∈ table, a.FitsOn (.ofField d))
    (hsignature : table.filterMap (·.signature?) = signature.toList)
    (hconstant : table.filterMap (·.constant?) = constant.toList)
    (hone : constant.isSome → f.constant = none) :
    Goes (inField c f) (table.flatMap (·.events))
      (inField c
        { f with
          signature := signature.or f.signature
          constant := constant.or f.constant
          annotations := f.annotations ++ (table.flatMap (·.uses)).map (·.use) }) := by
  induction table generalizing f signature constant with
  | nil =>
    obtain rfl := eq_none_of_nil hsignature
    obtain rfl := eq_none_of_nil hconstant
    simp only [Option.none_or, List.flatMap_nil, List.map_nil, List.append_nil]
    exact goes_nil _
  | cons a table ih =>
    have ha := hfits a (by simp)
    have hrest := fun b (hb : b ∈ table) => hfits b (by simp [hb])
    rw [List.flatMap_cons]
    cases a with
    | constantValue s =>
      -- the draft refuses a second constant, but the table has no other
      obtain ⟨rfl, hnone⟩ := eq_some_of_cons hconstant
      have hstep : (inField c f).step (.fieldConstant s) =
          .ok (inField c { f with constant := some s }) := by
        simp only [step, stepField, hone rfl]
      have h := ih { f with constant := some s } hrest hsignature hnone (by simp)
      exact goes_cons hstep h
    | signature text =>
      obtain ⟨rfl, hnone⟩ := eq_some_of_cons hsignature
      have h := ih { f with signature := some text } hrest hnone hconstant hone
      exact goes_cons rfl h
    | annotations isVisible uses =>
      have huses := goes_annotations c (.onField f) fun b hb => (ha b hb).2
      have h := ih { f with annotations := f.annotations ++ uses.map (·.use) } hrest hsignature
        hconstant hone
      rw [List.append_assoc, ← List.map_append] at h
      exact huses.append h
    | other name body => exact ih f hrest hsignature hconstant hone
    | exceptions names => cases ha
    | annotationDefault w => cases ha.1
    | innerClasses entries => cases ha

/-- The field as its head tells it. -/
def fieldHead (f : FieldDescription) : FieldStub where
  access := f.access
  name := f.name
  descriptor := f.type.descriptor
  type := f.type.ref

/-- A field lands in its class. -/
lemma goes_field (c : ClassDraft) {f : FieldDescription} {events : List ClassEvent}
    (hf : f.Valid) (h : f.ToldBy events) :
    Goes (inClass c) events (inClass { c with fields := c.fields ++ [f.stub] }) := by
  obtain ⟨table, htable, rfl⟩ := h
  have hopen : (inClass c).step (.fieldStart f.access f.name f.type.descriptor) =
      .ok (inField c (fieldHead f)) := by
    simp only [step, stepClass, Descriptor.field_fieldType]
    rfl
  have hinside := goes_fieldTable c (fieldHead f) (htable.fitsOn hf) htable.signature
    htable.constant fun _ => rfl
  rw [htable.annotations] at hinside
  have hstub : { fieldHead f with
      signature := f.signature.or (fieldHead f).signature
      constant := f.constant.or (fieldHead f).constant
      annotations := (fieldHead f).annotations ++ f.annotations.map (·.use) } = f.stub := by
    simp only [fieldHead, FieldDescription.stub, Option.or_none, List.nil_append]
  rw [hstub] at hinside
  exact goes_cons hopen (hinside.append (goes_singleton rfl))

/-- The fields land in their class. -/
lemma goes_fields (c : ClassDraft) {fields : List FieldDescription} {events : List ClassEvent}
    (hfields : ∀ f ∈ fields, f.Valid) (h : InTurn FieldDescription.ToldBy fields events) :
    Goes (inClass c) events
      (inClass { c with fields := c.fields ++ fields.map (·.stub) }) := by
  induction h generalizing c with
  | nil =>
    rw [List.map_nil, List.append_nil]
    exact goes_nil _
  | @cons f fields events rest hf _ ih =>
    have hfirst := goes_field c (hfields f (by simp)) hf
    have hrest := ih { c with fields := c.fields ++ [f.stub] } fun g hg => hfields g (by simp [hg])
    rw [List.append_assoc] at hrest
    exact hfirst.append hrest

/-! ## Methods -/

/-- The default of a method that has none lands in it.  It gets a draft of its own, from its
opening to its end. -/
lemma goes_default (c : ClassDraft) {m : MethodStub} (hnone : m.default? = none)
    {w : ElementValue} (hw : w.Valid 0) :
    Goes (inMethod c m) (AttributeContent.annotationDefault w).events
      (inMethod c { m with default? := some w.value }) := by
  have hopen : (inMethod c m).step .annotationDefault =
      .ok (inDefault c m ValueDraft.ofDefault) := by
    simp only [step, stepMethod, hnone]
  have hadd : ValueDraft.ofDefault.add none w.value = .ok ⟨[], some w.value⟩ := rfl
  have hvalue := (ElementValue.toldBy hw none).brings _ _ hadd
  have hinside := (carries_default c m).goes hvalue
  have hclose : (inDefault c m ⟨[], some w.value⟩).step .valueEnd =
      .ok (inMethod c { m with default? := some w.value }) := rfl
  exact goes_cons hopen (hinside.append (goes_singleton hclose))

/-- An open method takes what its attributes say. -/
lemma goes_methodTable (c : ClassDraft) (m : MethodStub) {table : List AttributeContent}
    {signature : Option String} {listed : Option (List String)} {default? : Option ElementValue}
    (hfits : ∀ a ∈ table, a.FitsOn .ofMethod)
    (hsignature : table.filterMap (·.signature?) = signature.toList)
    (hlisted : table.filterMap (·.exceptions?) = listed.toList)
    (hdefault : table.filterMap (·.default?) = default?.toList)
    (hone : default?.isSome → m.default?.isNone) :
    Goes (inMethod c m) (table.flatMap (·.events))
      (inMethod c
        { m with
          signature := signature.or m.signature
          exceptions := (listed.map fun names => names.map Name.toBinary).getD m.exceptions
          default? := (default?.map (·.value)).or m.default?
          annotations := m.annotations ++ (table.flatMap (·.uses)).map (·.use) }) := by
  induction table generalizing m signature listed default? with
  | nil =>
    obtain rfl := eq_none_of_nil hsignature
    obtain rfl := eq_none_of_nil hlisted
    obtain rfl := eq_none_of_nil hdefault
    simp only [Option.none_or, List.flatMap_nil, List.map_nil, List.append_nil, Option.map_none,
      Option.getD_none]
    exact goes_nil _
  | cons a table ih =>
    have ha := hfits a (by simp)
    have hrest := fun b (hb : b ∈ table) => hfits b (by simp [hb])
    rw [List.flatMap_cons]
    cases a with
    | exceptions names =>
      obtain ⟨rfl, hnone⟩ := eq_some_of_cons hlisted
      have h := ih { m with exceptions := names.map Name.toBinary } hrest hsignature hnone
        hdefault hone
      exact goes_cons rfl h
    | signature text =>
      obtain ⟨rfl, hnone⟩ := eq_some_of_cons hsignature
      have h := ih { m with signature := some text } hrest hnone hlisted hdefault hone
      exact goes_cons rfl h
    | annotationDefault w =>
      obtain ⟨rfl, hnone⟩ := eq_some_of_cons hdefault
      have hvalue := goes_default c (by simpa using hone rfl) ha.2
      have h := ih { m with default? := some w.value } hrest hsignature hlisted hnone (by simp)
      exact hvalue.append h
    | annotations isVisible uses =>
      have huses := goes_annotations c (.onMethod m) fun b hb => (ha b hb).2
      have h := ih { m with annotations := m.annotations ++ uses.map (·.use) } hrest hsignature
        hlisted hdefault hone
      rw [List.append_assoc, ← List.map_append] at h
      exact huses.append h
    | other name body => exact ih m hrest hsignature hlisted hdefault hone
    | constantValue s =>
      obtain ⟨t, ht, -⟩ := ha
      cases ht
    | innerClasses entries => cases ha

/-- The method as its head tells it. -/
def methodHead (m : MethodDescription) : MethodStub where
  access := m.access
  name := m.name
  descriptor := m.type.descriptor
  parameters := m.type.refs.parameters
  returnType := m.type.refs.returnType

/-- A method lands in its class if its descriptor can be read. -/
lemma goes_method (c : ClassDraft) {m : MethodDescription} {events : List ClassEvent}
    (hm : m.Valid) (hvoid : m.takesClassVoid = false) (h : m.ToldBy events) :
    Goes (inClass c) events (inClass { c with methods := c.methods ++ [m.stub] }) := by
  obtain ⟨table, htable, rfl⟩ := h
  obtain ⟨listed, hlisted, hexceptions⟩ := htable.exceptions
  have hopen : (inClass c).step (.methodStart m.access m.name m.type.descriptor) =
      .ok (inMethod c (methodHead m)) := by
    have hread := Descriptor.method_descriptor m.type
    rw [if_neg (by simpa [MethodDescription.takesClassVoid] using hvoid)] at hread
    simp only [step, stepClass, hread]
    rfl
  have hinside := goes_methodTable c (methodHead m) (htable.fitsOn hm) htable.signature hlisted
    htable.default? fun _ => rfl
  rw [htable.annotations] at hinside
  have hnames : (listed.map fun names => names.map Name.toBinary).getD (methodHead m).exceptions =
      m.exceptions.map Name.toBinary := by
    rw [← hexceptions]
    cases listed <;> rfl
  have hstub : { methodHead m with
      signature := m.signature.or (methodHead m).signature
      exceptions := (listed.map fun names => names.map Name.toBinary).getD (methodHead m).exceptions
      default? := (m.default?.map (·.value)).or (methodHead m).default?
      annotations := (methodHead m).annotations ++ m.annotations.map (·.use) } = m.stub := by
    rw [hnames]
    simp only [methodHead, MethodDescription.stub, MethodType.refs, Option.or_none,
      List.nil_append]
  rw [hstub] at hinside
  exact goes_cons hopen (hinside.append (goes_singleton rfl))

/-- A method that takes a parameter of the class called `void` is refused at its head. -/
lemma visitAll_refused (c : ClassDraft) {m : MethodDescription} {events : List ClassEvent}
    (hvoid : m.takesClassVoid = true) (h : m.ToldBy events) (more : List ClassEvent) :
    visitor.visitAll (events ++ more) (inClass c) =
      (.error (.badDescriptor m.type.descriptor), closed none) := by
  obtain ⟨table, -, rfl⟩ := h
  have hread := (Descriptor.method_descriptor m.type).trans (if_pos hvoid)
  have hstep : (inClass c).step (.methodStart m.access m.name m.type.descriptor) =
      .error (.badDescriptor m.type.descriptor) := by
    simp only [step, stepClass, hread]
    rfl
  have hvisit : visitor.visit (.methodStart m.access m.name m.type.descriptor) (inClass c) =
      (.error (.badDescriptor m.type.descriptor), closed none) := by
    simp only [visitor, hstep, abandon]
  rw [List.cons_append, Visitor.visitAll, hvisit]

/-- The methods land in their class, up to the first one that is refused. -/
lemma visitAll_methods (c : ClassDraft) {methods : List MethodDescription}
    {events : List ClassEvent} (hmethods : ∀ m ∈ methods, m.Valid)
    (h : InTurn MethodDescription.ToldBy methods events) (more : List ClassEvent) :
    visitor.visitAll (events ++ more) (inClass c) =
      match methods.find? (·.takesClassVoid) with
      | none =>
        visitor.visitAll more (inClass { c with methods := c.methods ++ methods.map (·.stub) })
      | some m => (.error (.badDescriptor m.type.descriptor), closed none) := by
  induction h generalizing c with
  | nil => rw [List.map_nil, List.append_nil, List.nil_append, List.find?_nil]
  | @cons m methods events rest hm _ ih =>
    rw [List.append_assoc]
    cases hvoid : m.takesClassVoid with
    | true =>
      rw [visitAll_refused c hvoid hm, List.find?_cons_of_pos hvoid]
    | false =>
      have hfirst := goes_method c (hmethods m (by simp)) hvoid hm
      have hrest := ih { c with methods := c.methods ++ [m.stub] } fun n hn =>
        hmethods n (by simp [hn])
      rw [Visitor.visitAll_append, hfirst, List.find?_cons_of_neg (by simp [hvoid])]
      simp only [hrest, List.append_assoc, List.map_cons, List.singleton_append]

/-! ## Classes -/

/-- What a class draft keeps of an entry about the class itself. -/
def entryParts (e : InnerClassDescription) : Option String × Option String × Access :=
  (e.outer, e.simpleName, e.access)

lemma addInnerClass_eq (c : ClassDraft) (e : InnerClassDescription) :
    c.addInnerClass e.inner e.outer e.simpleName e.access =
      { c with
        ownEntry := (([e].find? (·.inner = c.name)).map entryParts).or c.ownEntry
        memberTypes := c.memberTypes ++ (ClassDescription.memberType? c.name e).toList } := by
  obtain ⟨inner, outer, simpleName, access⟩ := e
  by_cases hown : inner = c.name
  · cases outer <;> cases simpleName <;>
      simp [ClassDraft.addInnerClass, ClassDescription.memberType?, entryParts, hown]
  · cases outer with
    | none => simp [ClassDraft.addInnerClass, ClassDescription.memberType?, hown]
    | some outer =>
      cases simpleName with
      | none => simp [ClassDraft.addInnerClass, ClassDescription.memberType?, hown]
      | some simpleName =>
        by_cases houter : outer = c.name <;>
          simp [ClassDraft.addInnerClass, ClassDescription.memberType?, hown, houter]

/-- The entries of the table of inner classes land in the class; the last one about the class
itself counts. -/
lemma goes_innerClasses (c : ClassDraft) (entries : List InnerClassDescription) :
    Goes (inClass c) (entries.map (·.event))
      (inClass
        { c with
          ownEntry :=
            ((entries.reverse.find? (·.inner = c.name)).map entryParts).or c.ownEntry
          memberTypes :=
            c.memberTypes ++ entries.filterMap (ClassDescription.memberType? c.name) }) := by
  induction entries generalizing c with
  | nil =>
    simp only [List.reverse_nil, List.find?_nil, Option.map_none, Option.none_or,
      List.filterMap_nil, List.append_nil]
    exact goes_nil _
  | cons e entries ih =>
    -- entries come from the first on, but the last one about the class itself counts
    have hstep : (inClass c).step e.event =
        .ok (inClass (c.addInnerClass e.inner e.outer e.simpleName e.access)) := rfl
    have hrest := ih (c.addInnerClass e.inner e.outer e.simpleName e.access)
    rw [addInnerClass_eq] at hrest hstep
    have hmembers : (e :: entries).filterMap (ClassDescription.memberType? c.name) =
        (ClassDescription.memberType? c.name e).toList ++
          entries.filterMap (ClassDescription.memberType? c.name) := by
      cases h : ClassDescription.memberType? c.name e <;> simp [h]
    rw [hmembers, List.reverse_cons, List.find?_append, Option.map_or, Option.or_assoc,
      ← List.append_assoc]
    exact goes_cons hstep hrest

/-- An open class takes what its attributes say. -/
lemma goes_classTable (c : ClassDraft) {table : List AttributeContent} {signature : Option String}
    (hfits : ∀ a ∈ table, a.FitsOn .ofClass)
    (hsignature : table.filterMap (·.signature?) = signature.toList) :
    Goes (inClass c) (table.flatMap (·.events))
      (inClass
        { c with
          signature := signature.or c.signature
          annotations := c.annotations ++ (table.flatMap (·.uses)).map (·.use)
          ownEntry :=
            (((table.flatMap (·.entries)).reverse.find? (·.inner = c.name)).map entryParts).or
              c.ownEntry
          memberTypes := c.memberTypes ++
            (table.flatMap (·.entries)).filterMap (ClassDescription.memberType? c.name) }) := by
  induction table generalizing c signature with
  | nil =>
    obtain rfl := eq_none_of_nil hsignature
    simp only [Option.none_or, List.flatMap_nil, List.map_nil, List.append_nil, List.reverse_nil,
      List.find?_nil, Option.map_none, List.filterMap_nil]
    exact goes_nil _
  | cons a table ih =>
    have ha := hfits a (by simp)
    have hrest := fun b (hb : b ∈ table) => hfits b (by simp [hb])
    rw [List.flatMap_cons]
    cases a with
    | signature text =>
      obtain ⟨rfl, hnone⟩ := eq_some_of_cons hsignature
      have h := ih { c with signature := some text } hrest hnone
      exact goes_cons rfl h
    | annotations isVisible uses =>
      have huses := goes_annotations c .onClass fun b hb => (ha b hb).2
      have h := ih { c with annotations := c.annotations ++ uses.map (·.use) } hrest hsignature
      rw [List.append_assoc, ← List.map_append] at h
      exact huses.append h
    | innerClasses entries =>
      have hentries := goes_innerClasses c entries
      have h := hentries.append (ih _ hrest hsignature)
      rw [← Option.or_assoc, ← Option.map_or, ← List.find?_append, ← List.reverse_append,
        List.append_assoc, ← List.filterMap_append] at h
      exact h
    | other name body => exact ih c hrest hsignature
    | exceptions names => cases ha
    | annotationDefault w => cases ha.1
    | constantValue s =>
      obtain ⟨t, ht, -⟩ := ha
      cases ht

/-- The class as its head tells it. -/
def classHead (d : ClassDescription) : ClassDraft where
  version := d.version
  access := d.access
  name := d.name
  superName := d.superName
  interfaces := d.interfaces

/-- The draft of the whole class. -/
def classDraft (d : ClassDescription) : ClassDraft where
  version := d.version
  access := d.access
  name := d.name
  superName := d.superName
  interfaces := d.interfaces
  signature := d.signature
  annotations := d.annotations.map (·.use)
  ownEntry := d.ownEntry?.map entryParts
  memberTypes := d.innerClasses.filterMap (ClassDescription.memberType? d.name)
  fields := d.fields.map (·.stub)
  methods := d.methods.map (·.stub)

lemma build_classDraft (d : ClassDescription) : (classDraft d).build = d.stub := by
  cases h : d.ownEntry? <;>
    simp [classDraft, ClassDraft.build, ClassDescription.stub, entryParts, h]

/-- The events of a class give its stub, unless the descriptor of a method is refused. -/
theorem visitAll_toldBy {d : ClassDescription} {events : List ClassEvent} (hd : d.Valid)
    (h : d.ToldBy events) :
    visitor.visitAll events awaitingClass =
      match d.methods.find? (·.takesClassVoid) with
      | none => (.ok (), closed (some d.stub))
      | some m => (.error (.badDescriptor m.type.descriptor), closed none) := by
  obtain ⟨table, fields, methods, htable, hfields, hmethods, rfl⟩ := h
  have hopen : Goes awaitingClass
      [.classStart d.version d.access d.name d.superName d.interfaces] (inClass (classHead d)) :=
    goes_singleton rfl
  have hhead := hopen.append (goes_fields (classHead d) hd.fields hfields)
  have hmembers := visitAll_methods { classHead d with fields := d.fields.map (·.stub) }
    hd.methods hmethods (table.flatMap (·.events) ++ [.classEnd])
  have htableGoes := goes_classTable
    { classHead d with fields := d.fields.map (·.stub), methods := d.methods.map (·.stub) }
    (htable.fitsOn hd) htable.signature
  simp only [htable.annotations, htable.innerClasses, classHead, Option.or_none,
    List.nil_append] at htableGoes
  have hend : Goes (inClass (classDraft d)) [.classEnd] (closed (some d.stub)) := by
    rw [← build_classDraft]
    exact goes_singleton rfl
  have hall : Goes awaitingClass (([.classStart d.version d.access d.name d.superName
      d.interfaces] ++ fields)) (inClass { classHead d with fields := d.fields.map (·.stub) }) :=
    hhead
  rw [← List.singleton_append, ← List.append_assoc, Visitor.visitAll_append, hall]
  simp only [hmembers]
  cases d.methods.find? (·.takesClassVoid) with
  | none => exact htableGoes.append hend
  | some m => rfl

end StubDraft

end JavaScope
