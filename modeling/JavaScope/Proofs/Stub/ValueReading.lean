/-
# Values that drafts read

A draft of a value reads exactly one value (`ValueDraft.reads_iff_toldBy`).  It accepts some
events up to the one that closes it, and has a value then, exactly if these events tell that
value.  What it accepts is known as a language already; here every word of that language gets
the value that it tells, and the draft is shown to have that value.
-/
import JavaScope.Proofs.Stub.ValueAcceptance

namespace JavaScope

open scoped Computability

open EventGrammar

/-! ## Values of words -/

/-- The elements of an annotation are told by events: they have different names. -/
def ToldElement.TellAll (elements : List ToldElement) (es : List ClassEvent) : Prop :=
  (elements.map (·.name)).Nodup ∧ (∀ e ∈ elements, e.value.ToldBy (some e.name) e.events) ∧
    es = elements.flatMap (·.events)

/-- Named parts that tell some values are elements. -/
lemma exists_tellAll {parts : List (String × List ClassEvent)}
    (hnames : (parts.map (·.1)).Nodup)
    (hparts : ∀ e ∈ parts, ∃ v : Value, v.ToldBy (some e.1) e.2) :
    ∃ elements, ToldElement.TellAll elements (parts.flatMap (·.2)) := by
  choose! valueOf hvalue using hparts
  refine ⟨parts.map fun e => ⟨e.1, valueOf e, e.2⟩, ?_, ?_, ?_⟩
  · simpa [Function.comp_def] using hnames
  · exact List.forall_mem_map.mpr hvalue
  · rw [List.flatMap_map]

/-- Every value that the grammar allows is told by its events. -/
lemma exists_toldBy {name : Option String} {es : List ClassEvent} (h : es ∈ value .strict name) :
    ∃ v : Value, v.ToldBy name es := by
  induction h with
  | @scalar name s => exact ⟨_, .scalar s name⟩
  | @enumValue name descriptor constant htype =>
    obtain ⟨type, htype⟩ := htype
    exact ⟨_, .enumConstant constant name htype⟩
  | @classValue name descriptor htype =>
    obtain ⟨type, htype⟩ := htype
    exact ⟨_, .classLiteral name htype⟩
  | @array name items _ ih =>
    choose! valueOf hvalue using ih
    have h := Value.ToldBy.array (items.map fun es => (valueOf es, es)) name
      (List.forall_mem_map.mpr hvalue)
    rw [List.flatMap_map, List.flatMap_id'] at h
    exact ⟨_, h⟩
  | @annotated name descriptor parts htype hnames _ ih =>
    obtain ⟨type, htype⟩ := htype
    obtain ⟨elements, hnodup, htold, hevents⟩ := exists_tellAll hnames ih
    rw [hevents]
    exact ⟨_, .annotated elements name htype hnodup htold⟩

lemma exists_tellAll_of_mem {es : List ClassEvent} (h : es ∈ EventGrammar.elements .strict) :
    ∃ elements, ToldElement.TellAll elements es := by
  obtain ⟨parts, hnames, hparts, rfl⟩ := h
  exact exists_tellAll hnames fun e he => exists_toldBy (hparts e he)

/-! ## Accepted events -/

namespace Progress

variable {ρ : Type} [ValueRoot ρ]

/-- The draft accepts all of the events, is closed by the last of them, and has the value. -/
def Reads (p : Progress ρ) (es : List ClassEvent) (v : Value) : Prop :=
  ∃ root, p.acceptAll es = .ok (.complete root) ∧ (complete root).finish = .ok v

lemma Reads.unique {p : Progress ρ} {es : List ClassEvent} {v w : Value} (h : p.Reads es v)
    (h' : p.Reads es w) : v = w := by
  obtain ⟨root, haccept, hfinish⟩ := h
  obtain ⟨root', haccept', hfinish'⟩ := h'
  obtain rfl := Progress.complete.inj (Except.ok.inj (haccept.symm.trans haccept'))
  exact Except.ok.inj (hfinish.symm.trans hfinish')

/-- A draft is closed by the last of some events exactly if nothing may follow after them. -/
lemma acceptAll_complete_iff {spot : ρ → Spot} (hspot : Follows ValueRoot.add spot)
    (es : List ClassEvent) (p : Progress ρ) :
    (∃ root, p.acceptAll es = .ok (.complete root) ∧ (spot root).isDone = true) ↔
      es ∈ ValueDraft.restOf spot 1 (.ok p) := by
  induction es generalizing p with
  | nil =>
    cases p with
    | pending d =>
      refine iff_of_false ?_ (d.nil_notMem_rest spot 1)
      rintro ⟨root, h, -⟩
      cases h
    | complete root =>
      simp only [acceptAll, Except.ok.injEq, complete.injEq, ValueDraft.restOf]
      split
      · next hdone => exact iff_of_true ⟨root, rfl, hdone⟩ rfl
      · next hdone =>
        refine iff_of_false ?_ (Language.notMem_zero [])
        rintro ⟨_, rfl, h⟩
        exact hdone h
  | cons e es ih =>
    cases p with
    | pending d =>
      have hmem : e :: es ∈ d.rest spot 1 ↔ es ∈ ValueDraft.restOf spot 1 (d.accept e) := by
        rw [← ValueDraft.quotient_rest hspot]
        rfl
      show _ ↔ e :: es ∈ d.rest spot 1
      rw [hmem, acceptAll, accept]
      cases d.accept e with
      | error x =>
        refine iff_of_false ?_ (Language.notMem_zero es)
        rintro ⟨root, h, -⟩
        cases h
      | ok p => exact ih p
    | complete root =>
      refine iff_of_false ?_ ?_
      · rintro ⟨root', h, -⟩
        cases h
      · simp only [ValueDraft.restOf]
        split
        · exact List.cons_ne_nil e es
        · exact Language.notMem_zero _

end Progress

/-! ## Read values -/

namespace ValueDraft

variable {v : Value} {es : List ClassEvent}

/-- A draft of a default reads a value without a name and the end of the default. -/
lemma reads_default {told : List ClassEvent} (h : v.ToldBy none told) :
    (Progress.pending ofDefault).Reads (told ++ [.valueEnd]) v := by
  have hadd : ofDefault.add none v = .ok ⟨[], some v⟩ := rfl
  have hclose : (Progress.pending (⟨[], some v⟩ : ValueDraft (Option Value))).accept .valueEnd =
      .ok (.complete (some v)) := rfl
  exact ⟨some v, acceptAll_trans (h.brings _ _ hadd) (acceptAll_singleton hclose), rfl⟩

/-- A draft of an annotation reads elements and the end of the annotation. -/
lemma reads_elements (type : TypeRef) {elements : List ToldElement}
    (h : ToldElement.TellAll elements es) :
    (Progress.pending (⟨[], ⟨type, []⟩⟩ : ValueDraft Annotation)).Reads (es ++ [.valueEnd])
      (.annotated type (elements.map (·.element))) := by
  obtain ⟨hnodup, htold, rfl⟩ := h
  have helements := acceptAll_elements (fun e he => (htold e he).brings) type []
    (by simpa using hnodup) holds_root
  have hclose : (Progress.pending
      (⟨[], ⟨type, elements.map (·.element)⟩⟩ : ValueDraft Annotation)).accept .valueEnd =
      .ok (.complete ⟨type, elements.map (·.element)⟩) := rfl
  exact ⟨_, acceptAll_trans helements (acceptAll_singleton hclose), rfl⟩

/-- What a draft of a default reads tells a value. -/
lemma exists_toldBy_of_reads (h : (Progress.pending ofDefault).Reads es v) :
    ∃ told, v.ToldBy none told ∧ es = told ++ [.valueEnd] := by
  obtain ⟨root, haccept, hfinish⟩ := h
  have hdone : (defaultSpot root).isDone = true := by
    cases root with
    | none => cases hfinish
    | some w => rfl
  obtain ⟨told, hmem, _, ⟨_, ⟨_, rfl, rfl⟩, _, rfl, rfl⟩, rfl⟩ :=
    (Progress.acceptAll_complete_iff addDefault_follows es _).mp ⟨root, haccept, hdone⟩
  obtain ⟨w, htold⟩ := exists_toldBy hmem
  obtain rfl : v = w := Progress.Reads.unique ⟨root, haccept, hfinish⟩ (reads_default htold)
  exact ⟨told, htold, rfl⟩

/-- What a draft of an annotation reads tells elements. -/
lemma exists_tellAll_of_reads {type : TypeRef}
    (h : (Progress.pending (⟨[], ⟨type, []⟩⟩ : ValueDraft Annotation)).Reads es v) :
    ∃ elements told, ToldElement.TellAll elements told ∧
      v = .annotated type (elements.map (·.element)) ∧ es = told ++ [.valueEnd] := by
  obtain ⟨root, haccept, hfinish⟩ := h
  obtain ⟨told, hmem, _, ⟨_, ⟨_, rfl, rfl⟩, _, rfl, rfl⟩, rfl⟩ :=
    (Progress.acceptAll_complete_iff Annotation.add_follows es _).mp ⟨root, haccept, rfl⟩
  have hmem : told ∈ Spot.laterElements [] := hmem
  rw [Spot.laterElements_nil] at hmem
  obtain ⟨elements, htold⟩ := exists_tellAll_of_mem hmem
  exact ⟨elements, told, htold,
    Progress.Reads.unique ⟨root, haccept, hfinish⟩ (reads_elements type htold), rfl⟩

/-- A draft of a default reads exactly the values without a name, each followed by one end.  A
draft of an annotation, which there is if the descriptor of its type can be decoded, reads
exactly the elements under different names, followed by one end.  What it has then are the value
and the elements that it was told. -/
theorem reads_iff_toldBy (es : List ClassEvent) (v : Value) :
    ((Progress.pending ofDefault).Reads es v ↔
      ∃ told, v.ToldBy none told ∧ es = told ++ [.valueEnd]) ∧
    ∀ descriptor, (∃ d, annotationOf descriptor = .ok d ∧ (Progress.pending d).Reads es v) ↔
      ∃ type elements told, Descriptor.field descriptor = .ok type ∧
        ToldElement.TellAll elements told ∧ v = .annotated type (elements.map (·.element)) ∧
        es = told ++ [.valueEnd] := by
  refine ⟨⟨exists_toldBy_of_reads, ?_⟩, fun descriptor => ⟨?_, ?_⟩⟩
  · rintro ⟨told, htold, rfl⟩
    exact reads_default htold
  · rintro ⟨d, hd, hreads⟩
    rw [annotationOf] at hd
    cases htype : Descriptor.field descriptor with
    | error x =>
      rw [htype] at hd
      cases hd
    | ok type =>
      rw [htype] at hd
      obtain rfl := Except.ok.inj hd
      obtain ⟨elements, told, htold, hv, hes⟩ := exists_tellAll_of_reads hreads
      exact ⟨type, elements, told, rfl, htold, hv, hes⟩
  · rintro ⟨type, elements, told, htype, htold, rfl, rfl⟩
    refine ⟨⟨[], ⟨type, []⟩⟩, ?_, reads_elements type htold⟩
    rw [annotationOf, htype]
    rfl

end ValueDraft

end JavaScope
