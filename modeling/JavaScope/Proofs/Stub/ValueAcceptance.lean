/-
# What open values accept

The language of an open value holds what may follow until the value is closed.  What may follow
after one more event is the language of the draft that has accepted the event, and nothing if
the draft refuses it (`ValueDraft.quotient_rest`).  Names that are not fit for their place are
refused only when the value that carries them is closed, but from such a draft no way leads to an
end.
-/
import Mathlib.Computability.MyhillNerode
import JavaScope.Proofs.ClassFile.EventGrammar
import JavaScope.Proofs.Stub.ValueAssembly

namespace JavaScope

open scoped Computability

open EventGrammar

/-! ## Words by their first letter -/

section Quotients

variable {α : Type} {L M : Language α} {a : α}

lemma quotient_zero : (0 : Language α).leftQuotient [a] = 0 := rfl

lemma quotient_add : (L + M).leftQuotient [a] = L.leftQuotient [a] + M.leftQuotient [a] := rfl

lemma quotient_one : (1 : Language α).leftQuotient [a] = 0 := by
  ext w
  exact iff_of_false (List.cons_ne_nil a w) (Language.notMem_zero w)

lemma nil_notMem_mul (h : [] ∉ L) : [] ∉ L * M := by
  rintro ⟨u, hu, v, -, huv⟩
  obtain ⟨rfl, -⟩ := List.append_eq_nil_iff.mp huv
  exact h hu

lemma nil_notMem_mul_of_right (h : [] ∉ M) : [] ∉ L * M := by
  rintro ⟨u, -, v, hv, huv⟩
  obtain ⟨-, rfl⟩ := List.append_eq_nil_iff.mp huv
  exact h hv

lemma nil_notMem_add (hL : [] ∉ L) (hM : [] ∉ M) : [] ∉ L + M := by
  rintro (h | h)
  · exact hL h
  · exact hM h

/-- A factor without the empty word starts all words of a product. -/
lemma quotient_mul (h : [] ∉ L) : (L * M).leftQuotient [a] = L.leftQuotient [a] * M := by
  ext w
  constructor
  · rintro ⟨u, hu, v, hv, huv⟩
    cases u with
    | nil => exact absurd hu h
    | cons b u =>
      obtain ⟨rfl, rfl⟩ := List.cons.inj huv
      exact ⟨u, hu, v, hv, rfl⟩
  · rintro ⟨u, hu, v, hv, rfl⟩
    exact ⟨a :: u, hu, v, hv, rfl⟩

lemma quotient_kstar_mul (h : [] ∉ L) :
    (L∗ * M).leftQuotient [a] = L.leftQuotient [a] * (L∗ * M) + M.leftQuotient [a] := by
  have hunfold : L∗ * M = M + L * (L∗ * M) := by
    conv_lhs => rw [← Language.one_add_self_mul_kstar_eq_kstar L, add_mul, one_mul, mul_assoc]
  rw [hunfold, quotient_add, quotient_mul h, add_comm, ← hunfold]

end Quotients

section Events

variable {p : ClassEvent → Prop} {e : ClassEvent} {L : Language ClassEvent}

lemma nil_notMem_event : [] ∉ one p := by
  rintro ⟨e, -, h⟩
  cases h

open scoped Classical in
lemma quotient_event : (one p).leftQuotient [e] = if p e then 1 else 0 := by
  ext w
  split
  · next h =>
    constructor
    · rintro ⟨f, -, hf⟩
      exact (List.cons.inj hf).2
    · rintro rfl
      exact ⟨e, h, rfl⟩
  · next h =>
    refine iff_of_false ?_ (Language.notMem_zero w)
    rintro ⟨f, hp, hf⟩
    obtain ⟨rfl, -⟩ := List.cons.inj hf
    exact h hp

open scoped Classical in
/-- A first event leaves what must follow. -/
lemma quotient_event_mul : (one p * L).leftQuotient [e] = if p e then L else 0 := by
  rw [quotient_mul nil_notMem_event, quotient_event]
  split
  · rw [one_mul]
  · rw [zero_mul]

end Events

/-! ## Values -/

/-- The name that a value carries which starts with the event; nothing if no value does. -/
def ClassEvent.valueName? : ClassEvent → Option (Option String)
  | scalar name _ | enumValue name _ _ | classValue name _ | arrayStart name
  | nestedAnnotationStart name _ => some name
  | _ => none

section Values

variable {r : EventRules} {name : Option String} {e : ClassEvent} {es : List ClassEvent}

/-- A value is a single event, or a start, its parts and their end. -/
lemma value_eq (r : EventRules) (name : Option String) :
    value r name = one (∃ s, · = .scalar name s) +
      one (∃ descriptor constant, r.type descriptor ∧ · = .enumValue name descriptor constant) +
      one (∃ descriptor, r.type descriptor ∧ · = .classValue name descriptor) +
      one (· = .arrayStart name) * ((value r none)∗ * valueEnd) +
      one (∃ descriptor, r.type descriptor ∧ · = .nestedAnnotationStart name descriptor) *
        (elements r * valueEnd) := by
  ext es
  constructor
  · rintro (s | ⟨constant, ht⟩ | ⟨ht⟩ | ⟨items, hitems⟩ | ⟨parts, ht, hnames, hparts⟩)
    · exact .inl (.inl (.inl (.inl ⟨_, ⟨s, rfl⟩, rfl⟩)))
    · exact .inl (.inl (.inl (.inr ⟨_, ⟨_, constant, ht, rfl⟩, rfl⟩)))
    · exact .inl (.inl (.inr ⟨_, ⟨_, ht, rfl⟩, rfl⟩))
    · exact .inl (.inr ⟨_, ⟨_, rfl, rfl⟩, _, ⟨_, ⟨items, rfl, hitems⟩, _, ⟨_, rfl, rfl⟩, rfl⟩, rfl⟩)
    · exact .inr ⟨_, ⟨_, ⟨_, ht, rfl⟩, rfl⟩, _,
        ⟨_, ⟨parts, hnames, hparts, rfl⟩, _, ⟨_, rfl, rfl⟩, rfl⟩, rfl⟩
  · rintro ((((⟨_, ⟨s, rfl⟩, rfl⟩ | ⟨_, ⟨_, constant, ht, rfl⟩, rfl⟩) | ⟨_, ⟨_, ht, rfl⟩, rfl⟩) |
      ⟨_, ⟨_, rfl, rfl⟩, _, ⟨_, ⟨items, rfl, hitems⟩, _, ⟨_, rfl, rfl⟩, rfl⟩, rfl⟩) |
      ⟨_, ⟨_, ⟨_, ht, rfl⟩, rfl⟩, _, ⟨_, ⟨parts, hnames, hparts, rfl⟩, _, ⟨_, rfl, rfl⟩, rfl⟩, rfl⟩)
    · exact .scalar s
    · exact .enumValue constant ht
    · exact .classValue ht
    · exact .array items hitems
    · exact .annotated parts ht hnames hparts

lemma nil_notMem_value : [] ∉ value r name := by
  intro h
  cases h

lemma valueName?_of_mem (h : e :: es ∈ value r name) : e.valueName? = some name := by
  cases h <;> rfl

lemma quotient_value_of_ne (h : e.valueName? ≠ some name) :
    (value r name).leftQuotient [e] = 0 := by
  ext es
  exact iff_of_false (fun hes => h (valueName?_of_mem hes)) (Language.notMem_zero es)

lemma quotient_value_scalar (s : Scalar) :
    (value r name).leftQuotient [.scalar name s] = 1 := by
  rw [value_eq]
  simp only [quotient_add, quotient_event, quotient_event_mul]
  simp

open scoped Classical in
lemma quotient_value_enumValue (descriptor constant : String) :
    (value r name).leftQuotient [.enumValue name descriptor constant] =
      if r.type descriptor then 1 else 0 := by
  rw [value_eq]
  simp only [quotient_add, quotient_event, quotient_event_mul]
  simp

open scoped Classical in
lemma quotient_value_classValue (descriptor : String) :
    (value r name).leftQuotient [.classValue name descriptor] =
      if r.type descriptor then 1 else 0 := by
  rw [value_eq]
  simp only [quotient_add, quotient_event, quotient_event_mul]
  simp

lemma quotient_value_arrayStart :
    (value r name).leftQuotient [.arrayStart name] = (value r none)∗ * valueEnd := by
  rw [value_eq]
  simp only [quotient_add, quotient_event, quotient_event_mul]
  simp

open scoped Classical in
lemma quotient_value_nestedAnnotationStart (descriptor : String) :
    (value r name).leftQuotient [.nestedAnnotationStart name descriptor] =
      if r.type descriptor then elements r * valueEnd else 0 := by
  rw [value_eq]
  simp only [quotient_add, quotient_event, quotient_event_mul]
  simp

end Values

/-! ## Spots -/

/-- What drafts ask of events: descriptors can be decoded, and the elements of an annotation
have different names. -/
def EventRules.strict : EventRules where
  type descriptor := ∃ t, Descriptor.field descriptor = .ok t
  method descriptor := ∃ types, Descriptor.method descriptor = .ok types
  names := List.Nodup

/-- A place for values. -/
inductive Spot
  /-- In an array. -/
  | items
  /-- In an annotation that has elements of these names. -/
  | elements (used : List String)
  /-- In a default, which may be there already. -/
  | default (isFilled : Bool)

namespace Spot

/-- The spot with one more value, if a value may carry this name there. -/
def add : Spot → Option String → Option Spot
  | items, none => some items
  | elements used, some name => if name ∈ used then none else some (elements (used ++ [name]))
  | default false, none => some (default true)
  | _, _ => none

/-- The value around the spot may be closed. -/
def isDone : Spot → Bool
  | default isFilled => isFilled
  | _ => true

/-- More elements for an annotation that has elements of some names. -/
def laterElements (used : List String) : Language ClassEvent :=
  {es | ∃ parts : List (String × List ClassEvent), (parts.map (·.1)).Nodup ∧
    (∀ e ∈ parts, e.1 ∉ used ∧ e.2 ∈ value .strict (some e.1)) ∧ es = parts.flatMap (·.2)}

lemma laterElements_nil : laterElements [] = EventGrammar.elements .strict := by
  simp only [laterElements, List.not_mem_nil, not_false_eq_true, true_and]
  rfl

/-- The values that may still come. -/
def parts : Spot → Language ClassEvent
  | items => (value .strict none)∗
  | elements used => laterElements used
  | default false => value .strict none
  | default true => 1

/-- What may come until the value around the spot is closed, and then `after`. -/
def rest (s : Spot) (after : Language ClassEvent) : Language ClassEvent :=
  s.parts * (valueEnd * after)

/-- More values, and then `after`, where a value that carries this name came last: nothing if it
may not be there. -/
def next (s : Spot) (name : Option String) (after : Language ClassEvent) : Language ClassEvent :=
  match s.add name with
  | some s => s.parts * after
  | none => 0

/-- The values that may come first in a spot, with what may come after them. -/
def first (s : Spot) (e : ClassEvent) (after : Language ClassEvent) : Language ClassEvent :=
  match e.valueName? with
  | some name => (value .strict name).leftQuotient [e] * s.next name after
  | none => 0

variable {s : Spot} {e : ClassEvent} {L : Language ClassEvent}

lemma first_eq_zero (h : ∀ name, e.valueName? = some name → s.add name = none) :
    s.first e L = 0 := by
  unfold first
  split
  · next name hname => rw [next, h name hname, mul_zero]
  · rfl

lemma quotient_laterElements_mul (used : List String) :
    (laterElements used * L).leftQuotient [e] =
      (elements used).first e L + L.leftQuotient [e] := by
  ext es
  constructor
  · rintro ⟨_, ⟨parts, hnodup, hparts, rfl⟩, w, hw, heq⟩
    cases parts with
    | nil =>
      obtain rfl : w = e :: es := heq
      exact .inr hw
    | cons part parts =>
      obtain ⟨name, us⟩ := part
      obtain ⟨hnew, hus⟩ := hparts (name, us) (by simp)
      have hnames : name ∉ parts.map (·.1) ∧ (parts.map (·.1)).Nodup := List.nodup_cons.mp hnodup
      cases us with
      | nil => exact absurd hus nil_notMem_value
      | cons u us =>
        simp only [List.flatMap_cons, List.cons_append, List.cons.injEq, List.append_assoc] at heq
        obtain ⟨rfl, rfl⟩ := heq
        refine .inl ?_
        have hlater : parts.flatMap (·.2) ∈ laterElements (used ++ [name]) := by
          refine ⟨parts, hnames.2, fun part hpart => ⟨?_, (hparts part (by simp [hpart])).2⟩, rfl⟩
          have hne : part.1 ≠ name := by
            rintro rfl
            exact hnames.1 (List.mem_map.mpr ⟨part, hpart, rfl⟩)
          simp [(hparts part (by simp [hpart])).1, hne]
        rw [first, valueName?_of_mem hus]
        simp only [next, add, if_neg hnew]
        exact ⟨us, hus, _, ⟨_, hlater, w, hw, rfl⟩, rfl⟩
  · rintro (h | h)
    · rw [first] at h
      split at h
      · next name hname =>
        match name with
        | none =>
          simp only [next, add, mul_zero] at h
          exact absurd h (Language.notMem_zero es)
        | some name =>
          by_cases hnew : name ∈ used
          · simp only [next, add, if_pos hnew, mul_zero] at h
            exact absurd h (Language.notMem_zero es)
          · simp only [next, add, if_neg hnew] at h
            obtain ⟨us, hus, _, ⟨_, ⟨parts, hnodup, hparts, rfl⟩, w, hw, rfl⟩, rfl⟩ := h
            refine ⟨_, ⟨(name, e :: us) :: parts, ?_, ?_, rfl⟩, w, hw, by simp⟩
            · refine List.nodup_cons.mpr ⟨?_, hnodup⟩
              intro hmem
              obtain ⟨part, hpart, rfl⟩ := List.mem_map.mp hmem
              exact (hparts part hpart).1 (by simp)
            · intro part hpart
              rcases List.mem_cons.mp hpart with rfl | hpart
              · exact ⟨hnew, hus⟩
              · have hpart := hparts part hpart
                exact ⟨fun hmem => hpart.1 (by simp [hmem]), hpart.2⟩
      · exact absurd h (Language.notMem_zero es)
    · exact ⟨[], ⟨[], List.nodup_nil, by simp, rfl⟩, _, h, rfl⟩

/-- The word begins with a value that may be in the spot, or there are no more values. -/
lemma quotient_parts_mul :
    (s.parts * L).leftQuotient [e] = s.first e L + if s.isDone then L.leftQuotient [e] else 0 := by
  cases s with
  | items =>
    rw [parts, quotient_kstar_mul nil_notMem_value]
    congr 1
    by_cases h : e.valueName? = some none
    · rw [first, h]
      rfl
    · rw [quotient_value_of_ne h, zero_mul, first_eq_zero]
      rintro (_ | name) hname
      · exact absurd hname h
      · rfl
  | elements used => exact quotient_laterElements_mul used
  | default isFilled =>
    cases isFilled with
    | true =>
      have hfirst : (default true).first e L = 0 :=
        first_eq_zero fun name _ => by cases name <;> rfl
      rw [hfirst, parts, one_mul]
      exact (zero_add _).symm
    | false =>
      rw [parts, quotient_mul nil_notMem_value]
      have hzero : (if (default false).isDone then L.leftQuotient [e] else 0) = 0 := rfl
      rw [hzero, add_zero]
      by_cases h : e.valueName? = some none
      · simp only [first, h, next, add, parts, one_mul]
      · rw [quotient_value_of_ne h, zero_mul, first_eq_zero]
        rintro (_ | name) hname
        · exact absurd hname h
        · rfl

/-- Where a value may come, what may follow after its first event. -/
lemma quotient_rest_value {name : Option String} (h : e.valueName? = some name) :
    (s.rest L).leftQuotient [e] =
      (value .strict name).leftQuotient [e] * s.next name (valueEnd * L) := by
  have hend : (valueEnd * L).leftQuotient [e] = 0 := by
    rw [valueEnd, quotient_event_mul, if_neg]
    rintro rfl
    cases h
  rw [rest, quotient_parts_mul, hend, first, h]
  simp

lemma quotient_rest_valueEnd :
    (s.rest L).leftQuotient [.valueEnd] = if s.isDone then L else 0 := by
  rw [rest, quotient_parts_mul, first_eq_zero (by rintro name ⟨⟩), zero_add, valueEnd,
    quotient_event_mul, if_pos rfl]

/-- Only values and the end of a value may come. -/
lemma quotient_rest_other (h : e.valueName? = none) (hend : e ≠ .valueEnd) :
    (s.rest L).leftQuotient [e] = 0 := by
  rw [rest, quotient_parts_mul, first_eq_zero (by simp [h]), zero_add, valueEnd,
    quotient_event_mul, if_neg hend]
  simp

end Spot

/-! ## Open values -/

/-- Adding values is refused exactly where the spot does not allow it. -/
def Follows {σ : Type} (add : σ → Option String → Value → Except ClassError σ)
    (spot : σ → Spot) : Prop :=
  ∀ s name v, (add s name v).toOption.map spot = (spot s).add name

/-- The spot in an open annotation. -/
def Annotation.spot (a : Annotation) : Spot := .elements (a.elements.map (·.1))

lemma add_of_mem {a : Annotation} {name : String} (v : Value) (h : name ∈ a.elements.map (·.1)) :
    a.add (some name) v = .error (.malformed 0 (.duplicateElement name)) := by
  obtain ⟨w, hw⟩ : ∃ w, a.get? name = some w := by
    rw [← Option.ne_none_iff_exists', Annotation.get?, ne_eq, List.lookup_eq_none_iff]
    intro hnone
    obtain ⟨e, he, rfl⟩ := List.mem_map.mp h
    simpa using hnone e he
  have hinsert : a.insert? name v = none := by
    unfold Annotation.insert?
    rw [hw]
  unfold Annotation.add
  simp only [hinsert]

lemma Annotation.add_follows : Follows Annotation.add Annotation.spot := by
  intro a name v
  cases name with
  | none => rfl
  | some name =>
    by_cases h : name ∈ a.elements.map (·.1)
    · rw [add_of_mem v h, spot, Spot.add, if_pos h]
      rfl
    · rw [add_of_not_mem v h, spot, Spot.add, if_neg h]
      simp [Except.toOption, spot]

/-- The spot of a default. -/
def defaultSpot (root : Option Value) : Spot := .default root.isSome

lemma addDefault_follows : Follows addDefault defaultSpot := by
  rintro (_ | v) (_ | name) w <;> rfl

namespace Compound

/-- The spot in an open compound. -/
def spot : Compound → Spot
  | array .. => .items
  | annotated _ a => a.spot

lemma add_follows : Follows Compound.add Compound.spot := by
  intro k name v
  cases k with
  | array own items => cases name <;> rfl
  | annotated own a =>
    refine Eq.trans ?_ (a.add_follows name v)
    show (a.add name v >>= fun a => pure (annotated own a)).toOption.map _ = _
    cases a.add name v <;> rfl

lemma name_of_add {k k' : Compound} {name : Option String} {v : Value}
    (h : k.add name v = .ok k') : k'.name = k.name := by
  cases k with
  | array own items =>
    cases name with
    | none => obtain rfl := Except.ok.inj h; rfl
    | some name => cases h
  | annotated own a =>
    have h : (a.add name v >>= fun a => pure (annotated own a)) = .ok k' := h
    cases hadd : a.add name v with
    | error x => rw [hadd] at h; cases h
    | ok b => rw [hadd] at h; obtain rfl := Except.ok.inj h; rfl

end Compound

/-- The spot that values are added to, under a root and some open compounds. -/
def Spot.innermost (root : Spot) : List Compound → Spot
  | [] => root
  | k :: _ => k.spot

/-- What may follow when the innermost value is closed: the compound becomes a part of what is
around it, and in the end the root is closed, and then comes `after`. -/
def Spot.outside (root : Spot) (after : Language ClassEvent) : List Compound → Language ClassEvent
  | [] => after
  | k :: ks => (root.innermost ks).next k.name (valueEnd * root.outside after ks)

namespace ValueDraft

section

variable {ρ : Type} (spot : ρ → Spot) (after : Language ClassEvent)

/-- What may follow while the draft is open, with `after` when it is closed. -/
def rest (d : ValueDraft ρ) : Language ClassEvent :=
  ((spot d.root).innermost d.compounds).rest ((spot d.root).outside after d.compounds)

lemma nil_notMem_rest (d : ValueDraft ρ) : [] ∉ d.rest spot after :=
  nil_notMem_mul_of_right (nil_notMem_mul nil_notMem_event)

/-- What may follow when a value with this name is complete and not yet added. -/
def restAfterValue (d : ValueDraft ρ) (name : Option String) : Language ClassEvent :=
  ((spot d.root).innermost d.compounds).next name
    (valueEnd * (spot d.root).outside after d.compounds)

/-- What may follow after a step of the draft. -/
def restOf : Except ClassError (Progress ρ) → Language ClassEvent
  | .ok (.pending d) => d.rest spot after
  | .ok (.complete root) => if (spot root).isDone then after else 0
  | .error _ => 0

end

variable {ρ : Type} [ValueRoot ρ] {spot : ρ → Spot} (hspot : Follows ValueRoot.add spot)
  (after : Language ClassEvent)

include hspot

/-- Adding the value is refused where nothing may follow after it. -/
lemma restAfterValue_eq (d : ValueDraft ρ) (name : Option String) (v : Value) :
    d.restAfterValue spot after name =
      restOf spot after (do return .pending (← d.add name v)) := by
  obtain ⟨ks, root⟩ := d
  cases ks with
  | nil =>
    have hadd := hspot root name v
    show (spot root).next name _ = restOf spot after
      (do return .pending (← (do return ⟨[], ← ValueRoot.add root name v⟩)))
    cases h : ValueRoot.add root name v with
    | error x =>
      rw [h] at hadd
      rw [Spot.next, ← hadd]
      rfl
    | ok root' =>
      rw [h] at hadd
      rw [Spot.next, ← hadd]
      rfl
  | cons k ks =>
    have hadd := k.add_follows name v
    show k.spot.next name _ = restOf spot after
      (do return .pending (← (do return ⟨(← k.add name v) :: ks, root⟩)))
    cases h : k.add name v with
    | error x =>
      rw [h] at hadd
      rw [Spot.next, ← hadd]
      rfl
    | ok k' =>
      rw [h] at hadd
      rw [Spot.next, ← hadd]
      show k'.spot.rest (((spot root).innermost ks).next k.name _) =
        k'.spot.rest (((spot root).innermost ks).next k'.name _)
      rw [Compound.name_of_add h]

/-- What may follow after an event is what may follow after the step of the draft. -/
theorem quotient_rest (d : ValueDraft ρ) (e : ClassEvent) :
    (d.rest spot after).leftQuotient [e] = restOf spot after (d.accept e) := by
  cases e with
  | scalar name s =>
    rw [rest, Spot.quotient_rest_value rfl, quotient_value_scalar, one_mul]
    exact restAfterValue_eq hspot after d name (.scalar s)
  | enumValue name descriptor constant =>
    rw [rest, Spot.quotient_rest_value rfl, quotient_value_enumValue]
    cases h : Descriptor.field descriptor with
    | error x => simp [accept, EventRules.strict, h, restOf, bind, Except.bind]
    | ok t =>
      rw [if_pos ⟨t, h⟩, one_mul, accept, h]
      exact restAfterValue_eq hspot after d name (.enumConstant t constant)
  | classValue name descriptor =>
    rw [rest, Spot.quotient_rest_value rfl, quotient_value_classValue]
    cases h : Descriptor.field descriptor with
    | error x => simp [accept, EventRules.strict, h, restOf, bind, Except.bind]
    | ok t =>
      rw [if_pos ⟨t, h⟩, one_mul, accept, h]
      exact restAfterValue_eq hspot after d name (.classLiteral t)
  | arrayStart name =>
    rw [rest, Spot.quotient_rest_value rfl, quotient_value_arrayStart, mul_assoc]
    rfl
  | nestedAnnotationStart name descriptor =>
    rw [rest, Spot.quotient_rest_value rfl, quotient_value_nestedAnnotationStart]
    cases h : Descriptor.field descriptor with
    | error x => simp [accept, EventRules.strict, h, restOf, bind, Except.bind]
    | ok t =>
      rw [if_pos ⟨t, h⟩, mul_assoc, accept, h, ← Spot.laterElements_nil]
      rfl
  | valueEnd =>
    rw [rest, Spot.quotient_rest_valueEnd]
    obtain ⟨ks, root⟩ := d
    cases ks with
    | nil => rfl
    | cons k ks =>
      have hdone : k.spot.isDone = true := by cases k <;> rfl
      show (if k.spot.isDone then _ else _) = _
      rw [hdone, if_pos rfl]
      exact restAfterValue_eq hspot after ⟨ks, root⟩ k.name k.value
  | _ => exact Spot.quotient_rest_other rfl (by simp)

end ValueDraft

end JavaScope
