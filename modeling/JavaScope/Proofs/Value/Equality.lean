/-
# The equality of values

The elements of an annotation have different names, because each is added under a name that is
new (`Value.WellNamed`, `Annotation.wellNamed_insert?`).  On values with this property, equality is
symmetric and transitive.  It is reflexive on the values without a non-number in them, and on these
only.  It does not see the order of the elements of annotations, at any depth, but the order of the
items of arrays (`Value.same_comparesSoundly`).

Two arrays are compared place by place, and two annotations name by name: every element of the
first has an equal one of its name in the second.  That this suffices, and is symmetric, is due to
the equal number of different names on both sides.
-/
import Mathlib.Data.List.Forall2
import Mathlib.Data.List.Perm.Subperm
import JavaScope.Proofs.Lookup
import JavaScope.Value.Basic

namespace JavaScope

/-! ## Scalars -/

namespace Scalar

variable {s t u : Scalar}

/-- Equal scalars are equal numbers of one format, or the same and no numbers of either. -/
lemma same_cases (h : s.same t = true) :
    (∃ a b, s = .float a ∧ t = .float b ∧
        Decimal.binary32.sameNumber a.toNat b.toNat = true) ∨
      (∃ a b, s = .double a ∧ t = .double b ∧
        Decimal.binary64.sameNumber a.toNat b.toNat = true) ∨
      (s = t ∧ s.same s = true) := by
  unfold same at h
  split at h
  · exact .inl ⟨_, _, rfl, rfl, h⟩
  · exact .inr (.inl ⟨_, _, rfl, rfl, h⟩)
  · next hfloat hdouble =>
    obtain rfl : s = t := of_decide_eq_true h
    refine .inr (.inr ⟨rfl, ?_⟩)
    cases s with
    | float a => exact absurd rfl (hfloat a a rfl)
    | double a => exact absurd rfl (hdouble a a rfl)
    | _ => simp [same]

lemma sameNumber_comm (f : Decimal.Format) (a b : Nat) :
    f.sameNumber a b = f.sameNumber b a := by
  simp only [Decimal.Format.sameNumber, Bool.and_comm, eq_comm]

lemma sameNumber_trans {f : Decimal.Format} {a b c : Nat} (h : f.sameNumber a b = true)
    (h' : f.sameNumber b c = true) : f.sameNumber a c = true := by
  simp only [Decimal.Format.sameNumber, Bool.and_eq_true, Bool.or_eq_true,
    decide_eq_true_eq] at h h' ⊢
  obtain ⟨⟨ha, -⟩, hab⟩ := h
  obtain ⟨⟨-, hc⟩, hbc⟩ := h'
  refine ⟨⟨ha, hc⟩, ?_⟩
  rcases hab with rfl | ⟨hzero, hzero'⟩
  · exact hbc
  · rcases hbc with rfl | ⟨-, hzero''⟩
    · exact .inr ⟨hzero, hzero'⟩
    · exact .inr ⟨hzero, hzero''⟩

lemma same_symm (h : s.same t = true) : t.same s = true := by
  rcases same_cases h with ⟨a, b, rfl, rfl, hab⟩ | ⟨a, b, rfl, rfl, hab⟩ | ⟨rfl, hs⟩
  · exact (sameNumber_comm _ _ _).trans hab
  · exact (sameNumber_comm _ _ _).trans hab
  · exact hs

lemma same_trans (h : s.same t = true) (h' : t.same u = true) : s.same u = true := by
  rcases same_cases h with ⟨a, b, rfl, rfl, hab⟩ | ⟨a, b, rfl, rfl, hab⟩ | ⟨rfl, -⟩
  · rcases same_cases h' with ⟨_, c, hb, rfl, hbc⟩ | ⟨_, c, hb, rfl, hbc⟩ | ⟨rfl, -⟩
    · cases hb
      exact sameNumber_trans hab hbc
    · cases hb
    · exact hab
  · rcases same_cases h' with ⟨_, c, hb, rfl, hbc⟩ | ⟨_, c, hb, rfl, hbc⟩ | ⟨rfl, -⟩
    · cases hb
    · cases hb
      exact sameNumber_trans hab hbc
    · exact hab
  · exact h'

lemma same_self (s : Scalar) : s.same s = !s.isNaN := by
  cases s <;> simp [same, isNaN, Decimal.Format.sameNumber]

end Scalar

namespace Value

/-! ## Values and their parts -/

/-- Induction along values: items of arrays and elements of annotations. -/
@[elab_as_elim]
theorem induct {P : Value → Prop} (scalar : ∀ s, P (.scalar s))
    (classLiteral : ∀ t, P (.classLiteral t)) (enumConstant : ∀ t n, P (.enumConstant t n))
    (array : ∀ items, (∀ i ∈ items, P i) → P (.array items))
    (annotated : ∀ t elements, (∀ e ∈ elements, P e.2) → P (.annotated t elements)) :
    ∀ v, P v
  | .scalar s => scalar s
  | .classLiteral t => classLiteral t
  | .enumConstant t n => enumConstant t n
  | .array items => array items fun i _ =>
    induct scalar classLiteral enumConstant array annotated i
  | .annotated t elements => annotated t elements fun e he =>
    have : sizeOf e.2 < sizeOf elements := by
      have hmem := List.sizeOf_lt_of_mem he
      obtain ⟨n, v⟩ := e
      simp only [Prod.mk.sizeOf_spec] at hmem ⊢
      omega
    induct scalar classLiteral enumConstant array annotated e.2

/-- The scalar stands somewhere in the value. -/
inductive Contains : Value → Scalar → Prop
  | scalar (s : Scalar) : Contains (.scalar s) s
  | item {items : List Value} {i : Value} {s : Scalar} : i ∈ items → Contains i s →
      Contains (.array items) s
  | element {t : TypeRef} {elements : List (String × Value)} {e : String × Value} {s : Scalar} :
      e ∈ elements → Contains e.2 s → Contains (.annotated t elements) s

/-- There is no non-number in the value. -/
def NaNFree (v : Value) : Prop := ∀ s, v.Contains s → s.isNaN = false

/-- The elements of each annotation in the value have different names. -/
inductive WellNamed : Value → Prop
  | scalar (s : Scalar) : WellNamed (.scalar s)
  | classLiteral (t : TypeRef) : WellNamed (.classLiteral t)
  | enumConstant (t : TypeRef) (name : String) : WellNamed (.enumConstant t name)
  | array {items : List Value} : (∀ i ∈ items, WellNamed i) → WellNamed (.array items)
  | annotated {t : TypeRef} {elements : List (String × Value)} : (elements.map (·.1)).Nodup →
      (∀ e ∈ elements, WellNamed e.2) → WellNamed (.annotated t elements)

variable {u v w : Value} {items items' : List Value} {elements elements' : List (String × Value)}
  {t t' : TypeRef}

lemma nanFree_scalar {s : Scalar} : (Value.scalar s).NaNFree ↔ s.isNaN = false := by
  constructor
  · exact fun h => h s (.scalar s)
  · rintro h _ ⟨⟩
    exact h

lemma nanFree_array : (Value.array items).NaNFree ↔ ∀ i ∈ items, i.NaNFree := by
  constructor
  · exact fun h i hi s hs => h s (.item hi hs)
  · rintro h s (_ | ⟨hi, hs⟩)
    exact h _ hi s hs

lemma nanFree_annotated : (Value.annotated t elements).NaNFree ↔ ∀ e ∈ elements, e.2.NaNFree := by
  constructor
  · exact fun h e he s hs => h s (.element he hs)
  · rintro h s (_ | _ | ⟨he, hs⟩)
    exact h _ he s hs

lemma nanFree_classLiteral (t : TypeRef) : (Value.classLiteral t).NaNFree := nofun

lemma nanFree_enumConstant (t : TypeRef) (name : String) : (Value.enumConstant t name).NaNFree :=
  nofun

lemma WellNamed.item (h : (Value.array items).WellNamed) (hv : v ∈ items) : v.WellNamed := by
  cases h with
  | array hitems => exact hitems v hv

lemma WellNamed.names (h : (Value.annotated t elements).WellNamed) :
    (elements.map (·.1)).Nodup := by
  cases h with
  | annotated hnames _ => exact hnames

lemma WellNamed.element (h : (Value.annotated t elements).WellNamed) {e : String × Value}
    (he : e ∈ elements) : e.2.WellNamed := by
  cases h with
  | annotated _ hvalues => exact hvalues e he

/-! ## Equality part by part -/

/-- Items are compared place by place. -/
lemma sameItems_iff : sameItems items items' = true ↔ items.length = items'.length ∧
    ∀ k (hk : k < items.length) (hk' : k < items'.length), items[k].same items'[k] = true := by
  have hall : sameItems items items' = true ↔
      List.Forall₂ (fun a b => a.same b = true) items items' := by
    induction items generalizing items' with
    | nil => cases items' <;> simp [sameItems]
    | cons a items ih =>
      cases items' with
      | nil => simp [sameItems]
      | cons b items' => rw [sameItems, Bool.and_eq_true, ih, List.forall₂_cons]
  exact hall.trans List.forall₂_iff_get

/-- Elements are compared name by name. -/
lemma sameElements_iff : sameElements elements elements' = true ↔
    ∀ e ∈ elements, ∃ b, elements'.lookup e.1 = some b ∧ e.2.same b = true := by
  induction elements with
  | nil => simp [sameElements]
  | cons e elements ih =>
    rw [sameElements, Bool.and_eq_true, ih, List.forall_mem_cons]
    refine and_congr_left fun _ => ?_
    cases elements'.lookup e.1 <;> simp

lemma same_annotated_iff : (Value.annotated t elements).same (.annotated t' elements') = true ↔
    t = t' ∧ elements.length = elements'.length ∧
      ∀ e ∈ elements, ∃ b, elements'.lookup e.1 = some b ∧ e.2.same b = true := by
  rw [same, Bool.and_eq_true, Bool.and_eq_true, decide_eq_true_eq, decide_eq_true_eq,
    sameElements_iff, and_assoc]

/-- Names are found on both sides if there are as many of them and none is repeated. -/
lemma mem_names_of_same (hnames : (elements.map (·.1)).Nodup)
    (hlength : elements.length = elements'.length)
    (hfound : ∀ e ∈ elements, ∃ b, elements'.lookup e.1 = some b) {name : String}
    (h : name ∈ elements'.map (·.1)) : name ∈ elements.map (·.1) := by
  have hsub : elements.map (·.1) ⊆ elements'.map (·.1) := by
    intro n hn
    obtain ⟨e, he, rfl⟩ := List.mem_map.mp hn
    obtain ⟨b, hb⟩ := hfound e he
    exact List.mem_map_of_mem (f := (·.1)) (mem_of_lookup_eq_some hb)
  have hperm : (elements.map (·.1)).Perm (elements'.map (·.1)) :=
    (List.subperm_of_subset hnames hsub).perm_of_length_le (by simp [hlength])
  exact hperm.mem_iff.mpr h

/-! ## Laws -/

lemma same_symm (hu : u.WellNamed) (hv : v.WellNamed) (h : u.same v = true) :
    v.same u = true := by
  induction u using induct generalizing v with
  | scalar s =>
    cases v with
    | scalar s' => exact Scalar.same_symm h
    | _ => cases h
  | classLiteral t =>
    cases v with
    | classLiteral t' =>
      obtain rfl : t = t' := of_decide_eq_true h
      exact h
    | _ => cases h
  | enumConstant t n =>
    cases v with
    | enumConstant t' n' =>
      obtain ⟨rfl, rfl⟩ : t = t' ∧ n = n' := by simpa [same] using h
      exact h
    | _ => cases h
  | array items ih =>
    cases v with
    | array items' =>
      obtain ⟨hlength, hsame⟩ := sameItems_iff.mp h
      refine sameItems_iff.mpr ⟨hlength.symm, fun k hk' hk => ?_⟩
      exact ih _ (List.getElem_mem hk) (hu.item (List.getElem_mem hk))
        (hv.item (List.getElem_mem hk')) (hsame k hk hk')
    | _ => cases h
  | annotated t elements ih =>
    cases v with
    | annotated t' elements' =>
      obtain ⟨rfl, hlength, hsame⟩ := same_annotated_iff.mp h
      refine same_annotated_iff.mpr ⟨rfl, hlength.symm, fun e he => ?_⟩
      -- the name is on the left, and what it was compared with there is this element
      have hname : e.1 ∈ elements.map (·.1) := by
        refine mem_names_of_same hu.names hlength (fun d hd => ?_) (List.mem_map_of_mem he)
        obtain ⟨b, hb, -⟩ := hsame d hd
        exact ⟨b, hb⟩
      obtain ⟨d, hd, hde⟩ := List.mem_map.mp hname
      obtain ⟨b, hb, hsame⟩ := hsame d hd
      have hbe : b = e.2 := by
        rw [hde, lookup_eq_some_of_mem hv.names (k := e.1) (v := e.2) he] at hb
        exact (Option.some.inj hb).symm
      have hlookup := lookup_eq_some_of_mem hu.names (k := d.1) (v := d.2) hd
      rw [hde] at hlookup
      exact ⟨d.2, hlookup, ih d hd (hu.element hd) (hv.element he) (hbe ▸ hsame)⟩
    | _ => cases h

lemma same_trans (h : u.same v = true) (h' : v.same w = true) : u.same w = true := by
  induction u using induct generalizing v w with
  | scalar s =>
    cases v with
    | scalar s' =>
      cases w with
      | scalar s'' => exact Scalar.same_trans h h'
      | _ => cases h'
    | _ => cases h
  | classLiteral t =>
    cases v with
    | classLiteral t' =>
      obtain rfl : t = t' := of_decide_eq_true h
      exact h'
    | _ => cases h
  | enumConstant t n =>
    cases v with
    | enumConstant t' n' =>
      obtain ⟨rfl, rfl⟩ : t = t' ∧ n = n' := by simpa [same] using h
      exact h'
    | _ => cases h
  | array items ih =>
    cases v with
    | array items' =>
      cases w with
      | array items'' =>
        obtain ⟨hlength, hsame⟩ := sameItems_iff.mp h
        obtain ⟨hlength', hsame'⟩ := sameItems_iff.mp h'
        refine sameItems_iff.mpr ⟨hlength.trans hlength', fun k hk hk'' => ?_⟩
        have hk' : k < items'.length := hlength ▸ hk
        exact ih _ (List.getElem_mem hk) (hsame k hk hk') (hsame' k hk' hk'')
      | _ => cases h'
    | _ => cases h
  | annotated t elements ih =>
    cases v with
    | annotated t' elements' =>
      cases w with
      | annotated t'' elements'' =>
        obtain ⟨rfl, hlength, hsame⟩ := same_annotated_iff.mp h
        obtain ⟨rfl, hlength', hsame'⟩ := same_annotated_iff.mp h'
        refine same_annotated_iff.mpr ⟨rfl, hlength.trans hlength', fun e he => ?_⟩
        obtain ⟨b, hb, heb⟩ := hsame e he
        obtain ⟨c, hc, hbc⟩ := hsame' _ (mem_of_lookup_eq_some hb)
        exact ⟨c, hc, ih e he heb hbc⟩
      | _ => cases h'
    | _ => cases h

lemma same_self_iff (hu : u.WellNamed) : u.same u = true ↔ u.NaNFree := by
  induction u using induct with
  | scalar s => rw [nanFree_scalar, same, Scalar.same_self, Bool.not_eq_true']
  | classLiteral t => simp [same, nanFree_classLiteral]
  | enumConstant t n => simp [same, nanFree_enumConstant]
  | array items ih =>
    rw [nanFree_array, same, sameItems_iff, List.forall_mem_iff_getElem]
    constructor
    · exact fun ⟨_, hsame⟩ k hk =>
        (ih _ (List.getElem_mem hk) (hu.item (List.getElem_mem hk))).mp (hsame k hk hk)
    · exact fun hfree => ⟨rfl, fun k hk _ =>
        (ih _ (List.getElem_mem hk) (hu.item (List.getElem_mem hk))).mpr (hfree k hk)⟩
  | annotated t elements ih =>
    rw [nanFree_annotated, same_annotated_iff]
    -- each element is found under its own name
    have hown : ∀ e ∈ elements, elements.lookup e.1 = some e.2 := fun e he =>
      lookup_eq_some_of_mem hu.names he
    constructor
    · rintro ⟨-, -, hsame⟩ e he
      obtain ⟨b, hb, heb⟩ := hsame e he
      rw [hown e he, Option.some.injEq] at hb
      subst hb
      exact (ih e he (hu.element he)).mp heb
    · exact fun hfree => ⟨rfl, rfl, fun e he =>
        ⟨e.2, hown e he, (ih e he (hu.element he)).mpr (hfree e he)⟩⟩

/-! ## Reordered elements -/

/-- The second value is the first one with the elements of annotations in other orders, at any
depth.  Items of arrays stay where they are. -/
inductive Reorders : Value → Value → Prop
  | scalar (s : Scalar) : Reorders (.scalar s) (.scalar s)
  | classLiteral (t : TypeRef) : Reorders (.classLiteral t) (.classLiteral t)
  | enumConstant (t : TypeRef) (name : String) :
      Reorders (.enumConstant t name) (.enumConstant t name)
  | array (items : List (Value × Value)) : (∀ i ∈ items, Reorders i.1 i.2) →
      Reorders (.array (items.map (·.1))) (.array (items.map (·.2)))
  | annotated (t : TypeRef) (elements : List (String × Value × Value))
      {reordered : List (String × Value)} : (∀ e ∈ elements, Reorders e.2.1 e.2.2) →
      reordered.Perm (elements.map fun e => (e.1, e.2.2)) →
      Reorders (.annotated t (elements.map fun e => (e.1, e.2.1))) (.annotated t reordered)

lemma Reorders.same (h : u.Reorders v) (hu : u.WellNamed) (hfree : u.NaNFree) :
    u.same v = true := by
  induction h with
  | scalar s => exact (same_self_iff hu).mpr hfree
  | classLiteral t => exact (same_self_iff hu).mpr hfree
  | enumConstant t name => exact (same_self_iff hu).mpr hfree
  | array items _ ih =>
    rw [nanFree_array] at hfree
    refine sameItems_iff.mpr ⟨by simp, fun k hk hk' => ?_⟩
    rw [List.length_map] at hk
    have hmem : items[k].1 ∈ items.map (·.1) := List.mem_map_of_mem (List.getElem_mem hk)
    simpa using ih _ (List.getElem_mem hk) (hu.item hmem) (hfree _ hmem)
  | annotated t elements _ hperm ih =>
    rw [nanFree_annotated] at hfree
    refine same_annotated_iff.mpr ⟨rfl, by simpa using hperm.length_eq.symm, ?_⟩
    rw [List.forall_mem_map]
    intro e he
    have hmem : (e.1, e.2.1) ∈ elements.map fun e => (e.1, e.2.1) := List.mem_map_of_mem he
    refine ⟨e.2.2, lookup_eq_some_of_mem ?_ ?_, ih e he (hu.element hmem) (hfree _ hmem)⟩
    · -- the names are the same ones
      refine (hperm.map (·.1)).nodup_iff.mpr ?_
      simpa [List.map_map, Function.comp_def] using hu.names
    · exact hperm.mem_iff.mpr (List.mem_map_of_mem he)

/-! ## The comparison -/

/-- Equality of values whose annotations name each element once is symmetric, and it is transitive.
A value equals itself exactly if there is no non-number in it, and then it equals every value that
has the elements of its annotations in another order, at whatever depth.  Two arrays are equal
exactly if they have the same length and equal items at the same places. -/
theorem same_comparesSoundly {u v w : Value} (hu : u.WellNamed) (hv : v.WellNamed) :
    u.same v = v.same u ∧
      (u.same v = true → v.same w = true → u.same w = true) ∧
      (u.same u = true ↔ u.NaNFree) ∧
      (u.NaNFree → u.Reorders v → u.same v = true) ∧
      ∀ as bs, (Value.array as).same (.array bs) = true ↔ as.length = bs.length ∧
        ∀ k (hk : k < as.length) (hk' : k < bs.length), as[k].same bs[k] = true := by
  refine ⟨?_, same_trans, same_self_iff hu, fun hfree h => h.same hu hfree, fun as bs => ?_⟩
  · exact Bool.eq_iff_iff.mpr ⟨same_symm hu hv, same_symm hv hu⟩
  · rw [same, sameItems_iff]

/-- A non-number differs from itself. -/
example : (Value.scalar (.float 0x7FC00000)).same (.scalar (.float 0x7FC00000)) = false := by
  decide

/-- An annotation of an array, with both zeros in it, and of a text. -/
def zerosAndText : Value :=
  .annotated ⟨"p.A"⟩
    [("zeros", .array [.scalar (.float 0), .scalar (.float 0x80000000)]),
      ("text", .scalar (.string "a"))]

/-- The same annotation, with the text in front. -/
def textAndZeros : Value :=
  .annotated ⟨"p.A"⟩
    [("text", .scalar (.string "a")),
      ("zeros", .array [.scalar (.float 0), .scalar (.float 0x80000000)])]

/-- The two annotations are the same, in either order. -/
theorem same_comparesSoundly_zeros :
    zerosAndText.WellNamed ∧ textAndZeros.WellNamed ∧ zerosAndText.NaNFree ∧
      zerosAndText.Reorders textAndZeros ∧ zerosAndText.same textAndZeros = true ∧
      textAndZeros.same zerosAndText = true := by
  have hzeros : (Value.array [.scalar (.float 0), .scalar (.float 0x80000000)]).WellNamed :=
    .array fun i hi => by
      rcases List.mem_pair.mp hi with rfl | rfl <;> exact .scalar _
  have hu : zerosAndText.WellNamed := .annotated (by decide) fun e he => by
    rcases List.mem_pair.mp he with rfl | rfl
    · exact hzeros
    · exact .scalar _
  have hv : textAndZeros.WellNamed := .annotated (by decide) fun e he => by
    rcases List.mem_pair.mp he with rfl | rfl
    · exact .scalar _
    · exact hzeros
  have hreorders : zerosAndText.Reorders textAndZeros := by
    refine .annotated ⟨"p.A"⟩
      [("zeros", .array [.scalar (.float 0), .scalar (.float 0x80000000)],
          .array [.scalar (.float 0), .scalar (.float 0x80000000)]),
        ("text", .scalar (.string "a"), .scalar (.string "a"))] (fun e he => ?_) (.swap ..)
    rcases List.mem_pair.mp he with rfl | rfl
    · refine .array [(.scalar (.float 0), .scalar (.float 0)),
        (.scalar (.float 0x80000000), .scalar (.float 0x80000000))] fun i hi => ?_
      rcases List.mem_pair.mp hi with rfl | rfl <;> exact .scalar _
    · exact .scalar _
  obtain ⟨hcomm, -, hself, hreordered, -⟩ := same_comparesSoundly (w := zerosAndText) hu hv
  have hfree : zerosAndText.NaNFree := hself.mp (by decide)
  have hsame := hreordered hfree hreorders
  exact ⟨hu, hv, hfree, hreorders, hsame, hcomm ▸ hsame⟩

end Value

/-- Annotations get their elements one by one, each under a name that is new. -/
theorem Annotation.wellNamed_insert? {a b : Annotation} {name : String} {v : Value}
    (ha : a.toValue.WellNamed) (hv : v.WellNamed) (h : a.insert? name v = some b) :
    b.toValue.WellNamed := by
  unfold insert? get? at h
  split at h
  · cases h
  · next hnone =>
    cases h
    rw [List.lookup_eq_none_iff] at hnone
    refine .annotated ?_ fun e he => ?_
    · rw [List.map_append, List.map_singleton, List.nodup_append]
      refine ⟨ha.names, List.nodup_singleton name, ?_⟩
      intro n hn m hm
      obtain ⟨e, he, rfl⟩ := List.mem_map.mp hn
      rw [List.mem_singleton.mp hm]
      exact fun heq => by simpa [heq] using hnone e he
    · rcases List.mem_append.mp he with he | he
      · exact ha.element he
      · rw [List.mem_singleton.mp he]
        exact hv

end JavaScope
