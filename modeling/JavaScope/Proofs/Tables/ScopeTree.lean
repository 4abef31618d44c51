/-
# Scopes inside scopes

The scopes of a file form a tree.  No scope is inside itself.  If the identities of scopes differ,
then scopes inside different children of a scope differ, and a scope is a child of one scope at
most (`around_unique`).  A walk that keeps the scopes still to come on a stack takes the scopes of
the tree in order (`walk_eq`).
-/
import Mathlib.Data.List.Nodup
import Mathlib.Data.List.Pairwise
import Mathlib.Tactic.Lemma
import JavaScope.Source

namespace JavaScope.Scope

/-- Induction along the tree. -/
@[elab_as_elim]
theorem induct {P : Scope → Prop} (node : ∀ i cs, (∀ c ∈ cs, P c) → P (.node i cs)) :
    ∀ s, P s
  | .node i cs => node i cs fun c _ => induct node c

/-! ## Membership -/

variable {r e s c c' : Scope}

lemma mem_descendants : s ∈ r.descendants ↔ s = r ∨ s ∈ descendantsOfAll r.children := by
  cases r with
  | node i cs => rw [descendants, List.mem_cons, children]

lemma mem_self (s : Scope) : s ∈ s.descendants := mem_descendants.mpr (.inl rfl)

lemma descendantsOfAll_eq (cs : List Scope) : descendantsOfAll cs = cs.flatMap descendants := by
  induction cs with
  | nil => rfl
  | cons c rest ih => rw [descendantsOfAll, ih, List.flatMap_cons]

/-- The scope `s` is inside `e`, at any depth. -/
def Encloses (e s : Scope) : Prop := s ∈ descendantsOfAll e.children

lemma encloses_iff : e.Encloses s ↔ ∃ c ∈ e.children, s ∈ c.descendants := by
  rw [Encloses, descendantsOfAll_eq, List.mem_flatMap]

lemma mem_of_encloses (h : e.Encloses s) : s ∈ e.descendants := mem_descendants.mpr (.inr h)

lemma encloses_child (h : c ∈ e.children) : e.Encloses c := encloses_iff.mpr ⟨c, h, mem_self c⟩

lemma mem_trans (he : e ∈ r.descendants) (hs : s ∈ e.descendants) : s ∈ r.descendants := by
  induction r using induct with
  | node i cs ih =>
    rcases mem_descendants.mp he with rfl | he
    · exact hs
    · obtain ⟨c, hc, he⟩ := encloses_iff.mp he
      exact mem_of_encloses (encloses_iff.mpr ⟨c, hc, ih c hc he⟩)

lemma Encloses.trans_mem (h : e.Encloses c) (hs : s ∈ c.descendants) : e.Encloses s := by
  obtain ⟨d, hd, hc⟩ := encloses_iff.mp h
  exact encloses_iff.mpr ⟨d, hd, mem_trans hc hs⟩

lemma encloses_of_mem (he : e ∈ r.descendants) (h : e.Encloses s) : r.Encloses s := by
  rcases mem_descendants.mp he with rfl | he
  · exact h
  · exact Encloses.trans_mem he (mem_of_encloses h)

lemma sizeOf_child (h : c ∈ s.children) : sizeOf c < sizeOf s := by
  cases s with
  | node i cs =>
    have hlt := List.sizeOf_lt_of_mem (show c ∈ cs from h)
    rw [node.sizeOf_spec]
    omega

lemma sizeOf_le_of_mem (h : s ∈ r.descendants) : sizeOf s ≤ sizeOf r := by
  induction r using induct with
  | node i cs ih =>
    rcases mem_descendants.mp h with rfl | h
    · exact Nat.le_refl _
    · obtain ⟨c, hc, hs⟩ := encloses_iff.mp h
      exact Nat.le_trans (ih c hc hs) (Nat.le_of_lt (sizeOf_child hc))

/-- No scope is inside itself. -/
lemma not_encloses_self (s : Scope) : ¬ s.Encloses s := by
  intro h
  obtain ⟨c, hc, hs⟩ := encloses_iff.mp h
  exact Nat.not_le_of_lt (sizeOf_child hc) (sizeOf_le_of_mem hs)

/-! ## Different identities -/

/-- The identities in the tree differ. -/
def Distinct (r : Scope) : Prop := (r.descendants.map (·.info.id)).Nodup

lemma Distinct.nodup_children (h : r.Distinct) :
    (r.children.flatMap fun c => c.descendants.map (·.info.id)).Nodup := by
  cases r with
  | node i cs =>
    rw [Distinct, descendants, List.map_cons, descendantsOfAll_eq, List.map_flatMap] at h
    exact (List.nodup_cons.mp h).2

lemma Distinct.child (h : r.Distinct) (hc : c ∈ r.children) : c.Distinct :=
  (List.nodup_flatMap.mp h.nodup_children).1 c hc

lemma Distinct.of_mem (h : r.Distinct) (he : e ∈ r.descendants) : e.Distinct := by
  induction r using induct with
  | node i cs ih =>
    rcases mem_descendants.mp he with rfl | he
    · exact h
    · obtain ⟨c, hc, he⟩ := encloses_iff.mp he
      exact ih c hc (h.child hc) he

/-- A scope is inside one child at most. -/
lemma Distinct.child_unique (h : r.Distinct) (hc : c ∈ r.children) (hc' : c' ∈ r.children)
    (hs : s ∈ c.descendants) (hs' : s ∈ c'.descendants) : c = c' := by
  by_contra hne
  have : Std.Symm (Function.onFun List.Disjoint fun d : Scope => d.descendants.map (·.info.id)) :=
    ⟨fun _ _ hapart _ hid hid' => hapart hid' hid⟩
  have hapart := (List.nodup_flatMap.mp h.nodup_children).2.forall hc hc' hne
  exact hapart (List.mem_map_of_mem hs) (List.mem_map_of_mem hs')

/-- A scope is a child of one scope at most. -/
lemma around_unique (h : r.Distinct) {around around' : Scope} (hr : around ∈ r.descendants)
    (hr' : around' ∈ r.descendants) (hs : s ∈ around.children) (hs' : s ∈ around'.children) :
    around = around' := by
  induction r using induct with
  | node i cs ih =>
    -- a child of the root is not a child of a scope further inside
    have hroot {e : Scope} (hchild : s ∈ cs) (he : (Scope.node i cs).Encloses e)
        (hse : s ∈ e.children) : False := by
      obtain ⟨c, hc, he⟩ := encloses_iff.mp he
      have hsc : c.Encloses s := encloses_of_mem he (encloses_child hse)
      obtain rfl := h.child_unique hchild hc (mem_self s) (mem_of_encloses hsc)
      exact not_encloses_self s hsc
    rcases mem_descendants.mp hr with rfl | hr
    · rcases mem_descendants.mp hr' with rfl | hr'
      · rfl
      · exact (hroot hs hr' hs').elim
    · rcases mem_descendants.mp hr' with rfl | hr'
      · exact (hroot hs' hr hs).elim
      · obtain ⟨c, hc, hr⟩ := encloses_iff.mp hr
        obtain ⟨c', hc', hr'⟩ := encloses_iff.mp hr'
        have hsc := mem_trans hr (mem_of_encloses (encloses_child hs))
        have hsc' := mem_trans hr' (mem_of_encloses (encloses_child hs'))
        obtain rfl := h.child_unique hc hc' hsc hsc'
        exact ih c hc (h.child hc) hr hr'

/-! ## A walk with a stack -/

/-- Puts the children of a scope on a stack, the last of them first. -/
def pushChildren (s : Scope) (stack : List Scope) : List Scope :=
  s.children.reverse.foldl (fun stack c => c :: stack) stack

lemma pushChildren_eq (s : Scope) (stack : List Scope) :
    s.pushChildren stack = s.children ++ stack := by
  rw [pushChildren, List.foldl_flip_cons_eq_append', List.reverse_reverse]

/-- In place of a scope come its children. -/
lemma descendantsOfAll_cons (s : Scope) (stack : List Scope) :
    descendantsOfAll (s :: stack) = s :: descendantsOfAll (s.pushChildren stack) := by
  cases s with
  | node i cs =>
    rw [pushChildren_eq, descendantsOfAll_eq (_ ++ _), List.flatMap_append, ← descendantsOfAll_eq,
      ← descendantsOfAll_eq]
    rfl

/-- The scopes in the order in which a walk takes them from a stack.  Each leaves its children on
the stack. -/
def walk : List Scope → List Scope
  | [] => []
  | s :: stack => s :: walk (s.pushChildren stack)
termination_by stack => (descendantsOfAll stack).length
decreasing_by
  rw [descendantsOfAll_cons, List.length_cons]
  exact Nat.lt_succ_self _

/-- A walk takes each scope before those inside it, and these before the next on the stack. -/
theorem walk_eq (stack : List Scope) : walk stack = descendantsOfAll stack := by
  fun_induction walk stack with
  | case1 => rfl
  | case2 s stack ih => rw [ih, descendantsOfAll_cons]

end JavaScope.Scope
