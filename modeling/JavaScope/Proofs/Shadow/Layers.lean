/-
# Look-ups layer by layer

What a look-up finds in a group onto which frames were pushed is told without frames: by the
layers of bindings that the name has in them, the nearest first (`FindsThrough`).  It makes no
difference that a frame without bindings is not pushed, since its layer has none either.
-/
import Mathlib.Tactic.Lemma
import JavaScope.Shadow.Candidates

namespace JavaScope

/-! ## Symbol maps -/

namespace SymbolMap

variable {α : Type}

lemma lookup_insertInto (name n : String) (a : α) (buckets : List (String × List α)) :
    ((insertInto name a buckets).lookup n).getD [] =
      (buckets.lookup n).getD [] ++ if name = n then [a] else [] := by
  induction buckets with
  | nil =>
    by_cases h : name = n
    · simp [insertInto, h]
    · rw [if_neg h, insertInto, List.lookup_cons, beq_false_of_ne (Ne.symm h)]
      rfl
  | cons b rest ih =>
    obtain ⟨m, bucket⟩ := b
    rw [insertInto]
    by_cases hm : m = name
    · rw [if_pos hm, hm]
      by_cases h : name = n
      · simp [h]
      · rw [if_neg h, List.append_nil, List.lookup_cons, List.lookup_cons,
          beq_false_of_ne (Ne.symm h)]
    · rw [if_neg hm]
      by_cases h : n = m
      · simp [h, Ne.symm hm]
      · rw [List.lookup_cons, List.lookup_cons, beq_false_of_ne h]
        exact ih

lemma find_insertAll (m : SymbolMap α) (bindings : List (String × α)) (name : String) :
    (m.insertAll bindings).find name =
      m.find name ++ (bindings.filter (·.1 = name)).map (·.2) := by
  induction bindings generalizing m with
  | nil => simp [insertAll]
  | cons b rest ih =>
    obtain ⟨n, a⟩ := b
    have hinsert : (m.insert n a).find name = m.find name ++ if n = name then [a] else [] :=
      lookup_insertInto n name a m.buckets
    show ((m.insert n a).insertAll rest).find name = _
    rw [ih, hinsert]
    by_cases h : n = name
    · simp [h]
    · simp [h]

/-- A map finds what the list binds to the name, in the order of the list. -/
lemma find_ofList (bindings : List (String × α)) (name : String) :
    (ofList bindings).find name = (bindings.filter (·.1 = name)).map (·.2) :=
  find_insertAll empty bindings name

/-- A map of things by their names finds the things of the name. -/
lemma find_ofList_map (nameOf : α → String) (as : List α) (name : String) :
    (ofList (as.map fun a => (nameOf a, a))).find name = as.filter (nameOf · = name) := by
  rw [find_ofList, List.filter_map, List.map_map]
  exact List.map_id _

lemma find_of_isEmpty {m : SymbolMap α} (h : m.isEmpty) (name : String) : m.find name = [] := by
  rw [isEmpty, List.isEmpty_iff] at h
  rw [find, h]
  rfl

end SymbolMap

/-! ## The nearest binding -/

/-- The outcome of looking a name up through layers: the first layer with a binding decides,
by its first binding, and the find is ambiguous if the layer has others.  If there is none, the
outcome is that outside. -/
inductive FindsThrough {α : Type} (outside : Option (Found α)) :
    List (FrameKind × List α) → Option (Found α) → Prop
  | outside : FindsThrough outside [] outside
  | pass {kind : FrameKind} {layers : List (FrameKind × List α)} {outcome : Option (Found α)} :
      FindsThrough outside layers outcome → FindsThrough outside ((kind, []) :: layers) outcome
  | stop {kind : FrameKind} {layers : List (FrameKind × List α)} (a : α) (more : List α)
      (frame : FrameId) :
      FindsThrough outside ((kind, a :: more) :: layers) (some ⟨a, frame, kind, !more.isEmpty⟩)

section Push

variable {m : Type → Type} [Monad m] {ρ α : Type} [Bindings ρ] {ask : ρ → String → m (List α)}
  {name : String} {bindings : ρ} {bound : List α}

/-- A pushed frame is one more layer, whichever way answers are taken out of the monad. -/
lemma FindsThrough.push {run : m (Option (Found α)) → Option (Found α)}
    (hrun : ∀ x, run (pure x) = x) {outside : Option (Found α)}
    {layers : List (FrameKind × List α)} {g : ShadowGroup ρ}
    (h : FindsThrough outside layers (run (g.resolveFirst ask name)))
    (hask : ∀ next, run (ask bindings name >>= next) = run (next bound))
    (hempty : Bindings.isDefinitelyEmpty bindings → bound = []) (stamp : Nat) (kind : FrameKind) :
    FindsThrough outside ((kind, bound) :: layers)
      (run ((g.push stamp kind bindings).resolveFirst ask name)) := by
  by_cases hpush : Bindings.isDefinitelyEmpty bindings
  · rw [ShadowGroup.push, if_pos hpush, hempty hpush]
    exact .pass h
  · rw [ShadowGroup.push, if_neg hpush, ShadowGroup.resolveFirst, findFirst, hask]
    cases bound with
    | nil => exact .pass h
    | cons a more =>
      rw [hrun]
      exact .stop a more _

end Push

/-! ## All bindings -/

section All

variable {ρ α : Type} [Bindings ρ] {ask : ρ → String → Id (List α)} {name : String}

/-- A pushed frame puts its bindings in front of the others. -/
lemma allOf_push {bindings : ρ} {bound : List α} (hask : ask bindings name = pure bound)
    (hempty : Bindings.isDefinitelyEmpty bindings → bound = []) (g : ShadowGroup ρ) (stamp : Nat)
    (kind : FrameKind) :
    (Candidates.allOf ask name (g.push stamp kind bindings).frames).run =
      bound ++ (Candidates.allOf ask name g.frames).run := by
  by_cases hpush : Bindings.isDefinitelyEmpty bindings
  · rw [ShadowGroup.push, if_pos hpush, hempty hpush]
    rfl
  · rw [ShadowGroup.push, if_neg hpush, Candidates.allOf, hask]
    rfl

end All

end JavaScope
