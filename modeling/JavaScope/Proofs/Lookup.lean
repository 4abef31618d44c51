/-
# Look-ups in lists of pairs

Where keys are not repeated, an entry is found exactly if it is there, and the order of the
entries does not matter.
-/
import Mathlib.Data.List.Nodup
import Mathlib.Tactic.Lemma

namespace JavaScope

section Pairs

variable {α β : Type} [BEq α] [LawfulBEq α] {l l' : List (α × β)}

lemma lookup_eq_some_of_mem {k : α} {v : β} (hkeys : (l.map (·.1)).Nodup) (h : (k, v) ∈ l) :
    l.lookup k = some v := by
  rw [List.lookup_eq_some_iff]
  obtain ⟨l₁, l₂, rfl⟩ := List.append_of_mem h
  refine ⟨l₁, l₂, rfl, fun q hq => ?_⟩
  rw [List.map_append, List.map_cons] at hkeys
  have hne : q.1 ≠ k :=
    fun heq => (List.nodup_append'.mp hkeys).2.2 (List.mem_map_of_mem hq) (by simp [heq])
  exact bne_iff_ne.mpr (Ne.symm hne)

lemma mem_of_lookup_eq_some {k : α} {v : β} (h : l.lookup k = some v) : (k, v) ∈ l := by
  obtain ⟨l₁, l₂, rfl, -⟩ := List.lookup_eq_some_iff.mp h
  simp

/-- Where no key has two values, the order of the entries does not matter. -/
lemma lookup_eq_of_perm (h : l.Perm l')
    (hvalues : ∀ k v v', (k, v) ∈ l → (k, v') ∈ l → v = v') (k : α) : l.lookup k = l'.lookup k := by
  cases hv : l.lookup k with
  | none =>
    refine (List.lookup_eq_none_iff.mpr fun e he => ?_).symm
    exact List.lookup_eq_none_iff.mp hv e (h.mem_iff.mpr he)
  | some v =>
    have hmem : (k, v) ∈ l := mem_of_lookup_eq_some hv
    cases hv' : l'.lookup k with
    | none => simpa using List.lookup_eq_none_iff.mp hv' _ (h.mem_iff.mp hmem)
    | some v' =>
      have hmem' : (k, v') ∈ l := h.mem_iff.mpr (mem_of_lookup_eq_some hv')
      rw [hvalues k v v' hmem hmem']

lemma value_eq_of_nodup_keys (hkeys : (l.map (·.1)).Nodup) (k : α) (v v' : β) (h : (k, v) ∈ l)
    (h' : (k, v') ∈ l) : v = v' := by
  have hv := lookup_eq_some_of_mem hkeys h
  rw [lookup_eq_some_of_mem hkeys h'] at hv
  exact (Option.some.inj hv).symm

end Pairs

/-- Items with different keys are found by them. -/
lemma find?_eq_some_of_mem {α κ : Type} [DecidableEq κ] {key : α → κ} {l : List α}
    (hkeys : (l.map key).Nodup) {a : α} (ha : a ∈ l) :
    l.find? (fun b => key b = key a) = some a := by
  have hfound : (l.find? fun b => key b = key a).isSome :=
    List.find?_isSome.mpr ⟨a, ha, by simp⟩
  obtain ⟨b, hb⟩ := Option.isSome_iff_exists.mp hfound
  have hkey : key b = key a := by simpa using List.find?_some hb
  rw [hb, List.inj_on_of_nodup_map hkeys (List.mem_of_find?_eq_some hb) ha hkey]

end JavaScope
