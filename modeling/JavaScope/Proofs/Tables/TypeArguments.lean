/-
# Supertypes written with type arguments

Type arguments stand in angle brackets that match.  Two functions take them away.  Erasure
drops every group of arguments, wherever it stands in the name and however deep it is nested.
The name of a supertype ends at the first bracket.

So a group of arguments behind the whole name changes nothing about a supertype.  Behind an
inner segment it does: `Outer<T>.Inner` is read as `Outer`.
-/
import Mathlib.Data.List.TakeWhile
import Mathlib.Logic.Relation
import Mathlib.Tactic.Lemma
import JavaScope.Tables.Inheritance

namespace JavaScope

/-! ## Blanks at the end of a text -/

namespace Text

/-- Trimming takes blanks only. -/
lemma filter_trim (cs : List Char) :
    (trim cs).filter (!isBlank ·) = cs.filter (!isBlank ·) := by
  have hdrop : ∀ cs : List Char,
      (cs.dropWhile isBlank).filter (!isBlank ·) = cs.filter (!isBlank ·) := by
    intro cs
    induction cs with
    | nil => rfl
    | cons c cs ih =>
      by_cases hc : isBlank c = true
      · rw [List.dropWhile_cons_of_pos hc, ih, List.filter_cons_of_neg (by simp [hc])]
      · rw [List.dropWhile_cons_of_neg hc]
  rw [trim, List.filter_reverse, hdrop, List.filter_reverse, List.reverse_reverse, hdrop]

/-- Text that is put at the end is trimmed away exactly if it is blank. -/
lemma trim_append_eq_iff (cs ds : List Char) :
    trim (cs ++ ds) = trim cs ↔ ∀ c ∈ ds, isBlank c = true := by
  constructor
  · intro h
    have hfilter := congrArg (List.filter (!isBlank ·)) h
    rw [filter_trim, filter_trim, List.filter_append] at hfilter
    simpa using hfilter
  · intro h
    have hds : ds.reverse.dropWhile isBlank = [] :=
      List.dropWhile_eq_nil_iff.mpr (by simpa using h)
    rw [trim, trim, List.dropWhile_append]
    split
    · next hcs =>
      rw [List.dropWhile_eq_nil_iff.mpr h, List.isEmpty_iff.mp hcs]
    · rw [List.reverse_append, List.dropWhile_append, hds]
      rfl

end Text

namespace WrittenType

/-! ## Groups of type arguments -/

/-- A text whose angle brackets match. -/
inductive Balanced : List Char → Prop
  | nil : Balanced []
  | plain {c : Char} {cs : List Char} : c ≠ '<' → c ≠ '>' → Balanced cs → Balanced (c :: cs)
  | group {inside cs : List Char} :
    Balanced inside → Balanced cs → Balanced ('<' :: (inside ++ '>' :: cs))

/-- Type arguments: a balanced text in angle brackets. -/
def IsGroup (g : List Char) : Prop := ∃ inside, Balanced inside ∧ g = '<' :: (inside ++ ['>'])

/-- The second text is the first with a group of type arguments put in somewhere. -/
def InsertsGroup (w w' : String) : Prop :=
  ∃ before g behind, IsGroup g ∧ w.toList = before ++ behind ∧
    w'.toList = before ++ (g ++ behind)

/-- A place in a written type that the name of a supertype has in front: a bracket stands
before it, or nothing but blanks up to the next bracket. -/
def PastName (before behind : List Char) : Prop :=
  '<' ∈ before ∨ ∀ c ∈ behind.takeWhile (· ≠ '<'), Text.isBlank c = true

/-- The second text is the first with a group of type arguments put in behind the name. -/
def InsertsBehindName (w w' : String) : Prop :=
  ∃ before g behind, IsGroup g ∧ PastName before behind ∧ w.toList = before ++ behind ∧
    w'.toList = before ++ (g ++ behind)

/-! ### Erasure -/

/-- Inside brackets a balanced text is dropped, and as many brackets are open behind it. -/
lemma dropArguments_balanced {cs : List Char} (h : Balanced cs) (depth : Nat)
    (rest : List Char) :
    dropArguments (depth + 1) (cs ++ rest) = dropArguments (depth + 1) rest := by
  induction h generalizing depth rest with
  | nil => rfl
  | plain hopen hclose _ ih =>
    rw [List.cons_append, dropArguments, if_neg hopen, if_neg hclose, if_neg (by simp), ih]
  | group _ _ ihInside ihRest =>
    rw [List.cons_append, dropArguments, if_pos rfl, List.append_assoc, ihInside,
      List.cons_append, dropArguments, if_neg (by decide), if_pos rfl, Nat.add_sub_cancel,
      ihRest]

lemma dropArguments_group {g : List Char} (h : IsGroup g) (depth : Nat) (rest : List Char) :
    dropArguments depth (g ++ rest) = dropArguments depth rest := by
  obtain ⟨inside, hinside, rfl⟩ := h
  rw [List.cons_append, dropArguments, if_pos rfl, List.append_assoc,
    dropArguments_balanced hinside, List.singleton_append, dropArguments, if_neg (by decide),
    if_pos rfl, Nat.add_sub_cancel]

lemma dropArguments_insert {g : List Char} (h : IsGroup g) (depth : Nat)
    (before behind : List Char) :
    dropArguments depth (before ++ (g ++ behind)) = dropArguments depth (before ++ behind) := by
  induction before generalizing depth with
  | nil => exact dropArguments_group h depth behind
  | cons c before ih => simp only [List.cons_append, dropArguments, ih]

/-- Erasure drops type arguments wherever they stand. -/
lemma erase_insertsGroup {w w' : String} (h : InsertsGroup w w') : erase w' = erase w := by
  obtain ⟨before, g, behind, hg, hw, hw'⟩ := h
  simp only [erase, hw, hw', dropArguments_insert hg]

/-! ### The name in front -/

/-- The text in front of the first bracket ends where a bracket stands. -/
lemma takeWhile_append_of_mem {before : List Char} (h : '<' ∈ before) (behind : List Char) :
    (before ++ behind).takeWhile (· ≠ '<') = before.takeWhile (· ≠ '<') := by
  rw [List.takeWhile_append, if_neg]
  intro hlength
  have hall := (List.takeWhile_prefix (· ≠ '<')).eq_of_length hlength
  simpa using List.takeWhile_eq_self_iff.mp hall '<' h

lemma takeWhile_append_of_notMem {before : List Char} (h : '<' ∉ before) (behind : List Char) :
    (before ++ behind).takeWhile (· ≠ '<') = before ++ behind.takeWhile (· ≠ '<') :=
  List.takeWhile_append_of_pos fun c hc => by simpa using ne_of_mem_of_not_mem hc h

/-- The name of a supertype does not reach beyond the place where a group is put in. -/
lemma toList_head_insert {w : String} {before g behind : List Char} (hg : IsGroup g)
    (hw : w.toList = before ++ (g ++ behind)) :
    (head w).toList = Text.trim (before.takeWhile (· ≠ '<')) := by
  obtain ⟨inside, -, rfl⟩ := hg
  rw [head, String.toList_ofList, hw]
  by_cases hbefore : '<' ∈ before
  · rw [takeWhile_append_of_mem hbefore]
  · have hself := takeWhile_append_of_notMem hbefore []
    rw [List.append_nil] at hself
    rw [takeWhile_append_of_notMem hbefore, hself, List.cons_append,
      List.takeWhile_cons_of_neg (by decide), List.takeWhile_nil]

/-- A group leaves the name of a supertype as it is exactly if it stands behind the name. -/
lemma head_insert_iff {w w' : String} {before g behind : List Char} (hg : IsGroup g)
    (hw : w.toList = before ++ behind) (hw' : w'.toList = before ++ (g ++ behind)) :
    head w' = head w ↔ PastName before behind := by
  rw [← String.toList_inj, toList_head_insert hg hw', head, String.toList_ofList, hw, PastName]
  by_cases hbefore : '<' ∈ before
  · rw [takeWhile_append_of_mem hbefore]
    exact iff_of_true rfl (.inl hbefore)
  · have hself := takeWhile_append_of_notMem hbefore []
    rw [List.takeWhile_nil, List.append_nil] at hself
    rw [takeWhile_append_of_notMem hbefore, hself, eq_comm, Text.trim_append_eq_iff,
      or_iff_right hbefore]

lemma head_insertsBehindName {w w' : String} (h : InsertsBehindName w w') :
    head w' = head w := by
  obtain ⟨before, g, behind, hg, hplace, hw, hw'⟩ := h
  exact (head_insert_iff hg hw hw').mpr hplace

end WrittenType

/-! ## The supertype that is meant -/

open WrittenType Relation

/-- Only the name in front of the type arguments counts. -/
lemma resolveSupertype_of_head {x : FileIndex} {scope : SymbolTable} {w w' : String}
    (h : head w' = head w) : resolveSupertype x scope w' = resolveSupertype x scope w := by
  simp only [resolveSupertype, h]

/-- What stands behind a group of type arguments is not looked at. -/
lemma resolveSupertype_cut {x : FileIndex} {scope : SymbolTable} {w : String}
    {before g behind : List Char} (hg : IsGroup g) (hw : w.toList = before ++ (g ++ behind)) :
    resolveSupertype x scope w = resolveSupertype x scope (String.ofList before) := by
  refine resolveSupertype_of_head (String.toList_inj.mp ?_)
  rw [toList_head_insert hg hw, head, String.toList_ofList, String.toList_ofList]

/-- A property that one insertion leaves as it is, is the same for all texts that differ by
insertions and deletions. -/
lemma eq_of_eqvGen {α : Type} {R : String → String → Prop} {f : String → α}
    (hstep : ∀ w w', R w w' → f w' = f w) {w w' : String} (h : EqvGen R w w') :
    f w' = f w := by
  induction h with
  | rel w w' h => exact hstep w w' h
  | refl w => rfl
  | symm w w' _ ih => exact ih.symm
  | trans w₁ w₂ w₃ _ _ ih₁ ih₂ => exact ih₂.trans ih₁

/-- Which supertype is meant does not change with type arguments behind its name, and which
type erasure leaves does not change with type arguments anywhere.

A group at any other place ends the name that is looked up: what stands behind it is not
looked at, and the name is the same only if that was blank. -/
theorem resolveSupertype_eq_of_arguments (x : FileIndex) (scope : SymbolTable) :
    (∀ w w', EqvGen InsertsBehindName w w' →
      resolveSupertype x scope w' = resolveSupertype x scope w) ∧
    (∀ w w', EqvGen InsertsGroup w w' → erase w' = erase w) ∧
    ∀ w w' before g behind, IsGroup g → w.toList = before ++ behind →
      w'.toList = before ++ (g ++ behind) →
      resolveSupertype x scope w' = resolveSupertype x scope (String.ofList before) ∧
        (head w' = head w ↔ PastName before behind) := by
  refine ⟨fun w w' h => ?_, fun w w' h => ?_, fun w w' before g behind hg hw hw' => ?_⟩
  · exact resolveSupertype_of_head (eq_of_eqvGen (fun _ _ h => head_insertsBehindName h) h)
  · exact eq_of_eqvGen (fun _ _ h => erase_insertsGroup h) h
  · exact ⟨resolveSupertype_cut hg hw', head_insert_iff hg hw hw'⟩

/-- The arguments `<V>` and `<T<U>>` of a class of the file make no difference; those of the
class around a member class do. -/
theorem resolveSupertype_eq_of_arguments_generic :
    let header : TypeHeader := ⟨"p.B", none, []⟩
    let x : FileIndex := ⟨⟨0⟩, [], [("p.B", ⟨4⟩, header)], []⟩
    resolveSupertype x .empty "p.B<V>" = pure (some (.source ⟨4⟩ header)) ∧
      resolveSupertype x .empty "p.B<T<U>>" = resolveSupertype x .empty "p.B<V>" ∧
      erase "p.A<T>.B" = erase "p.A.B" ∧
      resolveSupertype x .empty "p.A<T>.B" = resolveSupertype x .empty "p.A" ∧
      head "p.A<T>.B" ≠ head "p.A.B" := by
  intro header x
  have hV : IsGroup "<V>".toList :=
    ⟨['V'], .plain (by decide) (by decide) .nil, by decide⟩
  have hT : IsGroup "<T>".toList :=
    ⟨['T'], .plain (by decide) (by decide) .nil, by decide⟩
  have hU : Balanced ['U'] := .plain (by decide) (by decide) .nil
  have hTU : IsGroup "<T<U>>".toList :=
    ⟨['T', '<', 'U', '>'], .plain (by decide) (by decide) (.group hU .nil), by decide⟩
  have hplace : PastName "p.B".toList [] := .inr (by simp)
  have hinsertV : InsertsBehindName "p.B" "p.B<V>" :=
    ⟨"p.B".toList, _, [], hV, hplace, by decide, by decide⟩
  have hinsertTU : InsertsBehindName "p.B" "p.B<T<U>>" :=
    ⟨"p.B".toList, _, [], hTU, hplace, by decide, by decide⟩
  obtain ⟨hbehind, hanywhere, hcut⟩ := resolveSupertype_eq_of_arguments x .empty
  obtain ⟨hread, hname⟩ :=
    hcut "p.A.B" "p.A<T>.B" "p.A".toList _ ".B".toList hT (by decide) (by decide)
  refine ⟨by rfl, hbehind _ _ ?_, hanywhere _ _ (.rel _ _ ?_), ?_, fun h => ?_⟩
  · exact .trans _ "p.B" _ (.symm _ _ (.rel _ _ hinsertV)) (.rel _ _ hinsertTU)
  · exact ⟨"p.A".toList, _, ".B".toList, hT, by decide, by decide⟩
  · exact hread
  · rcases hname.mp h with h | h
    · exact absurd h (by decide)
    · exact absurd (h '.' (by decide)) (by decide)

end JavaScope
