/-
# The classes that a dotted name may stand for

Separators cut a dotted name into segments.  Its candidates are the ways to read the last `k`
segments as nested classes and those before them as a package with a class, one for each `k`, and
the longest package comes first (`candidates_eq`).

Each candidate is made of the one before by turning the last `/` into a `$`.  The invariant is that
the segments in front are joined by `/`, and that no `/` stands behind them.

Source code spells a nested class with a dot in place of each `$`.  Its internal name is the
candidate of this spelling with as many levels of nesting as it has (`Nests.candidate_inSource`).
-/
import Mathlib.Data.List.Basic
import Mathlib.Tactic.Lemma
import JavaScope.Name

namespace JavaScope.Name

/-! ## Segments -/

section Segments

variable {p : Char → Bool} {sep : Char}

lemma segments_ne_nil (p : Char → Bool) (cs : List Char) : segments p cs ≠ [] := by
  cases cs with
  | nil => exact List.cons_ne_nil _ _
  | cons c cs =>
    rw [segments]
    split
    · exact List.cons_ne_nil _ _
    · split
      · exact List.cons_ne_nil _ _
      · exact List.cons_ne_nil _ _

lemma segments_cons_of_pos {c : Char} (hc : p c = true) (cs : List Char) :
    segments p (c :: cs) = [] :: segments p cs := by
  rw [segments, if_pos hc]

/-- A character that does not separate belongs to the first segment. -/
lemma exists_segments_cons {c : Char} (hc : p c = false) (cs : List Char) :
    ∃ s rest, segments p cs = s :: rest ∧ segments p (c :: cs) = (c :: s) :: rest := by
  obtain ⟨s, rest, hs⟩ := List.exists_cons_of_ne_nil (segments_ne_nil p cs)
  refine ⟨s, rest, hs, ?_⟩
  rw [segments, if_neg (by simp [hc]), hs]

/-- The segments joined again: each separator is replaced by the same character. -/
lemma intercalate_segments (cs : List Char) :
    [sep].intercalate (segments p cs) = cs.map fun c => if p c then sep else c := by
  induction cs with
  | nil => rfl
  | cons c cs ih =>
    cases hc : p c with
    | true =>
      rw [segments_cons_of_pos hc, List.intercalate_cons_of_ne_nil (segments_ne_nil p cs), ih,
        List.map_cons, if_pos hc]
      rfl
    | false =>
      obtain ⟨s, rest, hs, hcons⟩ := exists_segments_cons hc cs
      rw [hcons, List.intercalate_cons_cons_left, ← hs, ih, List.map_cons, hc]
      rfl

lemma intercalate_segments_self (sep : Char) (cs : List Char) :
    [sep].intercalate (segments (· = sep) cs) = cs := by
  rw [intercalate_segments]
  refine (List.map_congr_left fun c _ => ?_).trans (List.map_id cs)
  by_cases hc : c = sep <;> simp [hc]

/-- The segments are made of the characters that do not separate. -/
lemma of_mem_segments {cs s : List Char} (hs : s ∈ segments p cs) {c : Char} (hc : c ∈ s) :
    c ∈ cs ∧ p c = false := by
  induction cs generalizing s c with
  | nil =>
    obtain rfl := List.mem_singleton.mp hs
    cases hc
  | cons d cs ih =>
    cases hd : p d with
    | true =>
      rw [segments_cons_of_pos hd] at hs
      rcases List.mem_cons.mp hs with rfl | hs
      · cases hc
      · exact (ih hs hc).imp_left (List.mem_cons_of_mem d)
    | false =>
      obtain ⟨first, rest, hfirst, hcons⟩ := exists_segments_cons hd cs
      rw [hcons] at hs
      rcases List.mem_cons.mp hs with rfl | hs
      · rcases List.mem_cons.mp hc with rfl | hc
        · exact ⟨List.mem_cons_self, hd⟩
        · exact (ih (hfirst ▸ List.mem_cons_self) hc).imp_left (List.mem_cons_of_mem d)
      · exact (ih (hfirst ▸ List.mem_cons_of_mem _ hs) hc).imp_left (List.mem_cons_of_mem d)

lemma segments_append_cons (hsep : p sep = true) (cs ds : List Char) :
    segments p (cs ++ sep :: ds) = segments p cs ++ segments p ds := by
  induction cs with
  | nil => exact segments_cons_of_pos hsep ds
  | cons c cs ih =>
    cases hc : p c with
    | true =>
      rw [List.cons_append, segments_cons_of_pos hc, segments_cons_of_pos hc, ih,
        List.cons_append]
    | false =>
      obtain ⟨first, rest, hfirst, hcons⟩ := exists_segments_cons hc cs
      obtain ⟨first', rest', hfirst', hcons'⟩ := exists_segments_cons hc (cs ++ sep :: ds)
      rw [ih, hfirst, List.cons_append] at hfirst'
      obtain ⟨rfl, rfl⟩ := List.cons.inj hfirst'
      rw [List.cons_append, hcons, hcons', List.cons_append]

lemma segments_of_not {s : List Char} (hs : ∀ c ∈ s, p c = false) : segments p s = [s] := by
  induction s with
  | nil => rfl
  | cons c s ih =>
    obtain ⟨first, rest, hfirst, hcons⟩ := exists_segments_cons (hs c (by simp)) s
    rw [ih fun d hd => hs d (by simp [hd])] at hfirst
    obtain ⟨rfl, rfl⟩ := List.cons.inj hfirst
    exact hcons

/-- Joined segments are cut where they were joined. -/
lemma segments_intercalate (hsep : p sep = true) {segs : List (List Char)} (hne : segs ≠ [])
    (hsegs : ∀ s ∈ segs, ∀ c ∈ s, p c = false) :
    segments p ([sep].intercalate segs) = segs := by
  induction segs with
  | nil => exact absurd rfl hne
  | cons s rest ih =>
    have hs := hsegs s List.mem_cons_self
    cases rest with
    | nil => rw [List.intercalate_singleton, segments_of_not hs]
    | cons t rest =>
      have hrest := ih (List.cons_ne_nil _ _) fun u hu => hsegs u (List.mem_cons_of_mem _ hu)
      rw [List.intercalate_cons_cons, List.append_assoc, List.singleton_append,
        segments_append_cons hsep, segments_of_not hs, hrest, List.singleton_append]

/-- Every segment but the first stands behind a separator. -/
lemma intercalate_cons (s : List Char) (rest : List (List Char)) :
    [sep].intercalate (s :: rest) = s ++ rest.flatMap (sep :: ·) := by
  induction rest generalizing s with
  | nil => rw [List.intercalate_singleton, List.flatMap_nil, List.append_nil]
  | cons t rest ih =>
    rw [List.intercalate_cons_cons, ih, List.flatMap_cons, List.append_assoc,
      List.singleton_append, List.cons_append]

lemma intercalate_append {front : List (List Char)} (hne : front ≠ [])
    (rest : List (List Char)) :
    [sep].intercalate (front ++ rest) = [sep].intercalate front ++ rest.flatMap (sep :: ·) := by
  obtain ⟨s, front, rfl⟩ := List.exists_cons_of_ne_nil hne
  rw [List.cons_append, intercalate_cons, intercalate_cons, List.flatMap_append,
    List.append_assoc]

end Segments

/-! ## Candidates -/

/-- The segments of a dotted name. -/
def parts (dotted : String) : List (List Char) := segments isSeparator dotted.toList

/-- The segments as an internal name, the last `k` of them as nested classes. -/
def nested (segs : List (List Char)) (k : Nat) : List Char :=
  ['/'].intercalate (segs.take (segs.length - k)) ++
    (segs.drop (segs.length - k)).flatMap ('$' :: ·)

/-- The reading of a dotted name in which its last `k` segments name nested classes. -/
def candidate (dotted : String) (k : Nat) : String := String.ofList (nested (parts dotted) k)

lemma intercalate_parts (dotted : String) :
    ['/'].intercalate (parts dotted) = replace '.' '/' dotted.toList := by
  rw [parts, intercalate_segments, replace]
  refine List.map_congr_left fun c _ => ?_
  by_cases hdot : c = '.'
  · simp [isSeparator, hdot]
  · by_cases hslash : c = '/'
    · simp [isSeparator, hslash]
    · simp [isSeparator, hdot, hslash]

lemma not_mem_of_mem_parts {dotted : String} {s : List Char} (hs : s ∈ parts dotted) :
    '/' ∉ s := by
  intro hmem
  have h := (of_mem_segments hs hmem).2
  simp [isSeparator] at h

/-- The last `/` is turned into a `$`. -/
lemma nestLast_append {cs ds : List Char} (h : '/' ∉ ds) :
    nestLast (cs ++ '/' :: ds) = cs ++ '$' :: ds := by
  induction cs with
  | nil =>
    rw [List.nil_append, nestLast, if_pos ⟨rfl, h⟩, List.nil_append]
  | cons c cs ih =>
    rw [List.cons_append, nestLast, if_neg (by simp), ih, List.cons_append]

lemma count_intercalate {front : List (List Char)} (hne : front ≠ [])
    (hfront : ∀ s ∈ front, '/' ∉ s) :
    (['/'].intercalate front).count '/' + 1 = front.length := by
  have hcount (rest : List (List Char)) (hrest : ∀ s ∈ rest, '/' ∉ s) :
      (rest.flatMap ('/' :: ·)).count '/' = rest.length := by
    induction rest with
    | nil => rfl
    | cons s rest ih =>
      have hs : s.count '/' = 0 := List.count_eq_zero.mpr (hrest s List.mem_cons_self)
      rw [List.flatMap_cons, List.count_append, List.count_cons_self, hs,
        ih fun t ht => hrest t (List.mem_cons_of_mem _ ht), List.length_cons]
      omega
  obtain ⟨s, rest, rfl⟩ := List.exists_cons_of_ne_nil hne
  have hs : s.count '/' = 0 := List.count_eq_zero.mpr (hfront s List.mem_cons_self)
  rw [intercalate_cons, List.count_append, hs, Nat.zero_add, List.length_cons,
    hcount rest fun t ht => hfront t (List.mem_cons_of_mem _ ht)]

/-! ### The turns of a search -/

/-- Each turn takes one `/` away. -/
lemma count_nestLast {cs : List Char} (h : '/' ∈ cs) :
    (nestLast cs).count '/' + 1 = cs.count '/' := by
  induction cs with
  | nil => cases h
  | cons c cs ih =>
    rw [nestLast]
    split
    · next hlast =>
      obtain ⟨rfl, hnone⟩ := hlast
      rw [List.count_cons_of_ne (by decide), List.count_cons_self]
    · next hlater =>
      have hmem : '/' ∈ cs := by
        rcases List.mem_cons.mp h with rfl | h
        · exact not_not.mp fun hnone => hlater ⟨rfl, hnone⟩
        · exact h
      rw [List.count_cons, List.count_cons, ← ih hmem]
      omega

/-- The names of a search that turns the last `/` of each name into a `$`, as long as there is
one. -/
def turns (cs : List Char) : List (List Char) :=
  if '/' ∈ cs then cs :: turns (nestLast cs) else [cs]
termination_by cs.count '/'
decreasing_by
  rename_i h
  have := count_nestLast h
  omega

/-- Such a search comes to an end after as many turns as there are `/` in the first name. -/
theorem turns_eq (cs : List Char) : turns cs = nestings (cs.count '/') cs := by
  fun_induction turns cs with
  | case1 cs h ih => rw [← count_nestLast h, nestings, ih]
  | case2 cs h => rw [List.count_eq_zero.mpr h, nestings]

/-! ### All candidates -/

/-- Without nested classes all segments are joined by `/`. -/
lemma nested_zero (segs : List (List Char)) : nested segs 0 = ['/'].intercalate segs := by
  rw [nested, Nat.sub_zero, List.take_length, List.drop_length, List.flatMap_nil, List.append_nil]

/-- The last segment is the innermost of the nested classes. -/
lemma nested_append_singleton (segs : List (List Char)) (s : List Char) (k : Nat) :
    nested (segs ++ [s]) (k + 1) = nested segs k ++ '$' :: s := by
  have hcut : (segs ++ [s]).length - (k + 1) = segs.length - k := by simp
  rw [nested, hcut, List.take_append_of_le_length (Nat.sub_le _ _),
    List.drop_append_of_le_length (Nat.sub_le _ _), List.flatMap_append, List.flatMap_singleton,
    ← List.append_assoc, nested]

/-- What the turns make of segments that are joined by `/`, with a text without `/` behind them:
each turn takes one segment more for a nested class. -/
lemma nestings_intercalate (n : Nat) {front : List (List Char)} {behind : List Char}
    (hlength : front.length = n + 1) (hfront : ∀ s ∈ front, '/' ∉ s) (hbehind : '/' ∉ behind) :
    nestings n (['/'].intercalate front ++ behind) =
      (List.range (n + 1)).map fun k => nested front k ++ behind := by
  induction n generalizing front behind with
  | zero =>
    rw [nestings, List.range_one, List.map_singleton, nested_zero]
  | succ n ih =>
    obtain ⟨init, s, rfl⟩ : ∃ init s, front = init ++ [s] :=
      ⟨_, _, (List.dropLast_concat_getLast (by rintro rfl; cases hlength)).symm⟩
    have hinit : init.length = n + 1 := by simpa using hlength
    have hne : init ≠ [] := by
      rintro rfl
      cases hinit
    have hs : '/' ∉ s ++ behind := by
      simpa using ⟨hfront s (by simp), hbehind⟩
    have hturn : nestLast (['/'].intercalate (init ++ [s]) ++ behind) =
        ['/'].intercalate init ++ '$' :: (s ++ behind) := by
      rw [intercalate_append hne, List.flatMap_singleton, List.append_assoc, List.cons_append,
        nestLast_append hs]
    have hrest := ih hinit (fun t ht => hfront t (by simp [ht]))
      (show '/' ∉ '$' :: (s ++ behind) by simpa using hs)
    rw [nestings, hturn, List.range_succ_eq_map, List.map_cons, List.map_map, nested_zero, hrest]
    refine congrArg _ (List.map_congr_left fun k _ => ?_)
    rw [Function.comp_apply, Nat.succ_eq_add_one, nested_append_singleton, List.append_assoc,
      List.cons_append]

/-- The candidates of a dotted name in their order: the last `k` segments nested, for each `k` less
than the number of segments. -/
theorem candidates_eq (dotted : String) :
    candidates dotted = (List.range (parts dotted).length).map (candidate dotted) := by
  have hne : parts dotted ≠ [] := segments_ne_nil _ _
  have hcount := count_intercalate hne fun s hs => not_mem_of_mem_parts hs
  have hturns := nestings_intercalate _ hcount.symm (fun s hs => not_mem_of_mem_parts hs)
    (show '/' ∉ [] from List.not_mem_nil)
  rw [candidates, ← intercalate_parts]
  rw [List.append_nil] at hturns
  rw [hturns, hcount, List.map_map]
  refine List.map_congr_left fun k _ => ?_
  rw [Function.comp_apply, List.append_nil, candidate]

/-- A search through the turns of a name goes through its candidates. -/
theorem turns_toInternal (dotted : String) :
    (turns (toInternal dotted).toList).map String.ofList =
      (List.range (parts dotted).length).map (candidate dotted) := by
  rw [turns_eq, toInternal, String.toList_ofList]
  exact candidates_eq dotted

example : candidates "a.B.C" = ["a/B/C", "a/B$C", "a$B$C"] := by decide

/-! ## Nested classes in source -/

/-- The spelling of a binary name in source code, where a dot stands in place of each dollar. -/
def inSource (binary : String) : String := String.ofList (replace '$' '.' binary.toList)

/-- The binary name of a class: the segments of its package and of the class at the top, separated
by dots, and behind them the classes nested in it, each after a dollar. -/
structure Nests (outer inner : List (List Char)) (binary : String) : Prop where
  toList : binary.toList = ['.'].intercalate outer ++ inner.flatMap ('$' :: ·)
  /-- There is a class at the top. -/
  outer_ne_nil : outer ≠ []
  /-- Separators and dollars stand between the segments only. -/
  plain : ∀ s ∈ outer ++ inner, ∀ c ∈ s, isSeparator c = false ∧ c ≠ '$'

section Replacing

variable {old new sep : Char} {segs : List (List Char)}

lemma replace_of_not_mem {cs : List Char} (h : old ∉ cs) : replace old new cs = cs := by
  refine (List.map_congr_left fun c hc => ?_).trans (List.map_id cs)
  rw [if_neg (ne_of_mem_of_not_mem hc h), id]

lemma replace_append (cs ds : List Char) :
    replace old new (cs ++ ds) = replace old new cs ++ replace old new ds := List.map_append

lemma replace_flatMap (h : ∀ s ∈ segs, old ∉ s) :
    replace old new (segs.flatMap (sep :: ·)) =
      segs.flatMap ((if sep = old then new else sep) :: ·) := by
  rw [replace, List.map_flatMap]
  refine List.flatMap_congr fun s hs => ?_
  exact congrArg _ (replace_of_not_mem (h s hs))

lemma replace_intercalate (h : ∀ s ∈ segs, old ∉ s) :
    replace old new ([sep].intercalate segs) =
      [if sep = old then new else sep].intercalate segs := by
  cases segs with
  | nil => rfl
  | cons s rest =>
    rw [intercalate_cons, intercalate_cons,
      replace_append, replace_of_not_mem (h s List.mem_cons_self),
      replace_flatMap fun t ht => h t (List.mem_cons_of_mem _ ht)]

end Replacing

namespace Nests

variable {outer inner : List (List Char)} {binary : String}

lemma separator_notMem (h : Nests outer inner binary) {s : List Char} (hs : s ∈ outer ++ inner)
    {c : Char} (hc : isSeparator c = true) : c ∉ s :=
  fun hmem => by simp [(h.plain s hs c hmem).1] at hc

lemma dollar_notMem (h : Nests outer inner binary) {s : List Char} (hs : s ∈ outer ++ inner) :
    '$' ∉ s := fun hmem => (h.plain s hs _ hmem).2 rfl

lemma toList_inSource (h : Nests outer inner binary) :
    (inSource binary).toList = ['.'].intercalate (outer ++ inner) := by
  have houter : replace '$' '.' (['.'].intercalate outer) = ['.'].intercalate outer :=
    replace_intercalate fun s hs => h.dollar_notMem (List.mem_append_left _ hs)
  have hinner : replace '$' '.' (inner.flatMap ('$' :: ·)) = inner.flatMap ('.' :: ·) :=
    replace_flatMap fun s hs => h.dollar_notMem (List.mem_append_right _ hs)
  rw [inSource, String.toList_ofList, h.toList, replace_append, houter, hinner,
    intercalate_append h.outer_ne_nil]

lemma parts_inSource (h : Nests outer inner binary) : parts (inSource binary) = outer ++ inner := by
  rw [parts, h.toList_inSource]
  exact segments_intercalate rfl (by simp [h.outer_ne_nil]) fun s hs c hc => (h.plain s hs c hc).1

/-- The internal name of a class is one of the readings of its spelling in source. -/
lemma candidate_inSource (h : Nests outer inner binary) :
    candidate (inSource binary) inner.length = toInternal binary := by
  have hdot {s : List Char} (hs : s ∈ outer ++ inner) : '.' ∉ s := h.separator_notMem hs rfl
  have houter : replace '.' '/' (['.'].intercalate outer) = ['/'].intercalate outer :=
    replace_intercalate fun s hs => hdot (List.mem_append_left _ hs)
  have hinner : replace '.' '/' (inner.flatMap ('$' :: ·)) = inner.flatMap ('$' :: ·) :=
    replace_flatMap fun s hs => hdot (List.mem_append_right _ hs)
  rw [candidate, h.parts_inSource, toInternal, h.toList, replace_append, houter, hinner, nested,
    List.length_append, Nat.add_sub_cancel, List.take_left, List.drop_left]

/-- Source code spells a class by its binary name exactly if it is not nested. -/
lemma inSource_eq_iff (h : Nests outer inner binary) : inSource binary = binary ↔ inner = [] := by
  rw [← String.toList_inj, h.toList_inSource, intercalate_append h.outer_ne_nil, h.toList,
    List.append_cancel_left_eq]
  cases inner with
  | nil => simp
  | cons s inner => simp

lemma dot_mem_inSource (h : Nests outer inner binary) (hne : inner ≠ []) :
    '.' ∈ (inSource binary).toList := by
  obtain ⟨s, inner, rfl⟩ := List.exists_cons_of_ne_nil hne
  rw [h.toList_inSource, intercalate_append h.outer_ne_nil]
  simp

end Nests

end JavaScope.Name
