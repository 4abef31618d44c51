/-
# The spellings of a parameter type

The type of a parameter names an element type, behind which stand a pair of brackets for each
dimension and, if the parameter takes a variable number of arguments, three dots.  Blanks and type
arguments may be put in anywhere, also inside the name, between the two brackets of a pair or
between the dots.

Neither changes which characters are left when both are dropped.  So erasure takes the element and
the dimensions off every spelling, and every text whose angle brackets match is a spelling of what
erasure takes off it (`erase_readsSpellings`).
-/
import JavaScope.Proofs.Tables.TypeArguments
import JavaScope.Proofs.TypeRef

namespace JavaScope

open Relation

/-! ## Blanks and type arguments -/

namespace WrittenType

/-- The second text is the first with a blank put in somewhere. -/
def InsertsBlank (w w' : String) : Prop :=
  ∃ before c behind, Text.isBlank c = true ∧ w.toList = before ++ behind ∧
    w'.toList = before ++ c :: behind

/-- The second text is the first with a blank or a group of type arguments put in somewhere. -/
def Inserts (w w' : String) : Prop := InsertsBlank w w' ∨ InsertsGroup w w'

/-- The second text is the first with blanks and type arguments put in, one after the other and
each of them anywhere. -/
def Loosens : String → String → Prop := ReflTransGen Inserts

section Kept

variable {c : Char} {cs : List Char} {w w' : String}

lemma dropArguments_cons_blank (hc : Text.isBlank c = true) (depth : Nat) (cs : List Char) :
    dropArguments depth (c :: cs) = dropArguments depth cs := by
  have hopen : c ≠ '<' := by
    rintro rfl
    exact absurd hc (by decide)
  have hclose : c ≠ '>' := by
    rintro rfl
    exact absurd hc (by decide)
  rw [dropArguments, if_neg hopen, if_neg hclose, if_neg (by simp [hc])]

lemma dropArguments_insertBlank (hc : Text.isBlank c = true) (depth : Nat)
    (before behind : List Char) :
    dropArguments depth (before ++ c :: behind) = dropArguments depth (before ++ behind) := by
  induction before generalizing depth with
  | nil => exact dropArguments_cons_blank hc depth behind
  | cons d before ih => simp only [List.cons_append, dropArguments, ih]

/-- What is put in is dropped again. -/
lemma dropArguments_of_loosens (h : Loosens w w') :
    dropArguments 0 w'.toList = dropArguments 0 w.toList := by
  induction h with
  | refl => rfl
  | tail _ hstep ih =>
    rw [← ih]
    rcases hstep with ⟨before, c, behind, hc, hv, hw⟩ | ⟨before, g, behind, hg, hv, hw⟩
    · rw [hv, hw, dropArguments_insertBlank hc]
    · rw [hv, hw, dropArguments_insert hg]

/-- Nothing is dropped where neither blanks nor angle brackets stand. -/
lemma dropArguments_eq_self (h : ∀ c ∈ cs, c ≠ '<' ∧ c ≠ '>' ∧ Text.isBlank c = false) :
    dropArguments 0 cs = cs := by
  induction cs with
  | nil => rfl
  | cons c cs ih =>
    obtain ⟨hopen, hclose, hblank⟩ := h c List.mem_cons_self
    rw [dropArguments, if_neg hopen, if_neg hclose, if_pos ⟨rfl, hblank⟩,
      ih fun d hd => h d (List.mem_cons_of_mem c hd)]

end Kept

/-! ### What is dropped was put in -/

lemma Inserts.cons (c : Char) {w w' : String} (h : Inserts w w') :
    Inserts (String.ofList (c :: w.toList)) (String.ofList (c :: w'.toList)) := by
  rcases h with ⟨before, b, behind, hb, hw, hw'⟩ | ⟨before, g, behind, hg, hw, hw'⟩
  · exact .inl ⟨c :: before, b, behind, hb, by simp [hw], by simp [hw']⟩
  · exact .inr ⟨c :: before, g, behind, hg, by simp [hw], by simp [hw']⟩

lemma Loosens.cons (c : Char) {cs ds : List Char}
    (h : Loosens (String.ofList cs) (String.ofList ds)) :
    Loosens (String.ofList (c :: cs)) (String.ofList (c :: ds)) := by
  have hlift := ReflTransGen.lift (fun w => String.ofList (c :: w.toList))
    (fun _ _ hstep => Inserts.cons c hstep) _ _ h
  rwa [Function.onFun_apply, String.toList_ofList, String.toList_ofList] at hlift

/-- If the angle brackets match, the text comes from the characters that are kept. -/
lemma loosens_dropArguments {cs : List Char} (h : Balanced cs) :
    Loosens (String.ofList (dropArguments 0 cs)) (String.ofList cs) := by
  induction h with
  | nil => exact .refl
  | @plain c cs hopen hclose _ ih =>
    cases hblank : Text.isBlank c with
    | true =>
      rw [dropArguments_cons_blank hblank]
      exact ih.tail (.inl ⟨[], c, cs, hblank, by simp, by simp⟩)
    | false =>
      rw [dropArguments, if_neg hopen, if_neg hclose, if_pos ⟨rfl, hblank⟩]
      exact ih.cons c
  | @group inside cs hinside _ _ ih =>
    have hgroup : IsGroup ('<' :: (inside ++ ['>'])) := ⟨inside, hinside, rfl⟩
    have hkept := dropArguments_group hgroup 0 cs
    simp only [List.cons_append, List.append_assoc, List.nil_append] at hkept
    rw [hkept]
    exact ih.tail (.inr ⟨[], _, cs, hgroup, by simp, by simp⟩)

end WrittenType

/-! ## Parameter types -/

/-- The type of a parameter. -/
structure ParameterType where
  element : String
  /-- The number of pairs of brackets behind the element. -/
  brackets : Nat
  /-- The parameter takes a variable number of arguments, which are handed over in an array. -/
  isVariadic : Bool

namespace ParameterType

open WrittenType

/-- The number of array dimensions. -/
def dimensions (t : ParameterType) : Nat :=
  if t.isVariadic then t.brackets + 1 else t.brackets

/-- The spelling without blanks and type arguments. -/
def text (t : ParameterType) : String :=
  (TypeRef.array ⟨t.element⟩ t.brackets).binaryName ++ if t.isVariadic then "..." else ""

/-- The element is given by a name: a text without brackets and blanks that does not end with three
dots. -/
structure Named (t : ParameterType) : Prop where
  no_angle : '<' ∉ t.element.toList ∧ '>' ∉ t.element.toList
  no_bracket : '[' ∉ t.element.toList ∧ ']' ∉ t.element.toList
  no_blank : ∀ c ∈ t.element.toList, Text.isBlank c = false
  no_dots : ¬"...".toList <:+ t.element.toList

/-- The text in front of the three dots, read from its end. -/
def reversed (t : ParameterType) : List Char :=
  (List.replicate t.brackets [']', '[']).flatten ++ t.element.toList.reverse

/-- The parameter type whose text is read from its end. -/
def ofReversed (cs : List Char) (isVariadic : Bool) : ParameterType :=
  ⟨String.ofList (TypeRef.stripBrackets cs).1.reverse, (TypeRef.stripBrackets cs).2, isVariadic⟩

variable {t : ParameterType}

lemma reverse_text (t : ParameterType) :
    t.text.toList.reverse = (if t.isVariadic then ['.', '.', '.'] else []) ++ t.reversed := by
  rw [text, String.toList_append, List.reverse_append, TypeRef.reverse_array, reversed]
  cases t.isVariadic <;> rfl

lemma reversed_ofReversed (cs : List Char) (isVariadic : Bool) :
    (ofReversed cs isVariadic).reversed = cs := by
  rw [reversed, ofReversed, String.toList_ofList, List.reverse_reverse,
    TypeRef.brackets_append_stripBrackets]

lemma Named.ofReversed_reversed (h : t.Named) : ofReversed t.reversed t.isVariadic = t := by
  have hstrip := TypeRef.stripBrackets_append t.brackets
    (show '[' ∉ t.element.toList.reverse by simpa using h.no_bracket.1)
  rw [ofReversed, reversed, hstrip, List.reverse_reverse, String.ofList_toList]

/-- Nothing in the text of a type is dropped. -/
lemma Named.plain_text (h : t.Named) :
    ∀ c ∈ t.text.toList, c ≠ '<' ∧ c ≠ '>' ∧ Text.isBlank c = false := by
  intro c hc
  rw [← List.mem_reverse, reverse_text, reversed, List.mem_append, List.mem_append,
    List.mem_reverse] at hc
  rcases hc with hc | hc | hc
  · cases hvariadic : t.isVariadic with
    | true =>
      obtain rfl : c = '.' := by simpa [hvariadic] using hc
      decide
    | false => simp [hvariadic] at hc
  · obtain ⟨pair, hpair, hc⟩ := List.mem_flatten.mp hc
    rw [List.eq_of_mem_replicate hpair] at hc
    obtain rfl | rfl : c = ']' ∨ c = '[' := by simpa using hc
    · decide
    · decide
  · exact ⟨ne_of_mem_of_not_mem hc h.no_angle.1, ne_of_mem_of_not_mem hc h.no_angle.2,
      h.no_blank c hc⟩

/-- Three dots at the end stand for a variable number of arguments. -/
lemma Named.reversed_ne_dots (h : t.Named) (cs : List Char) :
    t.reversed ≠ '.' :: '.' :: '.' :: cs := by
  intro hdots
  rw [reversed] at hdots
  cases hbrackets : t.brackets with
  | zero =>
    rw [hbrackets] at hdots
    exact h.no_dots (List.reverse_prefix.mp ⟨cs, hdots.symm⟩)
  | succ n =>
    rw [hbrackets, List.replicate_succ] at hdots
    exact absurd (List.cons.inj hdots).1 (by decide)

lemma erase_of_dots {w : String} {cs : List Char}
    (h : (dropArguments 0 w.toList).reverse = '.' :: '.' :: '.' :: cs) :
    erase w = ((ofReversed cs true).element, (ofReversed cs true).dimensions) := by
  rw [erase, h]
  rfl

lemma erase_of_no_dots {w : String} {cs : List Char}
    (h : (dropArguments 0 w.toList).reverse = cs) (hdots : ∀ ds, cs ≠ '.' :: '.' :: '.' :: ds) :
    erase w = ((ofReversed cs false).element, (ofReversed cs false).dimensions) := by
  rw [erase, h]
  split
  next element dimensions hmatch =>
    split at hmatch
    · next ds => exact absurd rfl (hdots ds)
    · rw [ofReversed, hmatch]
      rfl

/-- If the characters of its text are kept, a parameter type is told by erasure. -/
lemma Named.erase_eq (h : t.Named) {w : String} (hw : dropArguments 0 w.toList = t.text.toList) :
    erase w = (t.element, t.dimensions) := by
  have htold := h.ofReversed_reversed
  cases hvariadic : t.isVariadic with
  | true =>
    have hkept : (dropArguments 0 w.toList).reverse = '.' :: '.' :: '.' :: t.reversed := by
      rw [hw, reverse_text, hvariadic]
      rfl
    rw [hvariadic] at htold
    rw [erase_of_dots hkept, htold]
  | false =>
    have hkept : (dropArguments 0 w.toList).reverse = t.reversed := by
      rw [hw, reverse_text, hvariadic]
      rfl
    rw [hvariadic] at htold
    rw [erase_of_no_dots hkept h.reversed_ne_dots, htold]

/-- The characters that are kept are the text of the type that erasure tells. -/
lemma exists_text_eq (w : String) :
    ∃ t : ParameterType, String.ofList (dropArguments 0 w.toList) = t.text ∧
      erase w = (t.element, t.dimensions) := by
  generalize hcs : (dropArguments 0 w.toList).reverse = cs
  have htext (t : ParameterType) (ht : t.text.toList.reverse = cs) :
      String.ofList (dropArguments 0 w.toList) = t.text := by
    rw [← String.toList_inj, ← List.reverse_inj, String.toList_ofList, hcs, ht]
  by_cases hdots : ∃ ds, cs = '.' :: '.' :: '.' :: ds
  · obtain ⟨ds, rfl⟩ := hdots
    refine ⟨ofReversed ds true, htext _ ?_, erase_of_dots hcs⟩
    rw [reverse_text, reversed_ofReversed]
    rfl
  · refine ⟨ofReversed cs false, htext _ ?_, erase_of_no_dots hcs (not_exists.mp hdots)⟩
    rw [reverse_text, reversed_ofReversed]
    rfl

end ParameterType

/-! ## Erasure -/

namespace WrittenType

/-- However a parameter type is spelled, erasure gives its element and its dimensions.  The
spellings are what blanks and type arguments make of the text of the type when they are put in,
wherever and however often.

Every text whose angle brackets match is a spelling of a parameter type, of which erasure gives the
element and the dimensions. -/
theorem erase_readsSpellings :
    (∀ t : ParameterType, t.Named → ∀ w, Loosens t.text w → erase w = (t.element, t.dimensions)) ∧
    ∀ w : String, Balanced w.toList →
      ∃ t : ParameterType, Loosens t.text w ∧ erase w = (t.element, t.dimensions) := by
  refine ⟨fun t ht w hw => ?_, fun w hw => ?_⟩
  · refine ht.erase_eq ((dropArguments_of_loosens hw).trans (dropArguments_eq_self ?_))
    exact ht.plain_text
  · obtain ⟨t, htext, herase⟩ := ParameterType.exists_text_eq w
    refine ⟨t, ?_, herase⟩
    rw [← htext]
    simpa using loosens_dropArguments hw

/-- The arguments of `Map`, a blank between the brackets and one between the dots make no
difference to the element `Map.Entry` with its two dimensions. -/
theorem erase_readsSpellings_mapEntry :
    let t : ParameterType := ⟨"Map.Entry", 1, true⟩
    t.Named ∧ Loosens t.text "Map<T<U>>.Entry[ ].. ." ∧
      erase "Map<T<U>>.Entry[ ].. ." = ("Map.Entry", 2) ∧ Balanced "Map<T>".toList ∧
      ∃ t : ParameterType, Loosens t.text "Map<T>" ∧
        erase "Map<T>" = (t.element, t.dimensions) := by
  intro t
  have hblank : "Map.Entry".toList.all (!Text.isBlank ·) = true := by decide
  have hnamed : t.Named :=
    ⟨by decide, by decide, fun c hc => by simpa using List.all_eq_true.mp hblank c hc, by decide⟩
  have hT : Balanced ['T'] := .plain (by decide) (by decide) .nil
  have hU : Balanced ['U'] := .plain (by decide) (by decide) .nil
  have hgroup : IsGroup "<T<U>>".toList :=
    ⟨['T', '<', 'U', '>'], .plain (by decide) (by decide) (.group hU .nil), by decide⟩
  have hbalanced : Balanced "Map<T>".toList := by
    iterate 3 refine .plain (by decide) (by decide) ?_
    exact .group hT .nil
  have harguments : Inserts t.text "Map<T<U>>.Entry[]..." :=
    .inr ⟨"Map".toList, _, ".Entry[]...".toList, hgroup, by decide, by decide⟩
  have hbrackets : Inserts "Map<T<U>>.Entry[]..." "Map<T<U>>.Entry[ ]..." :=
    .inl ⟨"Map<T<U>>.Entry[".toList, ' ', "]...".toList, by decide, by decide, by decide⟩
  have hdots : Inserts "Map<T<U>>.Entry[ ]..." "Map<T<U>>.Entry[ ].. ." :=
    .inl ⟨"Map<T<U>>.Entry[ ]..".toList, ' ', ['.'], by decide, by decide, by decide⟩
  have hloosens : Loosens t.text "Map<T<U>>.Entry[ ].. ." :=
    ((ReflTransGen.single harguments).tail hbrackets).tail hdots
  obtain ⟨hspelled, hspells⟩ := erase_readsSpellings
  exact ⟨hnamed, hloosens, hspelled t hnamed _ hloosens, hbalanced, hspells _ hbalanced⟩

/-- Where the brackets do not match, one that closes nothing is dropped alone, and one that is never
closed is dropped with all that stands behind it. -/
example : erase "Map>[]" = ("Map", 1) ∧ erase "Map<K[]" = ("Map", 0) := by decide

end WrittenType

end JavaScope
