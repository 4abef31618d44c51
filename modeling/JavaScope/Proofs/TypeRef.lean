/-
# The brackets of a reference

A reference to an array type ends with a pair of brackets for each dimension.  As many pairs are
stripped from its name as were put behind it, and what is left in front of them is the element,
unless that ends with brackets of its own.
-/
import Mathlib.Tactic.Lemma
import JavaScope.TypeRef

namespace JavaScope.TypeRef

lemma stripBrackets_of_not_mem {cs : List Char} (h : '[' ∉ cs) : stripBrackets cs = (cs, 0) := by
  rw [stripBrackets]
  rintro ds rfl
  simp at h

/-- As many pairs of brackets are stripped as there are. -/
lemma stripBrackets_append (n : Nat) {cs : List Char} (h : '[' ∉ cs) :
    stripBrackets ((List.replicate n [']', '[']).flatten ++ cs) = (cs, n) := by
  induction n with
  | zero => exact stripBrackets_of_not_mem h
  | succ n ih =>
    rw [List.replicate_succ, List.flatten_cons, List.append_assoc]
    show stripBrackets (']' :: '[' :: ((List.replicate n [']', '[']).flatten ++ cs)) = _
    rw [stripBrackets, ih]

/-- Nothing but pairs of brackets is stripped. -/
lemma brackets_append_stripBrackets (cs : List Char) :
    (List.replicate (stripBrackets cs).2 [']', '[']).flatten ++ (stripBrackets cs).1 = cs := by
  fun_induction stripBrackets cs with
  | case1 cs name n hname ih =>
    rw [hname] at ih
    rw [List.replicate_succ, List.flatten_cons, List.append_assoc, ih]
    rfl
  | case2 cs => rfl

lemma reverse_array (t : TypeRef) (n : Nat) :
    (t.array n).binaryName.toList.reverse =
      (List.replicate n [']', '[']).flatten ++ t.binaryName.toList.reverse := by
  simp [array, String.toList_join, List.flatMap_replicate, List.reverse_flatten]

variable {t : TypeRef} (h : '[' ∉ t.binaryName.toList) (n : Nat)

include h

lemma elementName_array : (t.array n).elementName = t.binaryName := by
  rw [elementName, reverse_array, stripBrackets_append n (by simpa using h), List.reverse_reverse,
    String.ofList_toList]

lemma dimensions_array : (t.array n).dimensions = n := by
  rw [dimensions, reverse_array, stripBrackets_append n (by simpa using h)]

end JavaScope.TypeRef
