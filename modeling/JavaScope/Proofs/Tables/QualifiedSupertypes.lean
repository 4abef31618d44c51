/-
# Supertypes with qualified names

A supertype may be written as the whole name of a type, with a dot behind each package and each
class around it.  On the classpath such a name is tried with every number of nested classes, so that
it is found at any depth of nesting.  The types of the file are known by their binary names only, in
which a dollar stands behind each class around a nested one: the name finds a type at the top of the
file, and no other type of the file (`resolveSupertype_qualified`).
-/
import JavaScope.Proofs.Run.DottedNames
import JavaScope.Proofs.Tables.SimpleSupertypes

namespace JavaScope

variable {u : CompilationUnit} {p : Classpath} {outer inner : List (List Char)} {b : String}

/-- What the file declares under a name is a type with this binary name. -/
lemma CompilationUnit.bodyNamed?_eq_some {S : Supertype} (h : u.bodyNamed? b = some S) :
    S.binaryName = b ∧ ∀ c, S ≠ .stub c := by
  rw [← FileIndex.supertype?_ofUnit] at h
  obtain ⟨⟨node, header⟩, hbody, rfl⟩ := Option.map_eq_some_iff.mp h
  exact ⟨(FileIndex.exists_scope_of_body? hbody).1, fun c hc => nomatch hc⟩

/-- A name with a dot that no type of the file has as its binary name is looked up on the
classpath. -/
lemma value_resolveSupertype_of_dot {scope : SymbolTable} {w : String}
    (hdot : '.' ∈ (WrittenType.head w).toList) :
    (resolveSupertype (.ofUnit u) scope w).value p =
      (u.bodyNamed? (WrittenType.head w)).or
        ((p.classNamed (WrittenType.head w)).map .stub) := by
  have hcontains : (WrittenType.head w).toList.contains '.' = true := by simpa using hdot
  simp only [resolveSupertype, FileIndex.supertype?_ofUnit, hcontains, if_true]
  cases u.bodyNamed? (WrittenType.head w) with
  | some S => rfl
  | none =>
    rw [Query.value_bind, value_resolveDotted, Query.value_pure, Option.none_or]

/-- A nested class of the classpath is found under its spelling in source, unless a class with a
longer package is. -/
lemma classNamed_inSource (hb : Name.Nests outer inner b) {c : ClassStub}
    (hc : p.stub? (Name.toInternal b) = some c)
    (hlonger : ∀ k < inner.length, p.stub? (Name.candidate (Name.inSource b) k) = none) :
    p.classNamed (Name.inSource b) = some c := by
  have hlength : inner.length < (Name.parts (Name.inSource b)).length := by
    have := List.length_pos_iff.mpr hb.outer_ne_nil
    rw [hb.parts_inSource, List.length_append]
    omega
  obtain ⟨rest, hcandidates⟩ := Name.exists_candidates_eq hlength
  rw [hb.candidate_inSource] at hcandidates
  refine List.findSome?_eq_some_iff.mpr ⟨_, _, rest, hcandidates, hc, fun name hname => ?_⟩
  obtain ⟨k, hk, rfl⟩ := List.mem_map.mp hname
  exact hlonger k (List.mem_range.mp hk)

namespace Analysis

/-- Take the last type of a file with some binary name, which has the segments `outer` for its
package and the class at the top and `inner` for the classes nested in it, and a header that spells
this name with a dot in place of each dollar.  Whatever a run did before and whatever scope the
header stands in, the type is taken exactly if it is not nested.

The spelling of a nested type stands for a type of the file only if that has the spelling itself for
its binary name; else it stands for the class of the classpath that is found under it.  There a
class with this binary name is found at any depth of nesting, unless one with a longer package
is. -/
theorem resolveSupertype_qualified {config : Config} {a : Analysis}
    (hreach : Reaches ⟨config, p, {}⟩ a) {S : Supertype} (hS : u.bodyNamed? b = some S)
    (hb : Name.Nests outer inner b) {w : String} (hw : WrittenType.head w = Name.inSource b)
    (scope : SymbolTable) :
    let taken := (a.answer (resolveSupertype (.ofUnit u) scope w)).1
    (taken = some S ↔ inner = []) ∧
      (inner ≠ [] → taken = (u.bodyNamed? (Name.inSource b)).or
        ((a.answer (Query.resolveDotted (Name.inSource b))).1.map .stub)) ∧
      ∀ c, (a.entry (Name.toInternal b)).1 = .resolved c →
        (∀ k < inner.length, ∀ d,
          (a.entry (Name.candidate (Name.inSource b) k)).1 ≠ .resolved d) →
        (a.answer (Query.resolveDotted (Name.inSource b))).1 = some c := by
  intro taken
  have hsound := (sound_fresh config p).reaches hreach
  obtain ⟨hname, hsource⟩ := CompilationUnit.bodyNamed?_eq_some hS
  have htaken : taken = (resolveSupertype (.ofUnit u) scope w).value p := (hsound.answer _).1
  have hdotted : (a.answer (Query.resolveDotted (Name.inSource b))).1 =
      p.classNamed (Name.inSource b) := by
    rw [(hsound.answer _).1, value_resolveDotted]
  -- a nested type is looked up under another name than its own
  have hnested (hne : inner ≠ []) : taken = (u.bodyNamed? (Name.inSource b)).or
      ((p.classNamed (Name.inSource b)).map .stub) := by
    have hdot := hb.dot_mem_inSource hne
    rw [← hw] at hdot ⊢
    rw [htaken, value_resolveSupertype_of_dot hdot]
  refine ⟨⟨fun hfound => ?_, fun hnil => ?_⟩, fun hne => ?_, fun c hc hlonger => ?_⟩
  · by_contra hne
    rw [hnested hne] at hfound
    rcases Option.or_eq_some_iff.mp hfound with hbody | ⟨-, hclass⟩
    · have hsame := (CompilationUnit.bodyNamed?_eq_some hbody).1
      exact hne (hb.inSource_eq_iff.mp (hsame.symm.trans hname))
    · obtain ⟨c, -, hc⟩ := Option.map_eq_some_iff.mp hclass
      exact hsource c hc.symm
  · rw [htaken]
    refine value_resolveSupertype_of_body ?_
    rw [hw, hb.inSource_eq_iff.mpr hnil, hS]
  · rw [hdotted]
    exact hnested hne
  · obtain rfl := hsound.classpath
    have hentry (name : String) : a.classpath.stub? name = (a.entry name).1.stub? :=
      congrArg StubEntry.stub? (hsound.store.entry name).1.symm
    rw [hdotted]
    refine classNamed_inSource hb ?_ fun k hk => ?_
    · rw [hentry, hc]
      rfl
    · rw [hentry]
      exact StubEntry.stub?_eq_none_iff.mpr (hlonger k hk)

/-- A class file of a class `B` inside `Outer`, which is in the package of the file too. -/
def compiledClass : MemoryClasspath where
  classes :=
    [("p/Outer$B", [0xCA, 0xFE, 0xBA, 0xBE, 0, 0, 0, 52,
        0, 3, 7, 0, 2, 1, 0, 9, 112, 47, 79, 117, 116, 101, 114, 36, 66,
        0, 33, 0, 1, 0, 0, 0, 0, 0, 0, 0, 0, 0, 0])]

/-- The qualified name of the class `B` at the top of the file is taken for it.  That of the class
`B` inside `Outer` is taken for the class file. -/
theorem resolveSupertype_qualified_compiledClass :
    let a : Analysis := ⟨{}, compiledClass.toClasspath, {}⟩
    let u := shadowingUnit
    let taken (w : String) := (a.answer (resolveSupertype (.ofUnit u) .empty w)).1
    (∃ S, u.bodyNamed? "p.B" = some S ∧ taken "p.B<T>" = some S) ∧
      ∃ S c, u.bodyNamed? "p.Outer$B" = some S ∧ taken "p.Outer.B<T>" ≠ some S ∧
        (a.entry "p/Outer$B").1 = .resolved c ∧ taken "p.Outer.B<T>" = some (.stub c) := by
  intro a u taken
  have htop : Name.Nests [['p'], ['B']] [] "p.B" :=
    ⟨by decide, by decide, by simp [Name.isSeparator]⟩
  have hinner : Name.Nests [['p'], "Outer".toList] [['B']] "p.Outer$B" :=
    ⟨by decide, by decide, by simp [Name.isSeparator]⟩
  have hbody {b : String} (h : (u.bodyNamed? b).isSome = true) : ∃ S, u.bodyNamed? b = some S :=
    Option.isSome_iff_exists.mp h
  obtain ⟨T, hT⟩ := hbody (b := "p.B") (by decide)
  obtain ⟨S, hS⟩ := hbody (b := "p.Outer$B") (by decide)
  obtain ⟨c, hc⟩ : ∃ c, (a.entry "p/Outer$B").1.stub? = some c :=
    Option.isSome_iff_exists.mp (by decide +kernel)
  have hc := StubEntry.stub?_eq_some_iff.mp hc
  have hinternal : Name.toInternal "p.Outer$B" = "p/Outer$B" := by decide
  have hlonger : Name.candidate (Name.inSource "p.Outer$B") 0 = "p/Outer/B" := by decide
  have hmissing : (a.entry "p/Outer/B").1.isResolved = false := by decide +kernel
  have hnobody : u.bodyNamed? (Name.inSource "p.Outer$B") = none :=
    Option.isNone_iff_eq_none.mp (by decide)
  obtain ⟨hfound, -⟩ := resolveSupertype_qualified (a := a) .refl hT htop
    (w := "p.B<T>") (by decide) .empty
  obtain ⟨hnested, htaken, hclass⟩ := resolveSupertype_qualified (a := a) .refl hS hinner
    (w := "p.Outer.B<T>") (by decide) .empty
  have hclass := hclass c (hinternal ▸ hc) <| by
    intro k hk d hd
    obtain rfl : k = 0 := Nat.lt_one_iff.mp hk
    rw [hlonger] at hd
    rw [hd] at hmissing
    cases hmissing
  refine ⟨⟨T, hT, hfound.mpr rfl⟩, S, c, hS, fun h => ?_, hc, ?_⟩
  · exact absurd (hnested.mp h) (List.cons_ne_nil _ _)
  · refine (htaken (List.cons_ne_nil _ _)).trans ?_
    rw [hnobody, hclass]
    rfl

end Analysis

end JavaScope
