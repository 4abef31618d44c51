/-
# Supertypes with simple names

A supertype that is written as a simple name is the type which this name has in the scope around
the type body (`TakenAsFound`): the body of a type of the file, or a class of the classpath.
Nothing is inherited through a name that has no type there, or one that stands for a missing
import.

The names of the file come first, though.  If the simple name is the whole binary name of a type
of the file, as for a type at the top of a file without a package, then that type is taken,
whatever the scope says (`resolveSupertype_simple`).
-/
import JavaScope.Proofs.Tables.FoundTypes
import JavaScope.Proofs.Tables.SupertypeGraph

namespace JavaScope

/-! ## Bodies by name -/

/-- The last type body of a file with this binary name. -/
def CompilationUnit.bodyNamed? (u : CompilationUnit) (name : String) : Option Supertype :=
  u.root.descendants.reverse.findSome? fun s =>
    match s.info.kind.header? with
    | some h => if h.binaryName = name then some (.source s.info.id h) else none
    | none => none

lemma FileIndex.supertype?_ofUnit (u : CompilationUnit) (name : String) :
    (ofUnit u).supertype? name = u.bodyNamed? name := by
  rw [supertype?, body?, bodies_ofUnit, ← List.filterMap_reverse, CompilationUnit.bodyNamed?]
  induction u.root.descendants.reverse with
  | nil => rfl
  | cons s rest ih =>
    rw [List.findSome?_cons]
    cases hheader : s.info.kind.header? with
    | none =>
      rw [List.filterMap_cons_none (by rw [bodyOf, hheader]; rfl)]
      exact ih
    | some h =>
      rw [List.filterMap_cons_some (by rw [bodyOf, hheader]; rfl), List.lookup_cons]
      by_cases hname : h.binaryName = name
      · rw [hname, beq_self_eq_true]
        simp [hname]
      · rw [beq_false_of_ne (Ne.symm hname)]
        simpa [hname] using ih

/-! ## What is taken -/

/-- A supertype is taken as a look-up in the scope finds it.  Nothing is taken if nothing or a
missing import is found, or a type of the file without a body, such as a type parameter. -/
inductive TakenAsFound (u : CompilationUnit) (p : Classpath) :
    Option (Found TypeSymbol) → Option Supertype → Prop
  | nothing : TakenAsFound u p none none
  | missing {found : Found TypeSymbol} {name : String} :
      found.result = .placeholder name → TakenAsFound u p (some found) none
  | declared {found : Found TypeSymbol} {d : TypeDecl} : d ∈ u.typeDecls →
      found.result = d.symbol u.file → TakenAsFound u p (some found) (u.bodyNamed? d.binaryName)
  | onClasspath {found : Found TypeSymbol} {c : ClassStub} :
      (Query.stubOfBinary found.result.binaryName).value p = some c → found.result = c.symbol →
      TakenAsFound u p (some found) (some (.stub c))

section Simple

variable {config : Config} {u : CompilationUnit} {p : Classpath} {outer : SymbolTable}
  {written : String}

lemma value_resolveSupertype_of_body {S : Supertype}
    (hbody : u.bodyNamed? (WrittenType.head written) = some S) :
    (resolveSupertype (.ofUnit u) outer written).value p = some S := by
  simp only [resolveSupertype, FileIndex.supertype?_ofUnit, hbody]
  rfl

/-- Without a body of its name, a simple name is looked up in the scope. -/
lemma takenAsFound_of_noBody (hframes : outer.FramesFrom config p u)
    (hsimple : '.' ∉ (WrittenType.head written).toList)
    (hbody : u.bodyNamed? (WrittenType.head written) = none) :
    TakenAsFound u p ((outer.resolveType (WrittenType.head written)).value p)
      ((resolveSupertype (.ofUnit u) outer written).value p) := by
  rw [resolveSupertype]
  simp only [FileIndex.supertype?_ofUnit, hbody]
  rw [if_neg (by simpa using hsimple), Query.value_bind]
  cases hfound : (outer.resolveType (WrittenType.head written)).value p with
  | none => exact .nothing
  | some found =>
    have hfrom := comesFrom_of_resolveType hframes hfound
    generalize hresult : found.result = t at hfrom
    cases hfrom with
    | @declared d hd =>
      simp only [hresult, TypeDecl.symbol, TypeSymbol.ofSource, Query.value_pure]
      exact .declared hd hresult
    | @onClasspath name c hname hstub =>
      have hnamed := value_stubOfBinary_binaryName hname hstub
      simp only [hresult, ClassStub.symbol, Query.value_bind, Query.value_pure, hnamed]
      exact .onClasspath (by rw [hresult]; exact hnamed) hresult
    | missing name =>
      simp only [hresult, TypeSymbol.placeholder, Query.value_pure]
      exact .missing hresult

end Simple

/-! ## What is inherited -/

/-- The header with the supertypes that a test keeps. -/
def TypeHeader.keeping (h : TypeHeader) (keep : String → Bool) : TypeHeader where
  binaryName := h.binaryName
  superclass := h.superclass.filter keep
  interfaces := h.interfaces.filter keep

lemma TypeHeader.supertypes_keeping (h : TypeHeader) (keep : String → Bool) :
    (h.keeping keep).supertypes = h.supertypes.filter keep := by
  rw [supertypes, supertypes, List.filter_append, keeping]
  cases h.superclass with
  | none => rfl
  | some w =>
    by_cases hw : keep w
    · simp [Option.filter, hw]
    · simp [Option.filter, hw]

/-- A supertype that is not found adds nothing to what is inherited. -/
lemma inheritedBy_keeping {x : FileContext} {p : Classpath} {outer : SymbolTable}
    {header : TypeHeader} {own : Declared} {keep : String → Bool}
    (h : ∀ w ∈ header.supertypes, keep w = false →
      (resolveSupertype x.index outer w).value p = none) :
    inheritedBy x p outer (.typeBody (header.keeping keep)) own =
      inheritedBy x p outer (.typeBody header) own := by
  have hsame : ((header.keeping keep).supertypes.filterMap fun w =>
      (resolveSupertype x.index outer w).value p) =
        header.supertypes.filterMap fun w => (resolveSupertype x.index outer w).value p := by
    rw [TypeHeader.supertypes_keeping, List.filterMap_filter]
    refine List.filterMap_congr fun w hw => ?_
    cases hkeep : keep w with
    | true => rfl
    | false => exact (h w hw hkeep).symm
  have hwalk : supertypeWalk x.index p outer x.config (header.keeping keep) =
      supertypeWalk x.index p outer x.config header := by
    rw [supertypeWalk, supertypeWalk, hsame]
    rfl
  simp only [inheritedBy, value_inheritedLevels, hwalk]

namespace Analysis

/-- A supertype that is written as a simple name is taken as the name is found in the scope around
the type body, unless the name is the binary name of another type with a body in the file, which is
taken then.  Without such a type, nothing is inherited through a name that is not found or that
stands for a missing import: a type inherits the same as if its header did not have the name. -/
theorem resolveSupertype_simple {config : Config} {p : Classpath} {a : Analysis}
    (hreach : Reaches ⟨config, p, {}⟩ a) {u : CompilationUnit} {s : Scope} {outer : SymbolTable}
    (houter : (a.buildTables u).1.Around u.root s outer) :
    let found (w : String) := (outer.resolveType (WrittenType.head w)).value p
    let taken (w : String) := (resolveSupertype (.ofUnit u) outer w).value p
    (∀ w, '.' ∉ (WrittenType.head w).toList →
      (TakenAsFound u p (found w) (taken w) ↔
        ∀ S, u.bodyNamed? (WrittenType.head w) = some S → TakenAsFound u p (found w) (some S)) ∧
      ∀ S, u.bodyNamed? (WrittenType.head w) = some S → taken w = some S) ∧
    ∀ (header : TypeHeader) (keep : String → Bool) (own : Declared),
      (∀ w ∈ header.supertypes, keep w = false →
        '.' ∉ (WrittenType.head w).toList ∧ u.bodyNamed? (WrittenType.head w) = none ∧
          ∀ f, found w = some f → ∃ name, f.result.origin = .unresolved name) →
      inheritedBy (.ofUnit config u) p outer (.typeBody (header.keeping keep)) own =
        inheritedBy (.ofUnit config u) p outer (.typeBody header) own := by
  intro found taken
  rw [hreach.buildTables_value] at houter
  have hframes := framesFrom_around houter
  refine ⟨fun w hsimple => ⟨?_, fun S hS => value_resolveSupertype_of_body hS⟩, ?_⟩
  · constructor
    · intro htaken S hS
      rwa [← value_resolveSupertype_of_body hS]
    · intro hbody
      cases hname : u.bodyNamed? (WrittenType.head w) with
      | none => exact takenAsFound_of_noBody hframes hsimple hname
      | some S =>
        rw [show taken w = some S from value_resolveSupertype_of_body hname]
        exact hbody S hname
  · intro header keep own hdropped
    refine inheritedBy_keeping fun w hw hkeep => ?_
    obtain ⟨hsimple, hname, hfound⟩ := hdropped w hw hkeep
    have htaken := takenAsFound_of_noBody hframes hsimple hname
    generalize hf : (outer.resolveType (WrittenType.head w)).value p = f at htaken
    generalize hS : (resolveSupertype (.ofUnit u) outer w).value p = S at htaken
    cases htaken with
    | nothing => exact hS
    | missing => exact hS
    | declared _ hresult =>
      obtain ⟨name, horigin⟩ := hfound _ hf
      rw [hresult] at horigin
      cases horigin
    | onClasspath _ hresult =>
      obtain ⟨name, horigin⟩ := hfound _ hf
      rw [hresult] at horigin
      cases horigin

/-- The body of `class D extends B implements I`, which is inside `Outer`. -/
def innerType : Scope :=
  .node ⟨⟨9⟩, .typeBody ⟨"p.Outer$D", some "B<T>", ["I"]⟩, ⟨120, 180⟩, []⟩ []

/-- The body of `class Outer`, which has a class `B` of its own. -/
def enclosingType : Scope :=
  .node ⟨⟨5⟩, .typeBody ⟨"p.Outer", none, []⟩, ⟨70, 190⟩,
      [.type ⟨⟨6⟩, "p.Outer$B", .normalClass, .none⟩,
        .type ⟨⟨7⟩, "p.Outer$D", .normalClass, .none⟩]⟩
    [.node ⟨⟨8⟩, .typeBody ⟨"p.Outer$B", none, []⟩, ⟨80, 110⟩, []⟩ [], innerType]

/-- A file with another class `B` beside `Outer`. -/
def shadowingUnit : CompilationUnit where
  file := ⟨0⟩
  package := some "p"
  imports := []
  root := .node ⟨⟨0⟩, .compilationUnit, ⟨0, 200⟩,
      [.type ⟨⟨1⟩, "p.B", .normalClass, .none⟩, .type ⟨⟨2⟩, "p.Outer", .normalClass, .none⟩]⟩
    [.node ⟨⟨3⟩, .typeBody ⟨"p.B", none, []⟩, ⟨10, 40⟩,
        [.var ⟨⟨4⟩, "x", .field, .none, some "int"⟩]⟩ [],
      enclosingType]

/-- The class `D` takes the class `B` of `Outer`, and inherits the same without the interface that
there is not. -/
theorem resolveSupertype_simple_shadowingUnit :
    let p := MemoryClasspath.toClasspath {}
    let a : Analysis := ⟨{}, p, {}⟩
    let u := shadowingUnit
    ∃ outer, (a.buildTables u).1.Around u.root innerType outer ∧
      (∃ S, (resolveSupertype (.ofUnit u) outer "B<T>").value p = some S ∧
        S.binaryName = "p.Outer$B" ∧ TakenAsFound u p ((outer.resolveType "B").value p) (some S)) ∧
      ∀ own, inheritedBy (.ofUnit {} u) p outer (.typeBody ⟨"p.Outer$D", some "B<T>", []⟩) own =
        inheritedBy (.ofUnit {} u) p outer (.typeBody ⟨"p.Outer$D", some "B<T>", ["I"]⟩) own := by
  intro p a u
  have hvalue : (a.buildTables u).1 = (JavaScope.buildTables {} u).value p :=
    Reaches.buildTables_value .refl u
  have hids : u.scopeIds.Nodup := by decide
  have hmem : enclosingType ∈ u.root.descendants := by
    simp [u, shadowingUnit, enclosingType, Scope.descendants, Scope.descendantsOfAll]
  obtain ⟨f, hf⟩ := exists_pair p {} hmem
  have hget := get?_of_pair p hids hf
  rw [← hvalue] at hf
  have houter : (a.buildTables u).1.Around u.root innerType f.table :=
    .inr ⟨(enclosingType, f), hf, by simp [enclosingType, Scope.children], rfl⟩
  -- the two names, looked up in the table of `Outer`
  have hB : (((JavaScope.buildTables {} u).value p).get? enclosingType.info.id).map
      (fun t => ((resolveSupertype (.ofUnit u) t "B<T>").value p).map (·.binaryName)) =
        some (some "p.Outer$B") := by decide +kernel
  have hI : (((JavaScope.buildTables {} u).value p).get? enclosingType.info.id).map
      (fun t => ((t.resolveType (WrittenType.head "I")).value p).isNone) = some true := by
    decide +kernel
  rw [hget] at hB hI
  obtain ⟨S, htaken, hS⟩ := Option.map_eq_some_iff.mp (Option.some.inj hB)
  have hI := Option.isNone_iff_eq_none.mp (Option.some.inj hI)
  obtain ⟨hlaw, hnothing⟩ := resolveSupertype_simple .refl houter
  refine ⟨f.table, houter, ⟨S, htaken, hS, ?_⟩, fun own => ?_⟩
  · have hhead : WrittenType.head "B<T>" = "B" := by decide
    have hbody : (u.bodyNamed? (WrittenType.head "B<T>")).isNone = true := by decide
    rw [← htaken, ← hhead]
    refine (hlaw "B<T>" (by decide)).1.mpr fun S hS => ?_
    rw [hS] at hbody
    cases hbody
  · have hkeeping : (TypeHeader.mk "p.Outer$D" (some "B<T>") ["I"]).keeping (· ≠ "I") =
        ⟨"p.Outer$D", some "B<T>", []⟩ := by decide
    have hbody : (u.bodyNamed? (WrittenType.head "I")).isNone = true := by decide
    rw [← hkeeping]
    refine hnothing _ _ own fun w _ hkeep => ?_
    obtain rfl : w = "I" := by simpa using hkeep
    exact ⟨by decide, Option.isNone_iff_eq_none.mp hbody,
      fun f hf => absurd (hI.symm.trans hf) (by simp)⟩

end Analysis

end JavaScope
