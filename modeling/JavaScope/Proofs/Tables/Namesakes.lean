/-
# Overloads of one simple name

A method of a supertype is left out for one of the same name with the same erased parameter types,
which the type declares or which is listed at a nearer level.  A type that cannot be resolved
keeps the simple name that it is written with, and stands for every type of that simple name.

Where all types that are written in the file can be resolved, there is one way left in which
different types pass for the same (`leftOut_iff_of_resolved`): the binary name of a type without a
package is a simple name too.  Such a type and one of a package that shares its simple name are
*namesakes*, and of two methods which differ only in namesakes the farther one is left out.
-/
import Mathlib.Data.List.Forall2
import JavaScope.Proofs.Tables.FoundTypes

namespace JavaScope

/-! ## Resolved parameters -/

/-- The element of a parameter type that source code names stands for a primitive type, for a
class of the classpath or a type of the file that is named in full, or for a type that is found. -/
def ResolvesIn (u : CompilationUnit) (p : Classpath) (scope : SymbolTable) (element : String) :
    Prop :=
  (TypeRef.primitiveNames.contains element = true ∧ element ≠ "void") ∨
    ('.' ∈ element.toList ∧ ((p.classNamed element).isSome = true ∨
      ∃ d ∈ u.typeDecls, d.binaryName = element)) ∨
    ('.' ∉ element.toList ∧ ∃ found, (scope.resolveType element).value p = some found ∧
      found.result.isUnresolved = false)

/-- All types in the parameter list of a method of the file can be resolved. -/
def MethodSymbol.ResolvesIn (u : CompilationUnit) (p : Classpath) (scope : SymbolTable)
    (m : MethodSymbol) : Prop :=
  m.origin.isSource = true →
    ∀ w ∈ m.parameters, JavaScope.ResolvesIn u p scope (WrittenType.erase w.binaryName).1

/-- A primitive type, a type of the file or the classpath, or an array of one; or a type that a
class file has for a parameter. -/
inductive TypeRef.Settled (u : CompilationUnit) (p : Classpath) : TypeRef → Prop
  | primitive {name : String} (dimensions : Nat) :
      primitiveNames.contains name = true → Settled u p (array ⟨name⟩ dimensions)
  | declared {d : TypeDecl} (dimensions : Nat) :
      d ∈ u.typeDecls → Settled u p (array ⟨d.binaryName⟩ dimensions)
  | onClasspath {name : String} {c : ClassStub} (dimensions : Nat) :
      p.stub? name = some c → Settled u p (array ⟨c.binaryName⟩ dimensions)
  | inClassFile {name : String} {c : ClassStub} {m : MethodStub} {t : TypeRef} :
      p.stub? name = some c → m ∈ c.methods → t ∈ m.parameters → Settled u p t

section Resolved

variable {config : Config} {u : CompilationUnit} {p : Classpath} {scope : SymbolTable}

/-- A type in source that can be resolved is erased to a known type. -/
lemma settled_eraseParameter (hframes : scope.FramesFrom config p u) {w : TypeRef}
    (h : ResolvesIn u p scope (WrittenType.erase w.binaryName).1) :
    ((eraseParameter scope w).value p).Settled u p := by
  generalize herase : WrittenType.erase w.binaryName = erased at h
  obtain ⟨element, dimensions⟩ := erased
  rw [eraseParameter, herase]
  simp only [Query.value_bind, Query.value_pure]
  rw [resolveElement]
  split
  · next hprimitive => exact .primitive dimensions hprimitive.1
  · next hprimitive =>
    rcases h with h | ⟨hdot, hnamed⟩ | ⟨hdot, found, hfound, hresolved⟩
    · exact absurd h hprimitive
    · rw [if_pos (by simpa using hdot), Query.value_bind, value_resolveDotted]
      cases hclass : p.classNamed element with
      | some c =>
        obtain ⟨n, -, hstub⟩ := List.exists_of_findSome?_eq_some hclass
        exact .onClasspath dimensions hstub
      | none =>
        -- the name is kept, and a type of the file has it
        rw [hclass] at hnamed
        obtain ⟨d, hd, rfl⟩ := hnamed.resolve_left (by simp)
        exact .declared dimensions hd
    · rw [if_neg (by simpa using hdot), Query.value_bind, hfound]
      simp only [hresolved, Query.value_pure]
      -- what is found is declared in the file or is a class
      have hfrom := comesFrom_of_resolveType hframes hfound
      generalize found.result = t at hfrom hresolved
      cases hfrom with
      | declared hd => exact .declared dimensions hd
      | onClasspath _ hstub => exact .onClasspath dimensions hstub
      | missing name => cases hresolved

lemma settled_of_source (hframes : scope.FramesFrom config p u) {m : MethodSymbol}
    (hsource : m.origin.isSource = true) (h : m.ResolvesIn u p scope) :
    ∀ t ∈ erasedIn p scope m, t.Settled u p := by
  rw [erasedIn, erasedParameters, if_pos hsource, Query.value_forEach]
  intro t ht
  obtain ⟨w, hw, rfl⟩ := List.mem_map.mp ht
  exact settled_eraseParameter hframes (h hsource w hw)

lemma isSource_of_mem_declaredAt {node : NodeId} {m : MethodSymbol}
    (h : m ∈ ((FileIndex.ofUnit u).declaredAt node).methods) : m.origin.isSource = true := by
  rcases FileIndex.declaredAt_cases u node with hnone | ⟨s, -, -, declaring, hdeclared⟩
  · rw [hnone] at h
    cases h
  · rw [hdeclared] at h
    obtain ⟨d, -, hsymbol⟩ := List.mem_filterMap.mp h
    rw [Decl.origin_of_methodSymbol? hsymbol]
    rfl

lemma settled_of_declared (hframes : scope.FramesFrom config p u) {node : NodeId}
    {m : MethodSymbol} (hm : m ∈ ((FileIndex.ofUnit u).declaredAt node).methods)
    (h : m.ResolvesIn u p scope) : ∀ t ∈ erasedIn p scope m, t.Settled u p :=
  settled_of_source hframes (isSource_of_mem_declaredAt hm) h

/-- The parameter types of the methods that a supertype passes on are known. -/
lemma settled_of_offered (hframes : scope.FramesFrom config p u) {S : Supertype}
    (hS : S.Known (.ofUnit u) p) {m : MethodSymbol} (hm : m ∈ S.offered (.ofUnit u))
    (h : m.ResolvesIn u p scope) : ∀ t ∈ erasedIn p scope m, t.Settled u p := by
  cases hS with
  | @stub name c _ hstub =>
    obtain ⟨stub, hmem, rfl⟩ := List.mem_map.mp (List.mem_of_mem_filter hm)
    rw [erasedIn_of_stub p scope rfl]
    exact fun t ht => .inClassFile hstub (List.mem_of_mem_filter hmem) ht
  | source _ => exact settled_of_declared hframes (List.mem_of_mem_filter hm) h

end Resolved

/-! ## Namesakes -/

/-- Two known types are different, but the name of the first is the simple name of the second. -/
structure Namesakes (u : CompilationUnit) (p : Classpath) (a b : TypeRef) : Prop where
  ne : a ≠ b
  settled : a.Settled u p ∧ b.Settled u p
  dimensions : a.dimensions = b.dimensions
  /-- The first is not in a package. -/
  isSimple : Name.isSimple a.elementName = true
  sameName : a.elementName = Name.simple b.elementName

/-- The comparison of parameters cannot tell two types apart. -/
def PassesFor (u : CompilationUnit) (p : Classpath) (a b : TypeRef) : Prop :=
  a = b ∨ Namesakes u p a b ∨ Namesakes u p b a

section Comparing

variable {u : CompilationUnit} {p : Classpath} {a b : TypeRef} {as bs : List TypeRef}

/-- Known types are taken to be the same if they are, or are namesakes. -/
lemma sameParameterType_iff (ha : a.Settled u p) (hb : b.Settled u p) :
    sameParameterType a b = true ↔ PassesFor u p a b := by
  rw [sameParameterType, PassesFor, Bool.or_eq_true, decide_eq_true_eq, Bool.and_eq_true,
    decide_eq_true_eq, Bool.or_eq_true, Bool.and_eq_true, Bool.and_eq_true, decide_eq_true_eq,
    decide_eq_true_eq]
  by_cases hab : a = b
  · exact iff_of_true (.inl hab) (.inl hab)
  · rw [or_iff_right hab, or_iff_right hab]
    constructor
    · rintro ⟨hdimensions, ⟨hsimple, hname⟩ | ⟨hsimple, hname⟩⟩
      · exact .inl ⟨hab, ⟨ha, hb⟩, hdimensions, hsimple, hname⟩
      · exact .inr ⟨Ne.symm hab, ⟨hb, ha⟩, hdimensions.symm, hsimple, hname⟩
    · rintro (h | h)
      · exact ⟨h.dimensions, .inl ⟨h.isSimple, h.sameName⟩⟩
      · exact ⟨h.dimensions.symm, .inr ⟨h.isSimple, h.sameName⟩⟩

lemma sameParameters_iff (has : ∀ a ∈ as, a.Settled u p) (hbs : ∀ b ∈ bs, b.Settled u p) :
    sameParameters as bs = true ↔ List.Forall₂ (PassesFor u p) as bs := by
  induction as generalizing bs with
  | nil => cases bs <;> simp [sameParameters]
  | cons a as ih =>
    cases bs with
    | nil => simp [sameParameters]
    | cons b bs =>
      rw [sameParameters, Bool.and_eq_true, List.forall₂_cons,
        sameParameterType_iff (has a List.mem_cons_self) (hbs b List.mem_cons_self),
        ih (fun a ha => has a (List.mem_cons_of_mem _ ha))
          fun b hb => hbs b (List.mem_cons_of_mem _ hb)]

/-- Without namesakes, lists of parameters that pass for each other are equal. -/
lemma forall₂_passesFor_iff
    (hapart : ∀ a ∈ as, ∀ b ∈ bs, ¬Namesakes u p a b ∧ ¬Namesakes u p b a) :
    List.Forall₂ (PassesFor u p) as bs ↔ as = bs := by
  constructor
  · intro h
    induction h with
    | nil => rfl
    | @cons a b as bs hab _ ih =>
      obtain ⟨hfirst, hsecond⟩ := hapart a List.mem_cons_self b List.mem_cons_self
      rcases hab with rfl | h | h
      · rw [ih fun a ha b hb => hapart a (List.mem_cons_of_mem _ ha) b (List.mem_cons_of_mem _ hb)]
      · exact absurd h hfirst
      · exact absurd h hsecond
  · rintro rfl
    exact List.forall₂_same.mpr fun a _ => .inl rfl

end Comparing

/-! ## Methods that are left out -/

/-- What is not listed at its distance is overridden by a given method or one listed nearer. -/
lemma not_mem_listed_iff {x : FileIndex} {p : Classpath} {scope : SymbolTable}
    {own : List MethodSymbol} {walk : List (List Supertype)} {k : Nat} {m : MethodSymbol}
    (hm : ∃ S ∈ walk.getD k [], m ∈ S.offered x) :
    m ∉ (listed x p scope (asOverriders p scope own) walk).getD k [] ↔
      ∃ m', (m' ∈ own ∨
          ∃ j < k, m' ∈ (listed x p scope (asOverriders p scope own) walk).getD j []) ∧
        Matches p scope m' m := by
  rw [mem_listed, uncovered_asOverriders, not_and, not_and]
  constructor
  · intro h
    by_contra hnone
    refine h hm (fun l hl hmatch => hnone ⟨l, .inl hl, hmatch⟩) fun j hj l hl hmatch => ?_
    exact hnone ⟨l, .inr ⟨j, hj, hl⟩, hmatch⟩
  · rintro ⟨m', hm' | ⟨j, hj, hm'⟩, hmatch⟩ - hown hnearer
    · exact hown m' hm' hmatch
    · exact hnearer j hj m' hm' hmatch

namespace Analysis

/-- If all types can be resolved that the parameters of a type's own methods and of those of its
supertypes are written with, then a method that a supertype passes on is left out exactly if the
type declares, or a nearer level lists, a method of the same name whose parameters have the same
types one by one, except for namesakes.  So without namesakes it is left out exactly if the lists
of erased parameter types are equal. -/
theorem leftOut_iff_of_resolved {config : Config} {p : Classpath} {a : Analysis}
    (hreach : Reaches ⟨config, p, {}⟩ a) {u : CompilationUnit}
    (hinherited : config.inheritedMembers = true) {s : Scope} {header : TypeHeader}
    (hkind : s.info.kind = .typeBody header) {outer : SymbolTable}
    (houter : (a.buildTables u).1.Around u.root s outer) :
    let x := FileIndex.ofUnit u
    let own := x.declaredAt s.info.id
    let walk := supertypeWalk x p outer config header
    let levels := inheritedBy (.ofUnit config u) p outer s.info.kind own
    (∀ m ∈ own.methods, m.ResolvesIn u p outer) →
    (∀ level ∈ walk, ∀ S ∈ level, ∀ m ∈ S.offered x, m.ResolvesIn u p outer) →
    ∀ k, ∀ S ∈ walk.getD k [], ∀ m ∈ S.offered x,
      let nearer (m' : MethodSymbol) : Prop :=
        m' ∈ own.methods ∨ ∃ j < k, m' ∈ (levels.getD j {}).methods
      (m ∉ (levels.getD k {}).methods ↔ ∃ m', nearer m' ∧ m'.name = m.name ∧
        List.Forall₂ (PassesFor u p) (erasedIn p outer m') (erasedIn p outer m)) ∧
      ((∀ m', nearer m' → ∀ t' ∈ erasedIn p outer m', ∀ t ∈ erasedIn p outer m,
          ¬Namesakes u p t' t ∧ ¬Namesakes u p t t') →
        (m ∉ (levels.getD k {}).methods ↔ ∃ m', nearer m' ∧ m'.name = m.name ∧
          erasedIn p outer m' = erasedIn p outer m)) := by
  intro x own walk levels hown hwalk k S hS m hm nearer
  rw [hreach.buildTables_value] at houter
  have hframes := framesFrom_around houter
  have hlisted (j : Nat) : (levels.getD j {}).methods =
      (listed x p outer (asOverriders p outer own.methods) walk).getD j [] := by
    rw [show levels = _ from congrArg (fun kind => inheritedBy _ p outer kind own) hkind,
      inheritedBy_typeBody p outer header own hinherited]
    exact methods_membersWith x p (length_listed x p outer _ _) j
  -- all methods that are compared have known parameter types
  have hgathered {j : Nat} {R : Supertype} (hR : R ∈ walk.getD j []) {l : MethodSymbol}
      (hl : l ∈ R.offered x) : ∀ t ∈ erasedIn p outer l, t.Settled u p := by
    obtain ⟨level, hlevel, hR⟩ :=
      List.mem_flatten.mp (mem_flatten_take.mpr ⟨j, Nat.lt_succ_self j, hR⟩)
    have hlevel := List.mem_of_mem_take hlevel
    exact settled_of_offered hframes ((Supertype.known_of_mem_supertypeWalk hlevel).1 R hR) hl
      (hwalk level hlevel R hR l hl)
  have hnearer {m' : MethodSymbol} (h : nearer m') : ∀ t ∈ erasedIn p outer m', t.Settled u p := by
    rcases h with h | ⟨j, -, h⟩
    · exact settled_of_declared hframes h (hown m' h)
    · rw [hlisted] at h
      obtain ⟨⟨R, hR, hoffered⟩, -⟩ := mem_listed.mp h
      exact hgathered hR hoffered
  have hleft : m ∉ (levels.getD k {}).methods ↔ ∃ m', nearer m' ∧ m'.name = m.name ∧
      List.Forall₂ (PassesFor u p) (erasedIn p outer m') (erasedIn p outer m) := by
    rw [hlisted, not_mem_listed_iff ⟨S, hS, hm⟩]
    simp only [← hlisted]
    refine exists_congr fun m' => and_congr_right fun h => and_congr_right' ?_
    exact sameParameters_iff (hnearer h) (hgathered hS hm)
  refine ⟨hleft, fun hapart => hleft.trans (exists_congr fun m' => and_congr_right fun h => ?_)⟩
  exact and_congr_right' (forall₂_passesFor_iff (hapart m' h))

/-- The body of `class T extends A`, which declares `m(W)`. -/
def overridingType : Scope :=
  .node ⟨⟨8⟩, .typeBody ⟨"T", some "A", []⟩, ⟨100, 190⟩,
    [.method ⟨⟨9⟩, "m", .none, ["W"], none⟩]⟩ []

/-- A file with a class `W`, a class `A` with the methods `m(int)` and `m(W)`, and the class
`T`. -/
def overloadsUnit : CompilationUnit where
  file := ⟨0⟩
  package := none
  imports := []
  root := .node ⟨⟨0⟩, .compilationUnit, ⟨0, 200⟩,
      [.type ⟨⟨1⟩, "W", .normalClass, .none⟩, .type ⟨⟨2⟩, "A", .normalClass, .none⟩,
        .type ⟨⟨3⟩, "T", .normalClass, .none⟩]⟩
    [.node ⟨⟨4⟩, .typeBody ⟨"W", none, []⟩, ⟨10, 40⟩, []⟩ [],
      .node ⟨⟨5⟩, .typeBody ⟨"A", none, []⟩, ⟨50, 90⟩,
        [.method ⟨⟨6⟩, "m", .none, ["int"], none⟩, .method ⟨⟨7⟩, "m", .none, ["W"], none⟩]⟩ [],
      overridingType]

/-- The class `T` declares a method `m(W)` and leaves out that of `A`. -/
theorem leftOut_iff_of_resolved_overloadsUnit :
    let p := MemoryClasspath.toClasspath {}
    let a : Analysis := ⟨{}, p, {}⟩
    let u := overloadsUnit
    let x := FileIndex.ofUnit u
    let A : Supertype := .source ⟨5⟩ ⟨"A", none, []⟩
    let mA : MethodSymbol := .ofSource ⟨⟨0⟩, ⟨7⟩⟩ "m" "A" .none [⟨"W"⟩] none
    let mT : MethodSymbol := .ofSource ⟨⟨0⟩, ⟨9⟩⟩ "m" "T" .none [⟨"W"⟩] none
    ∃ outer, (a.buildTables u).1.Around u.root overridingType outer ∧
      supertypeWalk x p outer {} ⟨"T", some "A", []⟩ = [[A]] ∧
      mA ∈ A.offered x ∧ mT ∈ (x.declaredAt ⟨8⟩).methods ∧
      mA ∉ ((inheritedBy (.ofUnit {} u) p outer overridingType.info.kind
        (x.declaredAt ⟨8⟩)).getD 0 {}).methods := by
  intro p a u x A mA mT
  let mInt : MethodSymbol := .ofSource ⟨⟨0⟩, ⟨6⟩⟩ "m" "A" .none [⟨"int"⟩] none
  have hentries : (a.buildTables u).1.entries ≠ [] := List.ne_nil_of_length_pos (by decide)
  have houter : (a.buildTables u).1.Around u.root overridingType (a.buildTables u).1.root :=
    ScopeTables.around_top hentries (by simp [u, overloadsUnit, Scope.children])
  have hW : (((a.buildTables u).1.root.resolveType "W").value p).map (·.result.isUnresolved) =
      some false := by decide +kernel
  generalize (a.buildTables u).1.root = outer at houter hW
  have hwalk : supertypeWalk x p outer {} ⟨"T", some "A", []⟩ = [[A]] := rfl
  have hoffered : A.offered x = [mInt, mA] := rfl
  have hown : (x.declaredAt ⟨8⟩).methods = [mT] := rfl
  obtain ⟨found, hfound, hresolved⟩ := Option.map_eq_some_iff.mp hW
  -- the two types that parameters have
  have hresolvesInt : ResolvesIn u p outer (WrittenType.erase "int").1 := .inl (by decide)
  have hresolvesW : ResolvesIn u p outer (WrittenType.erase "W").1 := by
    rw [show WrittenType.erase "W" = ("W", 0) by decide]
    exact .inr (.inr ⟨by decide, found, hfound, hresolved⟩)
  have hinA : mA ∈ A.offered x := by simp [hoffered]
  refine ⟨outer, houter, hwalk, hinA, by simp [hown], ?_⟩
  refine ((leftOut_iff_of_resolved .refl rfl rfl houter ?_ ?_ 0 A ?_ mA hinA).1).mpr ?_
  · intro m hm
    obtain rfl : m = mT := List.mem_singleton.mp hm
    rintro - w hw
    obtain rfl := List.mem_singleton.mp hw
    exact hresolvesW
  · intro level hlevel S hS m hm
    obtain rfl : level = [A] := List.mem_singleton.mp (hwalk ▸ hlevel)
    obtain rfl := List.mem_singleton.mp hS
    rcases List.mem_pair.mp (hoffered ▸ hm) with rfl | rfl
    · rintro - w hw
      obtain rfl := List.mem_singleton.mp hw
      exact hresolvesInt
    · rintro - w hw
      obtain rfl := List.mem_singleton.mp hw
      exact hresolvesW
  · rw [show (supertypeWalk _ p outer _ _) = _ from hwalk]
    exact List.mem_singleton.mpr rfl
  · have herased : erasedIn p outer mT = erasedIn p outer mA := rfl
    refine ⟨mT, .inl (List.mem_singleton.mpr rfl), rfl, ?_⟩
    rw [herased]
    exact List.forall₂_same.mpr fun t _ => .inl rfl

end Analysis

end JavaScope
