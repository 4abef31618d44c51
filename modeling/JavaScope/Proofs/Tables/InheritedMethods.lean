/-
# Inherited methods

The methods that a type inherits from one distance are those which the supertypes there declare
and pass on, but for those that match a method of the type itself or a method inherited from a
smaller distance (`ListsMethods`).  What matches is told by the names and the erased parameter
types.  The relation is symmetric, but a type that cannot be resolved matches every type of its
simple name, so it is not transitive, and it matters that the nearer method is listed itself.
-/
import JavaScope.Proofs.Tables.Overriding
import JavaScope.Proofs.Tables.SupertypeDistance

namespace JavaScope

/-! ## Declared types -/

/-- The declarations of types in a file. -/
def CompilationUnit.typeDecls (u : CompilationUnit) : List TypeDecl :=
  u.root.descendants.flatMap fun s => s.info.decls.filterMap fun
    | .type d => some d
    | _ => none

/-- The declared types of a file have different binary names.  Type parameters may share a name,
but not with a type that is none. -/
structure CompilationUnit.DistinctTypes (u : CompilationUnit) : Prop where
  nodup : ((u.typeDecls.filter (·.kind ≠ .typeParameter)).map (·.binaryName)).Nodup
  apart : ∀ d ∈ u.typeDecls, ∀ d' ∈ u.typeDecls, d.kind = .typeParameter →
    d'.kind ≠ .typeParameter → d.binaryName ≠ d'.binaryName

/-- An interface or annotation type. -/
def TypeKind.isInterface (k : TypeKind) : Bool := k = .interface || k = .annotationType

lemma TypeKind.passesOnStaticMethods_eq (k : TypeKind) :
    k.passesOnStaticMethods = !k.isInterface := by
  cases k <;> rfl

/-- Declarations of one name are of one kind. -/
lemma CompilationUnit.DistinctTypes.kind_eq {u : CompilationUnit} (h : u.DistinctTypes)
    {d d' : TypeDecl} (hd : d ∈ u.typeDecls) (hd' : d' ∈ u.typeDecls)
    (hname : d.binaryName = d'.binaryName) : d.kind = d'.kind := by
  by_cases hkind : d.kind = .typeParameter
  · by_cases hkind' : d'.kind = .typeParameter
    · rw [hkind, hkind']
    · exact absurd hname (h.apart d hd d' hd' hkind hkind')
  · by_cases hkind' : d'.kind = .typeParameter
    · exact absurd hname.symm (h.apart d' hd' d hd hkind' hkind)
    · -- neither is a type parameter, so they are one declaration
      have hmem : d ∈ u.typeDecls.filter (·.kind ≠ .typeParameter) :=
        List.mem_filter.mpr ⟨hd, decide_eq_true hkind⟩
      have hmem' : d' ∈ u.typeDecls.filter (·.kind ≠ .typeParameter) :=
        List.mem_filter.mpr ⟨hd', decide_eq_true hkind'⟩
      rw [List.inj_on_of_nodup_map h.nodup hmem hmem' hname]

namespace FileIndex

variable {u : CompilationUnit}

lemma kinds_ofUnit (u : CompilationUnit) :
    (ofUnit u).kinds = (u.typeDecls.map fun d => (d.binaryName, d.kind)).reverse := by
  have hscopes := congrArg (List.flatMap kindsOf) (Scope.map_withDeclaring "" u.root)
  rw [List.flatMap_map, List.flatMap_map] at hscopes
  refine congrArg List.reverse (hscopes.trans ?_)
  rw [CompilationUnit.typeDecls, List.map_flatMap]
  refine List.flatMap_congr fun s _ => ?_
  rw [kindsOf, List.map_filterMap]
  refine List.filterMap_congr fun d _ => ?_
  cases d <;> rfl

lemma mem_kinds_ofUnit {n : String} {k : TypeKind} :
    (n, k) ∈ (ofUnit u).kinds ↔ ∃ d ∈ u.typeDecls, d.binaryName = n ∧ d.kind = k := by
  simp [kinds_ofUnit]

/-- The index tells whether a type is declared as an interface. -/
lemma isInterface_kindOf (hdistinct : u.DistinctTypes) (n : String) :
    ((ofUnit u).kindOf n).isInterface =
      u.typeDecls.any fun d => d.binaryName = n && d.kind.isInterface := by
  rw [kindOf]
  cases hlookup : (ofUnit u).kinds.lookup n with
  | none =>
    -- a type without a declaration counts as a class
    refine Eq.symm (List.any_eq_false.mpr fun d hd => ?_)
    have hmem : (d.binaryName, d.kind) ∈ (ofUnit u).kinds :=
      mem_kinds_ofUnit.mpr ⟨d, hd, rfl, rfl⟩
    have hne : n ≠ d.binaryName := by
      simpa using List.lookup_eq_none_iff.mp hlookup _ hmem
    simp [hne.symm]
  | some k =>
    obtain ⟨d, hd, rfl, rfl⟩ := mem_kinds_ofUnit.mp (mem_of_lookup_eq_some hlookup)
    rw [Option.getD_some, Bool.eq_iff_iff, List.any_eq_true]
    constructor
    · intro hinterface
      exact ⟨d, hd, by simp [hinterface]⟩
    · rintro ⟨d', hd', hboth⟩
      simp only [Bool.and_eq_true, decide_eq_true_eq] at hboth
      rw [hdistinct.kind_eq hd hd' hboth.1.symm]
      exact hboth.2

/-- The index of a file has the declarations of its type bodies. -/
lemma declaredAt_eq_own (hids : u.scopeIds.Nodup) {s : Scope} (hs : s ∈ u.root.descendants)
    {header : TypeHeader} (hkind : s.info.kind = .typeBody header) :
    (ofUnit u).declaredAt s.info.id = s.info.own u.file := by
  obtain ⟨t, hdeclared⟩ := declaredAt_ofUnit hids hs
  rw [hdeclared, Scope.declaringType_of_typeBody hkind, ScopeInfo.own, hkind]

end FileIndex

/-! ## Methods that are passed on -/

namespace Supertype

/-- The type is on the classpath. -/
def isStub : Supertype → Bool
  | stub _ => true
  | source .. => false

/-- A supertype that is an interface or annotation type; in the file, one that is declared so. -/
def isInterface (u : CompilationUnit) : Supertype → Bool
  | stub c => c.kind.isInterface
  | source _ header =>
    u.typeDecls.any fun d => d.binaryName = header.binaryName && d.kind.isInterface

/-- The methods that a supertype declares, in order; in the file, in the scope with its node. -/
def declaredMethods (u : CompilationUnit) : Supertype → List MethodSymbol
  | stub c => c.methods.map (·.symbol c.binaryName)
  | source node _ =>
    match u.root.descendants.find? (·.info.id = node) with
    | some s => (s.info.own u.file).methods
    | none => []

/-- A supertype passes on a method that it declares: no private method, constructor or static
method of an interface, and of a class file no class initializer, synthetic method or bridge. -/
def PassesOn (u : CompilationUnit) (S : Supertype) (m : MethodSymbol) : Prop :=
  m.modifiers.isPrivate = false ∧ m.isConstructor = false ∧
    ¬(m.modifiers.isStatic = true ∧ S.isInterface u = true) ∧
    (S.isStub = true →
      m.name ≠ initializerName ∧ m.modifiers.isSynthetic = false ∧ m.modifiers.isBridge = false)

instance (u : CompilationUnit) (S : Supertype) (m : MethodSymbol) : Decidable (S.PassesOn u m) :=
  inferInstanceAs (Decidable (_ ∧ _ ∧ _ ∧ (_ → _)))

variable {u : CompilationUnit} {p : Classpath}

lemma offered_stub (x : FileIndex) (u : CompilationUnit) (c : ClassStub) :
    (stub c).offered x = ((stub c).declaredMethods u).filter ((stub c).PassesOn u ·) := by
  rw [offered, ClassStub.methodSymbols, ClassStub.inheritableMethods, declaredMethods,
    List.filter_map, List.filter_map, List.filter_filter]
  refine congrArg (List.map _) (List.filter_congr fun m _ => ?_)
  rw [Bool.eq_iff_iff]
  simp [PassesOn, isStub, isInterface, TypeKind.passesOnStaticMethods_eq, MethodStub.isInitializer,
    Modifiers.isHidden, MethodStub.symbol, MethodSymbol.isConstructor, MethodKind.ofName]
  tauto

lemma offered_source (hids : u.scopeIds.Nodup) (hdistinct : u.DistinctTypes) {node : NodeId}
    {header : TypeHeader}
    (hbody : (FileIndex.ofUnit u).body? header.binaryName = some (node, header)) :
    (source node header).offered (.ofUnit u) =
      ((source node header).declaredMethods u).filter ((source node header).PassesOn u ·) := by
  obtain ⟨-, s, hs, hkind, rfl⟩ := FileIndex.exists_scope_of_body? hbody
  have hfound := find?_eq_some_of_mem hids hs
  rw [offered, declaredMethods, hfound, FileIndex.declaredAt_eq_own hids hs hkind, passedOnMethods]
  refine List.filter_congr fun m _ => ?_
  rw [TypeKind.passesOnStaticMethods_eq, FileIndex.isInterface_kindOf hdistinct, Bool.eq_iff_iff]
  simp [PassesOn, isStub, isInterface]
  tauto

/-- What a supertype offers is what it declares and passes on. -/
lemma offered_eq (hids : u.scopeIds.Nodup) (hdistinct : u.DistinctTypes) {S : Supertype}
    (hS : S.Known (.ofUnit u) p) :
    S.offered (.ofUnit u) = (S.declaredMethods u).filter (S.PassesOn u ·) := by
  cases hS with
  | stub _ _ => exact offered_stub _ u _
  | source hbody => exact offered_source hids hdistinct hbody

end Supertype

/-! ## Inherited methods -/

/-- The levels of members that a type inherits, with the given methods of its own, list exactly the
methods that it inherits from the supertypes in the levels of the walk. -/
structure ListsMethods (u : CompilationUnit) (p : Classpath) (scope : SymbolTable)
    (own : List MethodSymbol) (walk : List (List Supertype)) (levels : List Members) : Prop where
  /-- There is a level for each distance. -/
  length : levels.length = walk.length
  /-- A level has the methods that the supertypes there declare and pass on, in order, but for
  those that match a method of the type or one at a nearer level. -/
  methods : ∀ k, (levels.getD k {}).methods =
    (walk.getD k []).flatMap fun S => (S.declaredMethods u).filter fun m =>
      S.PassesOn u m ∧ (∀ o ∈ own, ¬Matches p scope o m) ∧
        ∀ j < k, ∀ l ∈ (levels.getD j {}).methods, ¬Matches p scope l m
  /-- Methods at different levels do not match. -/
  apart : ∀ i j, i ≠ j → ∀ m ∈ (levels.getD i {}).methods, ∀ m' ∈ (levels.getD j {}).methods,
    ¬Matches p scope m m'
  /-- What is passed on is listed, or a method of the type or one at a nearer level matches it. -/
  covered : ∀ k, ∀ S ∈ walk.getD k [], ∀ m ∈ S.declaredMethods u, S.PassesOn u m →
    m ∈ (levels.getD k {}).methods ∨ (∃ o ∈ own, Matches p scope o m) ∨
      ∃ j < k, ∃ l ∈ (levels.getD j {}).methods, Matches p scope l m

/-- If all levels have these methods, they are apart and cover what is passed on. -/
lemma ListsMethods.of_methods {u : CompilationUnit} {p : Classpath} {scope : SymbolTable}
    {own : List MethodSymbol} {walk : List (List Supertype)} {levels : List Members}
    (hlength : levels.length = walk.length)
    (hmethods : ∀ k, (levels.getD k {}).methods =
      (walk.getD k []).flatMap fun S => (S.declaredMethods u).filter fun m =>
        S.PassesOn u m ∧ (∀ o ∈ own, ¬Matches p scope o m) ∧
          ∀ j < k, ∀ l ∈ (levels.getD j {}).methods, ¬Matches p scope l m) :
    ListsMethods u p scope own walk levels where
  length := hlength
  methods := hmethods
  apart := by
    have hnearer {i j : Nat} (hij : i < j) {m m' : MethodSymbol}
        (hm : m ∈ (levels.getD i {}).methods) (hm' : m' ∈ (levels.getD j {}).methods) :
        ¬Matches p scope m m' := by
      rw [hmethods] at hm'
      obtain ⟨S, -, hmem⟩ := List.mem_flatMap.mp hm'
      have hkept := (List.mem_filter.mp hmem).2
      simp only [decide_eq_true_eq] at hkept
      exact hkept.2.2 i hij m hm
    intro i j hij m hm m' hm'
    rcases Nat.lt_or_gt_of_ne hij with hlt | hgt
    · exact hnearer hlt hm hm'
    · exact fun hmatch => hnearer hgt hm' hm hmatch.symm
  covered := by
    intro k S hS m hm hpasses
    by_contra hnot
    simp only [not_or, not_exists, not_and] at hnot
    obtain ⟨hunlisted, hown, hlisted⟩ := hnot
    rw [hmethods] at hunlisted
    refine hunlisted (List.mem_flatMap.mpr ⟨S, hS, List.mem_filter.mpr ⟨hm, ?_⟩⟩)
    exact decide_eq_true ⟨hpasses, hown, hlisted⟩

/-- The levels of a walk list the methods that they should. -/
theorem listsMethods_membersWith {u : CompilationUnit} (hids : u.scopeIds.Nodup)
    (hdistinct : u.DistinctTypes) (p : Classpath) (scope : SymbolTable) (own : List MethodSymbol)
    {walk : List (List Supertype)} (hknown : ∀ k, ∀ S ∈ walk.getD k [], S.Known (.ofUnit u) p) :
    ListsMethods u p scope own walk
      (membersWith (.ofUnit u) p walk
        (listed (.ofUnit u) p scope (asOverriders p scope own) walk)) := by
  have hlength := length_listed (.ofUnit u) p scope (asOverriders p scope own) walk
  refine .of_methods (length_membersWith _ p hlength) fun k => ?_
  simp only [methods_membersWith _ p hlength]
  rw [getD_listed, List.filter_flatMap]
  refine List.flatMap_congr fun S hS => ?_
  rw [Supertype.offered_eq hids hdistinct (hknown k S hS), List.filter_filter]
  refine List.filter_congr fun m _ => ?_
  rw [Bool.eq_iff_iff, Bool.and_eq_true, uncovered_append, uncovered_asOverriders,
    uncovered_asOverriders, decide_eq_true_eq, decide_eq_true_eq]
  constructor
  · rintro ⟨⟨hown, hnearer⟩, hpasses⟩
    exact ⟨hpasses, hown, fun j hj l hl => hnearer l (mem_flatten_take.mpr ⟨j, hj, hl⟩)⟩
  · rintro ⟨hpasses, hown, hnearer⟩
    refine ⟨⟨hown, fun l hl => ?_⟩, hpasses⟩
    obtain ⟨j, hj, hl⟩ := mem_flatten_take.mp hl
    exact hnearer j hj l hl

namespace Analysis

/-- The methods at each level of a type body are those that the supertypes gathered there declare
and pass on, in order, but for those that match a method of the type or one at a nearer level. -/
theorem inheritedBy_listsMethods {config : Config} {p : Classpath} {a : Analysis}
    (hreach : Reaches ⟨config, p, {}⟩ a) {u : CompilationUnit} (hids : u.scopeIds.Nodup)
    (hbodies : u.bodyNames.Nodup) (hdistinct : u.DistinctTypes)
    (hinherited : config.inheritedMembers = true) {s : Scope} {e : ScopeEntry}
    (he : (s, e) ∈ (a.buildTables u).1.pairs u.root) {header : TypeHeader}
    (hkind : s.info.kind = .typeBody header) :
    ∃ outer number, (a.buildTables u).1.Around u.root s outer ∧
      let own := s.info.own u.file
      let levels := inheritedBy (.ofUnit config u) p outer s.info.kind own
      let walk := supertypeWalk (.ofUnit u) p outer config header
      e.table = TablePlace.bodyTable ⟨outer, number⟩ levels own ∧
        ListsMethods u p outer own.methods walk levels := by
  rw [hreach.buildTables_value] at he ⊢
  obtain ⟨-, outer, number, houter, htable⟩ := built_buildTables p he
  have hs : s ∈ u.root.descendants := (List.of_mem_zip he).1
  have hown := FileIndex.declaredAt_eq_own hids hs hkind
  refine ⟨outer, number, houter, ?_, ?_⟩
  · rw [value_scopeTable_typeBody _ p _ hkind] at htable
    exact hown ▸ htable
  · have hT : (Supertype.source s.info.id header).Known (.ofUnit u) p :=
      .source (FileIndex.body?_of_mem hbodies hs hkind)
    rw [hkind, inheritedBy_typeBody p outer header _ hinherited]
    refine listsMethods_membersWith hids hdistinct p outer _ fun k S hS => ?_
    exact (path_of_mem_supertypeWalk hT hS).known hT

/-- The levels of the class `T`, which inherits from the file alone, list the methods that are
passed on to it. -/
theorem inheritedBy_listsMethods_redundantUnit :
    let p := MemoryClasspath.toClasspath {}
    let a : Analysis := ⟨{}, p, {}⟩
    let u := redundantUnit
    let s := redundantType
    u.scopeIds.Nodup ∧ u.bodyNames.Nodup ∧ u.DistinctTypes ∧
      ∃ e, (s, e) ∈ (a.buildTables u).1.pairs u.root ∧
        ∃ outer number, (a.buildTables u).1.Around u.root s outer ∧
          let own := s.info.own u.file
          let levels := inheritedBy (.ofUnit {} u) p outer s.info.kind own
          let walk := supertypeWalk (.ofUnit u) p outer {} ⟨"T", some "A", ["Y"]⟩
          e.table = TablePlace.bodyTable ⟨outer, number⟩ levels own ∧
            ListsMethods u p outer own.methods walk levels := by
  intro p a u s
  have hids : u.scopeIds.Nodup := by decide
  have hbodies : u.bodyNames.Nodup := by decide
  have hdistinct : u.DistinctTypes := ⟨by decide, by decide⟩
  have hs : s ∈ u.root.descendants := by
    simp [s, u, redundantUnit, redundantType, Scope.descendants, Scope.descendantsOfAll]
  obtain ⟨e, he⟩ := Reaches.exists_pair (a := a) .refl hs
  exact ⟨hids, hbodies, hdistinct, e, he,
    inheritedBy_listsMethods .refl hids hbodies hdistinct rfl he rfl⟩

end Analysis

end JavaScope
