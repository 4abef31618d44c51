/-
# Names in headers

The walk through the supertypes of a type looks up every name in the scope around that type, also
the names in the headers of other types of the file, which have scopes around them of their own.
A simple name means the same in both scopes if no scope that encloses just one of the two types
binds it; then the walk takes from the header the same supertypes as the type which it belongs to
(`direct_eq_of_unbound`).
-/
import JavaScope.Proofs.Tables.Lexical
import JavaScope.Proofs.Tables.SupertypeWalk

namespace JavaScope

/-- Through layers without bindings nothing but what is outside is found. -/
lemma FindsThrough.eq_outside {α : Type} {outside outcome : Option (Found α)}
    {layers : List (FrameKind × List α)} (h : FindsThrough outside layers outcome)
    (hempty : ∀ l ∈ layers, l.2 = []) : outcome = outside := by
  induction h with
  | outside => rfl
  | pass _ ih => exact ih fun l hl => hempty l (List.mem_cons_of_mem _ hl)
  | stop a more => exact absurd (hempty _ List.mem_cons_self) (List.cons_ne_nil a more)

/-- Inside the table `outer`, the scope binds types of this name: it declares or inherits some.
A compilation unit is taken to bind all names. -/
def FileContext.BindsType (x : FileContext) (p : Classpath) (outer : SymbolTable) (i : ScopeInfo)
    (name : String) : Prop :=
  i.kind = .compilationUnit ∨
    ∃ layer ∈ i.kind.typeLayers (i.own x.unit.file)
      (inheritedBy x p outer i.kind (i.own x.unit.file)) name, layer.2 ≠ []

/-- Where a scope binds no type of a name, the name means what it means around the scope. -/
lemma resolveType_scopeTable {x : FileContext} {p : Classpath} {q : TablePlace} {i : ScopeInfo}
    {t name : String} (hfree : ¬ x.BindsType p q.parent i name)
    (hdeclared : x.index.declaredAt i.id =
      .symbolsOf x.unit.file (i.declaringType t) i.decls) :
    (((scopeTable x q i).value p).resolveType name).value p =
      (q.parent.resolveType name).value p := by
  obtain ⟨hkind, hlayers⟩ := not_or.mp hfree
  have hinside : ResolvesInside (Query.value p) _ _ _ _ _ :=
    scopeTable_resolvesInside (fun _ => rfl) x p q hkind hdeclared
  refine (hinside.types name).eq_outside fun layer hlayer => ?_
  by_contra hne
  exact hlayers ⟨layer, hlayer, hne⟩

section File

variable {config : Config} {p : Classpath} {u : CompilationUnit} {name : String} {e s : Scope}
  {outer inner : SymbolTable}

/-- In the file, no scope of this sort in `e` binds a type of this name. -/
def Unbound (config : Config) (p : Classpath) (u : CompilationUnit) (name : String)
    (sort : Scope → Prop) (e : Scope) : Prop :=
  ∀ f ∈ e.descendants, sort f → ∀ outer,
    ((buildTables config u).value p).Around u.root f outer →
      ¬ (FileContext.ofUnit config u).BindsType p outer f.info name

lemma Unbound.inside {sort sort' : Scope → Prop} (h : Unbound config p u name sort e)
    (hs : s ∈ e.descendants) (hsort : ∀ f ∈ s.descendants, sort' f → sort f) :
    Unbound config p u name sort' s :=
  fun f hf hf' => h f (Scope.mem_trans hs hf) (hsort f hf hf')

variable (hids : u.scopeIds.Nodup)

include hids

/-- A name means the same around a child, where its parent binds no type of the name. -/
lemma resolveType_child (he : e ∈ u.root.descendants) (hs : s ∈ e.children)
    (houter : ((buildTables config u).value p).Around u.root e outer)
    (hinner : ((buildTables config u).value p).Around u.root s inner)
    (hfree : ¬ (FileContext.ofUnit config u).BindsType p outer e.info name) :
    (inner.resolveType name).value p = (outer.resolveType name).value p := by
  obtain ⟨f, hf⟩ := exists_pair p config he
  obtain ⟨-, outer', number, houter', htable⟩ := built_buildTables p hf
  obtain rfl := around_unique p hids houter houter'
  obtain rfl := around_child p hids hf hs hinner
  obtain ⟨t, hdeclared⟩ := FileIndex.declaredAt_ofUnit hids he
  rw [htable]
  exact resolveType_scopeTable (q := ⟨outer, number⟩) hfree hdeclared

/-- A name means the same around a scope and around another in it, if no scope between them
binds the name. -/
lemma resolveType_inside (he : e ∈ u.root.descendants) (hs : s ∈ e.descendants)
    (houter : ((buildTables config u).value p).Around u.root e outer)
    (hinner : ((buildTables config u).value p).Around u.root s inner)
    (hfree : Unbound config p u name (·.Encloses s) e) :
    (inner.resolveType name).value p = (outer.resolveType name).value p := by
  induction e using Scope.induct generalizing outer with
  | node i cs ih =>
    rcases Scope.mem_descendants.mp hs with rfl | hs
    · rw [around_unique p hids houter hinner]
    · obtain ⟨c, hc, hsc⟩ := Scope.encloses_iff.mp hs
      have hci := Scope.mem_of_encloses (Scope.encloses_child hc)
      have hcu := Scope.mem_trans he hci
      obtain ⟨between, hbetween⟩ := exists_tableAround p config hcu
      have hself := hfree _ (Scope.mem_self _) hs outer houter
      rw [← resolveType_child hids he hc houter hbetween hself]
      exact ih c hc hcu hsc hbetween (hfree.inside hci fun _ _ h => h)

/-- A name means the same around two scopes if no scope that encloses just one of them binds
it. -/
lemma resolveType_eq_of_unbound {D S : Scope} {outerD outerS : SymbolTable}
    (he : e ∈ u.root.descendants) (hD : D ∈ e.descendants) (hS : S ∈ e.descendants)
    (houterD : ((buildTables config u).value p).Around u.root D outerD)
    (houterS : ((buildTables config u).value p).Around u.root S outerS)
    (hfree : Unbound config p u name (fun f => ¬(f.Encloses D ↔ f.Encloses S)) e) :
    (outerD.resolveType name).value p = (outerS.resolveType name).value p := by
  induction e using Scope.induct with
  | node i cs ih =>
    have hdistinct : (Scope.node i cs).Distinct := Scope.Distinct.of_mem hids he
    -- nothing in the scope encloses the scope itself
    have hnot {f : Scope} (hf : f ∈ (Scope.node i cs).descendants) :
        ¬ f.Encloses (.node i cs) :=
      fun h => Scope.not_encloses_self _ (Scope.encloses_of_mem hf h)
    rcases Scope.mem_descendants.mp hD with rfl | hD
    · refine (resolveType_inside hids he hS houterD houterS ?_).symm
      exact hfree.inside (Scope.mem_self _) fun f hf hfS h => hnot hf (h.mpr hfS)
    rcases Scope.mem_descendants.mp hS with rfl | hS
    · refine resolveType_inside hids he (Scope.mem_of_encloses hD) houterS houterD ?_
      exact hfree.inside (Scope.mem_self _) fun f hf hfD h => hnot hf (h.mp hfD)
    obtain ⟨c, hc, hDc⟩ := Scope.encloses_iff.mp hD
    obtain ⟨d, hd, hSd⟩ := Scope.encloses_iff.mp hS
    have hci := Scope.mem_of_encloses (Scope.encloses_child hc)
    have hdi := Scope.mem_of_encloses (Scope.encloses_child hd)
    by_cases hcd : c = d
    · subst hcd
      exact ih c hc (Scope.mem_trans he hci) hDc hSd (hfree.inside hci fun _ _ h => h)
    · -- the two are in different children, around which there is the same table
      obtain ⟨between, hbetween⟩ := exists_tableAround p config (Scope.mem_trans he hci)
      obtain ⟨between', hbetween'⟩ := exists_tableAround p config (Scope.mem_trans he hdi)
      obtain ⟨f, hf⟩ := exists_pair p config he
      obtain rfl := around_child p hids hf hc hbetween
      obtain rfl := around_child p hids hf hd hbetween'
      have hapart {s : Scope} (hs : s ∈ c.descendants) (hs' : s ∈ d.descendants) : False :=
        hcd (hdistinct.child_unique hc hd hs hs')
      have hDbetween := resolveType_inside hids (Scope.mem_trans he hci) hDc hbetween
        houterD (hfree.inside hci fun f hf hfD h =>
          hapart (Scope.mem_of_encloses (Scope.encloses_of_mem hf (h.mp hfD))) hSd)
      have hSbetween := resolveType_inside hids (Scope.mem_trans he hdi) hSd hbetween'
        houterS (hfree.inside hdi fun f hf hfS h =>
          hapart hDc (Scope.mem_of_encloses (Scope.encloses_of_mem hf (h.mpr hfS))))
      rw [hDbetween, hSbetween]

end File

/-! ## Headers -/

/-- A supertype that is named by its binary name in the file, or with a dot, is the same in all
scopes; other names must mean the same. -/
lemma resolveSupertype_eq {x : FileIndex} {p : Classpath} {scope scope' : SymbolTable}
    {written : String}
    (h : x.supertype? (WrittenType.head written) = none →
      '.' ∉ (WrittenType.head written).toList →
        (scope.resolveType (WrittenType.head written)).value p =
          (scope'.resolveType (WrittenType.head written)).value p) :
    (resolveSupertype x scope written).value p = (resolveSupertype x scope' written).value p := by
  unfold resolveSupertype
  cases hfile : x.supertype? (WrittenType.head written) with
  | some s => simp only [hfile]
  | none =>
    simp only [hfile]
    split
    · rfl
    · next hdot => rw [Query.value_bind, Query.value_bind, h hfile (by simpa using hdot)]

namespace Analysis

/-- The names in the header of a type with the body `S` mean the same in the scope around `D` as
in the scope around `S`, and a walk for `D` takes from `S` the direct supertypes that a walk for
`S` begins with; except that a simple name, which is not a binary name of the file, may be bound
by a scope that encloses only one of the two. -/
theorem direct_eq_of_unbound {config : Config} {p : Classpath} {a : Analysis}
    (hreach : Reaches ⟨config, p, {}⟩ a) {u : CompilationUnit} (hids : u.scopeIds.Nodup)
    {D S : Scope} (hD : D ∈ u.root.descendants) (hS : S ∈ u.root.descendants)
    {header : TypeHeader} (_ : S.info.kind = .typeBody header) {outerD outerS : SymbolTable}
    (houterD : (a.buildTables u).1.Around u.root D outerD)
    (houterS : (a.buildTables u).1.Around u.root S outerS)
    (hfree : ∀ w ∈ header.supertypes,
      (FileIndex.ofUnit u).supertype? (WrittenType.head w) = none →
      '.' ∉ (WrittenType.head w).toList →
      Unbound config p u (WrittenType.head w) (fun f => ¬(f.Encloses D ↔ f.Encloses S)) u.root) :
    let x := FileIndex.ofUnit u
    (∀ w ∈ header.supertypes,
      (resolveSupertype x outerD w).value p = (resolveSupertype x outerS w).value p) ∧
    (Supertype.source S.info.id header).direct x p outerD =
      (Supertype.source S.info.id header).direct x p outerS := by
  intro x
  rw [hreach.buildTables_value] at houterD houterS
  have hsame : ∀ w ∈ header.supertypes,
      (resolveSupertype x outerD w).value p = (resolveSupertype x outerS w).value p := by
    intro w hw
    refine resolveSupertype_eq fun hfile hdot => ?_
    exact resolveType_eq_of_unbound hids (Scope.mem_self u.root) hD hS houterD houterS
      (hfree w hw hfile hdot)
  exact ⟨hsame, List.filterMap_congr hsame⟩

/-- The body of `class D extends S`. -/
def nestedType : Scope := .node ⟨⟨11⟩, .typeBody ⟨"p.Outer$D", some "S", []⟩, ⟨120, 180⟩, []⟩ []

/-- The body of `class Outer`, which contains `D`. -/
def outerType : Scope :=
  .node ⟨⟨7⟩, .typeBody ⟨"p.Outer", none, []⟩, ⟨70, 190⟩,
    [.type ⟨⟨9⟩, "p.Outer$D", .normalClass, .none⟩]⟩ [nestedType]

/-- The body of `class S extends B`. -/
def middleType : Scope := .node ⟨⟨6⟩, .typeBody ⟨"p.S", some "B", []⟩, ⟨50, 60⟩, []⟩ []

/-- A file with the classes `B`, `S` and `Outer`. -/
def nestedUnit : CompilationUnit where
  file := ⟨0⟩
  package := some "p"
  imports := []
  root := .node ⟨⟨0⟩, .compilationUnit, ⟨0, 200⟩,
      [.type ⟨⟨1⟩, "p.B", .normalClass, .none⟩, .type ⟨⟨2⟩, "p.S", .normalClass, .none⟩,
        .type ⟨⟨3⟩, "p.Outer", .normalClass, .none⟩]⟩
    [.node ⟨⟨4⟩, .typeBody ⟨"p.B", none, []⟩, ⟨10, 40⟩,
        [.var ⟨⟨5⟩, "x", .field, .none, some "int"⟩]⟩ [],
      middleType, outerType]

/-- The class `Outer` neither declares nor inherits a type called `B`. -/
lemma outerType_unbound (p : Classpath) (outer : SymbolTable) :
    ¬ (FileContext.ofUnit {} nestedUnit).BindsType p outer outerType.info "B" := by
  have hlayers : outerType.info.kind.typeLayers (outerType.info.own ⟨0⟩)
      (inheritedBy (.ofUnit {} nestedUnit) p outer outerType.info.kind
        (outerType.info.own ⟨0⟩)) "B" = [(.members, []), (.typeParameters, [])] := rfl
  rintro (hkind | ⟨layer, hlayer, hne⟩)
  · cases hkind
  · rw [show (FileContext.ofUnit {} nestedUnit).unit.file = ⟨0⟩ from rfl, hlayers] at hlayer
    rcases List.mem_pair.mp hlayer with rfl | rfl
    · exact hne rfl
    · exact hne rfl

/-- Only `Outer` encloses just one of `D` and `S`. -/
lemma nestedUnit_unbound (p : Classpath) :
    Unbound {} p nestedUnit "B" (fun f => ¬(f.Encloses nestedType ↔ f.Encloses middleType))
      nestedUnit.root := by
  intro f hf hone outer _
  simp only [nestedUnit, outerType, Scope.descendants, Scope.descendantsOfAll, middleType,
    nestedType, List.append_nil, List.mem_cons, List.cons_append, List.nil_append,
    List.not_mem_nil, or_false] at hf
  rcases hf with rfl | rfl | rfl | rfl | rfl
  · simp [Scope.Encloses, Scope.descendants, Scope.descendantsOfAll, Scope.children, middleType,
      nestedType] at hone
  · simp [Scope.Encloses, Scope.descendantsOfAll, Scope.children] at hone
  · simp [Scope.Encloses, Scope.descendantsOfAll, Scope.children] at hone
  · exact outerType_unbound p outer
  · simp [Scope.Encloses, Scope.descendantsOfAll, Scope.children] at hone

/-- The name `B` in the header of `S` is bound by no scope around only one of `S` and `D`, so that
`S` has the same supertypes for `D` as for itself. -/
theorem direct_eq_of_unbound_nestedUnit :
    let p := MemoryClasspath.toClasspath {}
    let a : Analysis := ⟨{}, p, {}⟩
    let u := nestedUnit
    let x := FileIndex.ofUnit u
    ∃ outerD outerS, (a.buildTables u).1.Around u.root nestedType outerD ∧
      (a.buildTables u).1.Around u.root middleType outerS ∧
      (∀ w ∈ ["B"],
        (resolveSupertype x outerD w).value p = (resolveSupertype x outerS w).value p) ∧
      (Supertype.source ⟨6⟩ ⟨"p.S", some "B", []⟩).direct x p outerD =
        (Supertype.source ⟨6⟩ ⟨"p.S", some "B", []⟩).direct x p outerS := by
  intro p a u x
  have hids : u.scopeIds.Nodup := by decide
  have hD : nestedType ∈ u.root.descendants := by
    simp [u, nestedUnit, outerType, Scope.descendants, Scope.descendantsOfAll, nestedType]
  have hS : middleType ∈ u.root.descendants := by
    simp [u, nestedUnit, Scope.descendants, Scope.descendantsOfAll, middleType]
  obtain ⟨outerD, houterD⟩ := Reaches.exists_tableAround (a := a) .refl hD
  obtain ⟨outerS, houterS⟩ := Reaches.exists_tableAround (a := a) .refl hS
  refine ⟨outerD, outerS, houterD, houterS, ?_⟩
  refine direct_eq_of_unbound .refl hids hD hS rfl houterD houterS ?_
  intro w hw _ _
  obtain rfl : w = "B" := by simpa [TypeHeader.supertypes] using hw
  exact nestedUnit_unbound p

end Analysis

end JavaScope
