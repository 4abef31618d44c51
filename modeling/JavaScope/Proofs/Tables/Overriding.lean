/-
# Overriding by distance

A method that a type inherits from one distance leaves out the methods of the same name and the
same erased parameter types from all greater distances, and none from smaller ones
(`mem_listed_iff_le`).  What matters is the distance alone, not which of the supertypes is a
supertype of the other.  If an interface is named again further down, the method of a class that
implements it is left out for that of the interface (`redundantUnit_dropsOverrider`).
-/
import Mathlib.Data.List.GetD
import JavaScope.Proofs.Tables.Lexical
import JavaScope.Proofs.Tables.SupertypeWalk

namespace JavaScope

/-! ## Matching methods -/

lemma sameParameters_self (ts : List TypeRef) : sameParameters ts ts = true := by
  induction ts with
  | nil => rfl
  | cons t ts ih => rw [sameParameters, ih, sameParameterType, decide_eq_true rfl]; rfl

lemma sameParameterType_comm (a b : TypeRef) : sameParameterType a b = sameParameterType b a := by
  rw [sameParameterType, sameParameterType, Bool.or_comm (Name.isSimple a.elementName && _)]
  simp only [eq_comm]

lemma sameParameters_comm (as bs : List TypeRef) : sameParameters as bs = sameParameters bs as := by
  induction as generalizing bs with
  | nil => cases bs <;> rfl
  | cons a as ih =>
    cases bs with
    | nil => rfl
    | cons b bs => rw [sameParameters, sameParameters, sameParameterType_comm, ih]

/-- Two methods have one name and the same parameter types, as these are erased in a scope. -/
def Matches (p : Classpath) (scope : SymbolTable) (m m' : MethodSymbol) : Prop :=
  m.name = m'.name ∧ sameParameters (erasedIn p scope m) (erasedIn p scope m') = true

instance (p : Classpath) (scope : SymbolTable) (m m' : MethodSymbol) :
    Decidable (Matches p scope m m') :=
  inferInstanceAs (Decidable (_ ∧ _))

/-! ## Listed methods -/

section Listed

variable {x : FileIndex} {p : Classpath} {scope : SymbolTable} {os : Overriders}
  {walk : List (List Supertype)} {m m' : MethodSymbol}

lemma Matches.symm (h : Matches p scope m m') : Matches p scope m' m :=
  ⟨h.1.symm, (sameParameters_comm _ _).trans h.2⟩

lemma uncovered_asOverriders {ms : List MethodSymbol} :
    uncovered p scope (asOverriders p scope ms) m ↔ ∀ l ∈ ms, ¬Matches p scope l m := by
  simp [uncovered, asOverriders, Overriders.cover, Matches]

lemma uncovered_append {os' : Overriders} :
    uncovered p scope (os ++ os') m ↔ uncovered p scope os m ∧ uncovered p scope os' m := by
  simp [uncovered, Overriders.cover]

lemma mem_flatten_take {α : Type} {ls : List (List α)} {k : Nat} {a : α} :
    a ∈ (ls.take k).flatten ↔ ∃ j < k, a ∈ ls.getD j [] := by
  induction ls generalizing k with
  | nil => simp
  | cons l rest ih =>
    cases k with
    | zero => simp
    | succ k =>
      rw [List.take_succ_cons, List.flatten_cons, List.mem_append, ih]
      constructor
      · rintro (h | ⟨j, hj, h⟩)
        · exact ⟨0, Nat.succ_pos k, h⟩
        · exact ⟨j + 1, by omega, h⟩
      · rintro ⟨j, hj, h⟩
        cases j with
        | zero => exact .inl h
        | succ j => exact .inr ⟨j, by omega, h⟩

/-- What is listed at a distance is what neither the given methods nor those listed nearer
override. -/
lemma getD_listed (os : Overriders) (walk : List (List Supertype)) (k : Nat) :
    (listed x p scope os walk).getD k [] =
      ((walk.getD k []).flatMap (·.offered x)).filter
        (uncovered p scope
          (os ++ asOverriders p scope ((listed x p scope os walk).take k).flatten)) := by
  induction walk generalizing os k with
  | nil => simp [listed]
  | cons level rest ih =>
    cases k with
    | zero => simp [listed, asOverriders]
    | succ k =>
      -- the methods of the first level override from then on
      have hrest := ih (os ++ asOverriders p scope
        ((level.flatMap (·.offered x)).filter (uncovered p scope os))) k
      simpa [listed, asOverriders] using hrest

lemma mem_listed {k : Nat} :
    m ∈ (listed x p scope os walk).getD k [] ↔
      (∃ S ∈ walk.getD k [], m ∈ S.offered x) ∧ uncovered p scope os m ∧
        ∀ j < k, ∀ l ∈ (listed x p scope os walk).getD j [], ¬Matches p scope l m := by
  rw [getD_listed, List.mem_filter, List.mem_flatMap, uncovered_append, uncovered_asOverriders]
  simp only [mem_flatten_take, forall_exists_index, and_imp]
  refine and_congr_right' (and_congr_right' ?_)
  exact ⟨fun h j hj l hl => h l j hj hl, fun h l j hj hl => h j hj l hl⟩

/-- Of two methods with the same name and the same erased parameters, offered at two distances,
one is listed beside the other exactly if it is not farther. -/
theorem mem_listed_iff_le (hname : m.name = m'.name)
    (herased : erasedIn p scope m = erasedIn p scope m') {i j : Nat}
    (hm : ∃ S ∈ walk.getD i [], m ∈ S.offered x)
    (hm' : m' ∈ (listed x p scope os walk).getD j []) :
    m ∈ (listed x p scope os walk).getD i [] ↔ i ≤ j := by
  obtain ⟨-, hgiven, hnearer⟩ := mem_listed.mp hm'
  constructor
  · intro hlisted
    by_contra hfarther
    -- the nearer method overrides the farther one
    refine (mem_listed.mp hlisted).2.2 j (by omega) m' hm' ⟨hname.symm, ?_⟩
    rw [herased]
    exact sameParameters_self _
  · intro hle
    refine mem_listed.mpr ⟨hm, ?_, fun k hk l hl hmatch => ?_⟩
    · rw [uncovered, hname, herased]
      exact hgiven
    · refine hnearer k (by omega) l hl ⟨hmatch.1.trans hname, ?_⟩
      rw [← herased]
      exact hmatch.2

end Listed

/-! ## Type bodies -/

namespace Analysis

/-- The members that a type body inherits. -/
lemma inheritedBy_typeBody {x : FileContext} (p : Classpath) (outer : SymbolTable)
    (header : TypeHeader) (own : Declared) (hinherited : x.config.inheritedMembers = true) :
    inheritedBy x p outer (.typeBody header) own =
      let walk := supertypeWalk x.index p outer x.config header
      membersWith x.index p walk (listed x.index p outer (asOverriders p outer own.methods) walk) :=
  (if_pos hinherited).trans (value_inheritedLevels x.index p outer x.config header own)

/-- Two supertypes of a type pass on methods of one name and the same erased parameter types.
Where the type inherits the one from the distance `j`, it inherits the other, from the distance
`i`, if that is not farther, and leaves it out if it is. -/
theorem inherits_beside_iff_le {config : Config} {p : Classpath} {a : Analysis}
    (hreach : Reaches ⟨config, p, {}⟩ a) {u : CompilationUnit} {s : Scope} {e : ScopeEntry}
    (he : (s, e) ∈ (a.buildTables u).1.pairs u.root) {header : TypeHeader}
    (hkind : s.info.kind = .typeBody header) :
    ∃ outer, (a.buildTables u).1.Around u.root s outer ∧
      let x := FileIndex.ofUnit u
      let own := x.declaredAt s.info.id
      let levels := inheritedBy (.ofUnit config u) p outer s.info.kind own
      let walk := supertypeWalk x p outer config header
      (∀ name, e.table.methodCandidates name none = callable name own.methods ++
        (levels.flatMap fun l => callable name l.methods) ++ outer.methodCandidates name none) ∧
      ∀ i j, ∀ X ∈ walk.getD i [], ∀ Y ∈ walk.getD j [],
        ∀ mX ∈ X.offered x, ∀ mY ∈ Y.offered x, mX.name = mY.name →
          erasedIn p outer mX = erasedIn p outer mY → mY ∈ (levels.getD j {}).methods →
          (mX ∈ (levels.getD i {}).methods ↔ i ≤ j) := by
  rw [hreach.buildTables_value] at he ⊢
  obtain ⟨-, outer, number, houter, htable⟩ := built_buildTables p he
  refine ⟨outer, houter, ?_, ?_⟩
  · intro name
    have hinside (levels : List Members) (own : Declared) :
        ResolvesInside (Query.value p) (.typeBody header) own levels outer
          (TablePlace.bodyTable ⟨outer, number⟩ levels own) :=
      TablePlace.bodyTable_resolvesInside (fun _ => rfl) ⟨outer, number⟩ header levels own
    rw [htable, value_scopeTable_typeBody _ p _ hkind, hkind]
    exact (hinside _ _).methods name
  · intro i j X hX Y hY mX hmX mY hmY hname herased hlisted
    by_cases hinherited : (FileContext.ofUnit config u).config.inheritedMembers
    · rw [hkind, inheritedBy_typeBody p outer header _ hinherited,
        methods_membersWith _ p (length_listed _ p outer _ _)] at hlisted ⊢
      exact mem_listed_iff_le hname herased ⟨X, hX, hmX⟩ hlisted
    · -- without inherited members there are no levels
      rw [hkind, inheritedBy, if_neg hinherited] at hlisted
      cases hlisted

/-- The body of `class T extends A implements Y`. -/
def redundantType : Scope :=
  .node ⟨⟨10⟩, .typeBody ⟨"T", some "A", ["Y"]⟩, ⟨150, 190⟩, []⟩ []

/-- A file with an interface `Y`, a class `X` that implements it, a subclass `A` of `X`, and a
class `T` that extends `A` and names `Y` again.  Both `Y` and `X` declare a method `m`. -/
def redundantUnit : CompilationUnit where
  file := ⟨0⟩
  package := none
  imports := []
  root := .node ⟨⟨0⟩, .compilationUnit, ⟨0, 200⟩,
      [.type ⟨⟨1⟩, "Y", .interface, .none⟩, .type ⟨⟨2⟩, "X", .normalClass, .none⟩,
        .type ⟨⟨3⟩, "A", .normalClass, .none⟩, .type ⟨⟨4⟩, "T", .normalClass, .none⟩]⟩
    [.node ⟨⟨5⟩, .typeBody ⟨"Y", none, []⟩, ⟨10, 40⟩, [.method ⟨⟨6⟩, "m", .none, [], none⟩]⟩ [],
      .node ⟨⟨7⟩, .typeBody ⟨"X", none, ["Y"]⟩, ⟨50, 90⟩,
        [.method ⟨⟨8⟩, "m", .none, [], none⟩]⟩ [],
      .node ⟨⟨9⟩, .typeBody ⟨"A", some "X", []⟩, ⟨100, 140⟩, []⟩ [],
      redundantType]

/-- The class `T` names the interface `Y` beside its superclass, so that `Y` is nearer than the
class which implements it. -/
theorem inherits_beside_iff_le_redundantUnit :
    let p := MemoryClasspath.toClasspath {}
    let a : Analysis := ⟨{}, p, {}⟩
    let u := redundantUnit
    let s := redundantType
    ∃ e, (s, e) ∈ (a.buildTables u).1.pairs u.root ∧
      s.info.kind = .typeBody ⟨"T", some "A", ["Y"]⟩ ∧
      ∃ outer, (a.buildTables u).1.Around u.root s outer ∧
        let x := FileIndex.ofUnit u
        let own := x.declaredAt s.info.id
        let levels := inheritedBy (.ofUnit {} u) p outer s.info.kind own
        let walk := supertypeWalk x p outer {} ⟨"T", some "A", ["Y"]⟩
        (∀ name, e.table.methodCandidates name none = callable name own.methods ++
          (levels.flatMap fun l => callable name l.methods) ++ outer.methodCandidates name none) ∧
        ∀ i j, ∀ X ∈ walk.getD i [], ∀ Y ∈ walk.getD j [],
          ∀ mX ∈ X.offered x, ∀ mY ∈ Y.offered x, mX.name = mY.name →
            erasedIn p outer mX = erasedIn p outer mY → mY ∈ (levels.getD j {}).methods →
            (mX ∈ (levels.getD i {}).methods ↔ i ≤ j) := by
  intro p a u s
  have hs : s ∈ u.root.descendants := by
    simp [s, u, redundantUnit, redundantType, Scope.descendants, Scope.descendantsOfAll]
  obtain ⟨e, he⟩ := Reaches.exists_pair (a := a) .refl hs
  exact ⟨e, he, rfl, inherits_beside_iff_le .refl he rfl⟩

/-- The tables of the file. -/
def redundantTables : ScopeTables :=
  ((Analysis.mk {} (MemoryClasspath.toClasspath {}) {}).buildTables redundantUnit).1

/-- The class `T` has the method of the interface and not that of the class which implements
it. -/
theorem redundantUnit_dropsOverrider :
    let p := MemoryClasspath.toClasspath {}
    let x := FileIndex.ofUnit redundantUnit
    ∃ outer inner X Y mX mY,
      redundantTables.Around redundantUnit.root redundantType outer ∧
      redundantTables.get? redundantType.info.id = some inner ∧
      let walk := supertypeWalk x p outer {} ⟨"T", some "A", ["Y"]⟩
      X ∈ walk.getD 1 [] ∧ Y ∈ walk.getD 0 [] ∧ Y ∈ X.direct x p outer ∧
      mX ∈ X.offered x ∧ mY ∈ Y.offered x ∧
      mX.modifiers.isStatic = false ∧ mY.modifiers.isStatic = false ∧
      mX.name = mY.name ∧ mX.parameters = mY.parameters ∧
      (redundantType.info.own redundantUnit.file).methods = [] ∧
      mY ∈ inner.methodCandidates mY.name none ∧ mX ∉ inner.methodCandidates mX.name none := by
  intro p x
  let Y : Supertype := .source ⟨5⟩ ⟨"Y", none, []⟩
  let X : Supertype := .source ⟨7⟩ ⟨"X", none, ["Y"]⟩
  let A : Supertype := .source ⟨9⟩ ⟨"A", some "X", []⟩
  let mY : MethodSymbol := .ofSource ⟨⟨0⟩, ⟨6⟩⟩ "m" "Y" .none [] none
  let mX : MethodSymbol := .ofSource ⟨⟨0⟩, ⟨8⟩⟩ "m" "X" .none [] none
  have hne : mX ≠ mY := fun h => absurd (congrArg MethodSymbol.declaringType h) (by decide)
  -- the table around the class is that of the file
  have haround : redundantTables.Around redundantUnit.root redundantType redundantTables.root :=
    ScopeTables.around_top (List.ne_nil_of_length_pos (by decide))
      (by simp [redundantUnit, Scope.children])
  have hfound : (redundantTables.get? ⟨10⟩).map (·.methodCandidates "m" none) = some [mY] := rfl
  obtain ⟨inner, hinner, hcandidates⟩ := Option.map_eq_some_iff.mp hfound
  have hwalk : supertypeWalk x p redundantTables.root {} ⟨"T", some "A", ["Y"]⟩ = [[A, Y], [X]] :=
    rfl
  have hdirect : X.direct x p redundantTables.root = [Y] := rfl
  have hX : X.offered x = [mX] := rfl
  have hY : Y.offered x = [mY] := rfl
  have hcallY : inner.methodCandidates mY.name none = [mY] := hcandidates
  have hcallX : inner.methodCandidates mX.name none = [mY] := hcandidates
  refine ⟨redundantTables.root, inner, X, Y, mX, mY, haround, hinner, ?_⟩
  intro walk
  refine ⟨?_, ?_, ?_, ?_, ?_, rfl, rfl, rfl, rfl, rfl, ?_, ?_⟩
  · rw [show walk = _ from hwalk]
    exact List.mem_singleton.mpr rfl
  · rw [show walk = _ from hwalk]
    exact List.mem_cons_of_mem _ (List.mem_singleton.mpr rfl)
  · rw [hdirect]
    exact List.mem_singleton.mpr rfl
  · rw [hX]
    exact List.mem_singleton.mpr rfl
  · rw [hY]
    exact List.mem_singleton.mpr rfl
  · rw [hcallY]
    exact List.mem_singleton.mpr rfl
  · rw [hcallX, List.mem_singleton]
    exact hne

end Analysis

end JavaScope
