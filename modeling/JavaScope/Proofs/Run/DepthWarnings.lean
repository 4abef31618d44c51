/-
# Warnings about distant supertypes

The table of a type body raises a warning about supertypes too far away exactly if a round beyond
the greatest distance finds types (`mem_raised_buildTables`).
-/
import JavaScope.Proofs.Run.RaisedByTables
import JavaScope.Proofs.Tables.Overriding
import JavaScope.Proofs.Tables.SupertypeDistance

namespace JavaScope

/-! ## Depth warnings -/

section Depth

open Supertype

variable (p : Classpath) {scope : SymbolTable}

section Warning

variable {w : Diagnostic} (hw : w.code = some Diagnostic.supertypeDepthExceeded)

include hw

lemma depth_code_ne (e : ClassError) : w.code ≠ some e.code := by
  rw [hw]
  exact fun h => (code_ne e).2 (Option.some.inj h).symm

/-- The warning is raised if types are left after the last round. -/
lemma mem_raised_levelsFrom (x : FileIndex) (hscope : scope.Dotless) (T : Supertype)
    (remaining n : Nat) (os : Overriders) :
    w ∈ (levelsFrom x scope w remaining (walkAt x p scope T n).1 (walkAt x p scope T n).2
      os).raised p ↔ (walkAt x p scope T (n + remaining)).1 ≠ [] := by
  induction remaining generalizing n os with
  | zero =>
    cases hfrontier : (walkAt x p scope T n).1 with
    | nil => simp [levelsFrom]
    | cons s rest =>
      rw [levelsFrom, Query.raised_bind]
      exact iff_of_true (List.mem_append_left _ (List.mem_singleton.mpr rfl)) (by simp)
  | succ remaining ih =>
    cases hfrontier : (walkAt x p scope T n).1 with
    | nil =>
      have hlast := walkAt_add_of_nil hfrontier (remaining + 1)
      simp [levelsFrom, hlast]
    | cons s rest =>
      have hlevel (l : Level) : w ∉ (l.addAll x scope os (s :: rest)).raised p :=
        Query.not_mem_raised_of_silent p (depth_code_ne hw) (decent_addAll x hscope os l _)
      have hmore (ms : List MethodSymbol) : w ∉ (overridersOf scope ms).raised p :=
        Query.not_mem_raised_of_silent p (depth_code_ne hw) (decent_overridersOf hscope ms)
      rw [levelsFrom, Query.raised_bind, Query.raised_bind, Query.raised_bind, Query.raised_pure,
        List.append_nil, List.mem_append, List.mem_append, or_iff_right (hlevel _),
        or_iff_right (hmore _), value_addAll, ← hfrontier, Nat.add_comm remaining 1, ← Nat.add_assoc]
      exact ih (n + 1) _

end Warning

/-- The warning about a type is raised if there are types beyond the greatest distance from it. -/
lemma mem_raised_inheritedLevels (config : Config) (x : FileIndex) (hscope : scope.Dotless)
    (node : NodeId) (header : TypeHeader) (own : Declared) :
    depthWarning x.file config.maxSupertypeDepth header.binaryName ∈
        (inheritedLevels config x scope header own).raised p ↔
      (walkAt x p scope (.source node header) (config.maxSupertypeDepth + 1)).1 ≠ [] := by
  have hcode : (depthWarning x.file config.maxSupertypeDepth header.binaryName).code =
      some Diagnostic.supertypeDepthExceeded := rfl
  have hown (ms : List MethodSymbol) :
      depthWarning x.file config.maxSupertypeDepth header.binaryName ∉
        (overridersOf scope ms).raised p :=
    Query.not_mem_raised_of_silent p (depth_code_ne hcode) (decent_overridersOf hscope ms)
  have hfirst : depthWarning x.file config.maxSupertypeDepth header.binaryName ∉
      (supertypesOfSource x scope header [header.binaryName]).raised p :=
    Query.not_mem_raised_of_silent p (depth_code_ne hcode)
      (decent_supertypesOfSource x hscope header _)
  rw [inheritedLevels, Query.raised_bind, Query.raised_bind, List.mem_append, List.mem_append,
    or_iff_right (hown _), or_iff_right hfirst, value_supertypesOfSource x node header, Nat.add_comm]
  exact mem_raised_levelsFrom p hcode x hscope (.source node header) _ 1 _

end Depth

section File

open Supertype

variable {p : Classpath} {config : Config} {u : CompilationUnit}

variable (hids : u.scopeIds.Nodup) (hbodies : u.bodyNames.Nodup)
  (hinherited : config.inheritedMembers = true)

include hids hbodies hinherited

/-- Building the tables of a file raises the warning about a type if there are types beyond the
greatest distance from it. -/
theorem mem_raised_buildTables {s : Scope} {e : ScopeEntry} {header : TypeHeader}
    {outer : SymbolTable} (he : (s, e) ∈ ((buildTables config u).value p).pairs u.root)
    (hkind : s.info.kind = .typeBody header)
    (houter : ((buildTables config u).value p).Around u.root s outer) :
    (∃ d ∈ (buildTables config u).raised p,
        d.key = (depthWarning u.file config.maxSupertypeDepth header.binaryName).key) ↔
      (walkAt (.ofUnit u) p outer (.source s.info.id header)
        (config.maxSupertypeDepth + 1)).1 ≠ [] := by
  have hparent {s : Scope} {f : ScopeEntry}
      (hf : (s, f) ∈ ((buildTables config u).value p).pairs u.root) : f.place.parent.Dotless :=
    dotless_around (around_place hf)
  rw [raised_buildTables]
  constructor
  · rintro ⟨d, hd, hkey⟩
    obtain ⟨⟨s', f⟩, hf, hd⟩ := List.mem_flatMap.mp hd
    obtain ⟨hcode, hsubject⟩ := Prod.mk.inj hkey
    have hwarning : (FileContext.ofUnit config u).MayWarn s'.info.kind d := by
      by_contra hother
      exact Query.not_mem_raised p (depth_code_ne hcode) (ensures_scopeTable _ _ (hparent hf)) hother hd
    -- only the body of this very type raises a warning with this code and this subject
    cases hkind' : s'.info.kind with
    | typeBody header' =>
      rw [hkind'] at hwarning
      obtain rfl : d = depthWarning u.file config.maxSupertypeDepth header'.binaryName := hwarning
      obtain rfl := FileIndex.eq_of_binaryName hbodies (List.of_mem_zip he).1 hkind
        (List.of_mem_zip hf).1 hkind' hsubject.symm
      obtain rfl := ScopeKind.typeBody.inj (hkind.symm.trans hkind')
      obtain rfl := around_unique p hids houter (around_place hf)
      rw [raised_scopeTable_typeBody (.ofUnit config u) hinherited f.place hkind] at hd
      exact (mem_raised_inheritedLevels p config (.ofUnit u) (hparent hf) _ _ _).mp hd
    | compilationUnit =>
      rw [hkind'] at hwarning
      obtain ⟨file, name, rfl⟩ := hwarning
      exact absurd (Option.some.inj hcode) (by decide)
    | _ =>
      rw [hkind'] at hwarning
      exact absurd hwarning id
  · intro hleft
    obtain rfl := around_unique p hids houter (around_place he)
    refine ⟨_, List.mem_flatMap.mpr ⟨(s, e), he, ?_⟩, rfl⟩
    rw [raised_scopeTable_typeBody (.ofUnit config u) hinherited e.place hkind]
    exact (mem_raised_inheritedLevels p config (.ofUnit u) (hparent he) s.info.id _ _).mpr hleft

end File

/-! ## Runs -/

namespace Analysis

open Supertype

/-- The walk from a type body gathers types by their distance, also in cyclic hierarchies, and the
levels of the body's table have the members of what it gathers.  The building of the tables puts a
warning about the type on record exactly if a type is farther away by one than the greatest
distance, unless the warning was on record.  All of this holds if the classpath has no type of the
file.  Whether a level has all types at its distance, and whether the warning is exact, depends on
class files: one that names a type of the file before the walk has come to the type keeps the walk
from gathering it. -/
theorem inheritedBy_gathersByDistance {config : Config} {p : Classpath} {a : Analysis}
    (hreach : Reaches ⟨config, p, {}⟩ a) {u : CompilationUnit} (hids : u.scopeIds.Nodup)
    (hbodies : u.bodyNames.Nodup)
    (hapart : ∀ name c, p.stub? name = some c → c.binaryName ∉ u.bodyNames)
    (hinherited : config.inheritedMembers = true) {s : Scope} {e : ScopeEntry}
    (he : (s, e) ∈ (a.buildTables u).1.pairs u.root) {header : TypeHeader}
    (hkind : s.info.kind = .typeBody header) :
    ∃ outer number, (a.buildTables u).1.Around u.root s outer ∧
      let x := FileIndex.ofUnit u
      let T : Supertype := .source s.info.id header
      let own := x.declaredAt s.info.id
      let levels := inheritedBy (.ofUnit config u) p outer s.info.kind own
      let walk := supertypeWalk x p outer config header
      let warning := depthWarning u.file config.maxSupertypeDepth header.binaryName
      e.table = TablePlace.bodyTable ⟨outer, number⟩ levels own ∧
        levels = membersWith x p walk (listed x p outer (asOverriders p outer own.methods) walk) ∧
        GathersByDistance x p outer T config.maxSupertypeDepth walk ∧
        (NoneAhead x p outer T (config.maxSupertypeDepth + 1) →
          ((a.buildTables u).2.store.log.contains warning ↔
            a.store.log.contains warning ∨
              ∃ S, AtDistance x p outer T (config.maxSupertypeDepth + 1) S)) := by
  have hnew : Sound config p ⟨config, p, {}⟩ := ⟨rfl, rfl, Store.faithful_empty p⟩
  obtain ⟨hvalue, -, hlog⟩ := (hnew.reaches hreach).buildTables u
  rw [hvalue] at he ⊢
  obtain ⟨-, outer, number, houter, htable⟩ := built_buildTables p he
  have hs : s ∈ u.root.descendants := (List.of_mem_zip he).1
  have hT : (source s.info.id header).Known (.ofUnit u) p :=
    .source (FileIndex.body?_of_mem hbodies hs hkind)
  refine ⟨outer, number, houter, ?_, ?_, gathersByDistance hT hapart config, ?_⟩
  · rw [htable, value_scopeTable_typeBody _ p _ hkind]
    rfl
  · rw [hkind]
    exact inheritedBy_typeBody p outer header _ hinherited
  · intro hahead
    have hfound : (walkAt (.ofUnit u) p outer (source s.info.id header)
        (config.maxSupertypeDepth + 1)).1 ≠ [] ↔
          ∃ S, AtDistance (.ofUnit u) p outer (source s.info.id header)
            (config.maxSupertypeDepth + 1) S := by
      constructor
      · intro hleft
        obtain ⟨S, hS⟩ := List.exists_mem_of_ne_nil _ hleft
        exact ⟨S, (mem_walkAt_iff hT hapart hahead).mp hS⟩
      · rintro ⟨S, hat⟩
        exact List.ne_nil_of_mem ((mem_walkAt_iff hT hapart hahead).mpr hat)
    rw [← hfound, ← mem_raised_buildTables hids hbodies hinherited he hkind houter]
    simp only [DiagnosticLog.contains, List.contains_iff_mem, hlog, DiagnosticLog.mem_seen_addAll]

/-- The body of `class A extends B`. -/
def cyclicType : Scope := .node ⟨⟨4⟩, .typeBody ⟨"A", some "B", []⟩, ⟨10, 40⟩, []⟩ []

/-- A file with classes `A`, `B` and `C`, each of which extends the next, and the last the first. -/
def cyclicUnit : CompilationUnit where
  file := ⟨0⟩
  package := none
  imports := []
  root := .node ⟨⟨0⟩, .compilationUnit, ⟨0, 140⟩,
      [.type ⟨⟨1⟩, "A", .normalClass, .none⟩, .type ⟨⟨2⟩, "B", .normalClass, .none⟩,
        .type ⟨⟨3⟩, "C", .normalClass, .none⟩]⟩
    [cyclicType, .node ⟨⟨5⟩, .typeBody ⟨"B", some "C", []⟩, ⟨50, 90⟩, []⟩ [],
      .node ⟨⟨6⟩, .typeBody ⟨"C", some "A", []⟩, ⟨100, 140⟩, []⟩ []]

/-- On the cycle only the next class is gathered, and there is a warning exactly if there is a class
at the second distance. -/
theorem inheritedBy_gathersByDistance_cyclicUnit :
    let config : Config := { maxSupertypeDepth := 1 }
    let p := MemoryClasspath.toClasspath {}
    let a : Analysis := ⟨config, p, {}⟩
    let u := cyclicUnit
    let x := FileIndex.ofUnit u
    let header : TypeHeader := ⟨"A", some "B", []⟩
    let T : Supertype := .source cyclicType.info.id header
    let warning := depthWarning u.file config.maxSupertypeDepth header.binaryName
    u.scopeIds.Nodup ∧ u.bodyNames.Nodup ∧
      (∀ name c, p.stub? name = some c → c.binaryName ∉ u.bodyNames) ∧
      ∃ e, (cyclicType, e) ∈ (a.buildTables u).1.pairs u.root ∧
        ∃ outer, (a.buildTables u).1.Around u.root cyclicType outer ∧
          (∀ n, NoneAhead x p outer T n) ∧
          (∀ k < config.maxSupertypeDepth, ∀ S,
            S ∈ (supertypeWalk x p outer config header).getD k [] ↔
              AtDistance x p outer T (k + 1) S) ∧
          ((a.buildTables u).2.store.log.contains warning ↔
            ∃ S, AtDistance x p outer T (config.maxSupertypeDepth + 1) S) := by
  intro config p a u x header T warning
  have hids : u.scopeIds.Nodup := by decide
  have hbodies : u.bodyNames.Nodup := by decide
  have hnone (name : String) : p.stub? name = none := rfl
  have hapart : ∀ name c, p.stub? name = some c → c.binaryName ∉ u.bodyNames := by
    intro name c h
    rw [hnone] at h
    cases h
  have hs : cyclicType ∈ u.root.descendants := by
    simp [u, cyclicUnit, cyclicType, Scope.descendants, Scope.descendantsOfAll]
  obtain ⟨e, he⟩ := Reaches.exists_pair (a := a) .refl hs
  obtain ⟨outer, number, houter, -, -, hgathers, hwarning⟩ :=
    inheritedBy_gathersByDistance (a := a) .refl hids hbodies hapart rfl he rfl
  have hT : T.Known x p := .source (FileIndex.body?_of_mem hbodies hs rfl)
  -- there are no class files that could name a type
  have hahead (n : Nat) : NoneAhead x p outer T n := by
    intro m hm c hat
    cases hat.1.known hT with
    | stub _ hstub =>
      rw [hnone] at hstub
      cases hstub
  refine ⟨hids, hbodies, hapart, e, he, outer, houter, hahead, ?_, ?_⟩
  · exact fun k hk => hgathers.complete k hk (hahead (k + 1))
  · have hnew : ¬a.store.log.contains warning = true := by
      simp [a, DiagnosticLog.contains]
    have hrecorded := hwarning (hahead _)
    rw [or_iff_right hnew] at hrecorded
    exact hrecorded

end Analysis

end JavaScope
