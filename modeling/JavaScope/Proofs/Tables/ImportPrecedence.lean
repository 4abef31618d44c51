/-
# Precedence of imports

In the table of a compilation unit a type is looked up among the types that the file declares, then
among those imported by name, then in the package of the file, and at last in the packages and
classes imported on demand, the implicit imports first (`CompilationUnit.typeLayers`).  A type
imported by name that is not on the classpath is bound to a placeholder, so it hides what comes
later all the same.  A warning is raised for each class that an import needs and that there is not
(`mem_raised_importsOf`); a type import on demand needs none, as it may be of a package.
-/
import Mathlib.Data.List.Induction
import JavaScope.Proofs.Run.RaisedByTables
import JavaScope.Proofs.Shadow.Pushes
import JavaScope.Proofs.Tables.SupertypeWalk

namespace JavaScope

/-! ## Names without repeats -/

lemma withoutRepeats_append_singleton (names : List String) (n : String) :
    withoutRepeats (names ++ [n]) =
      if (withoutRepeats names).contains n then withoutRepeats names
      else withoutRepeats names ++ [n] := by
  rw [withoutRepeats, List.foldl_append]
  rfl

/-- The first of each name is kept. -/
lemma withoutRepeats_eq (names : List String) : withoutRepeats names = names.eraseDups := by
  induction names using List.reverseRecOn with
  | nil => rfl
  | append_singleton names n ih =>
    rw [withoutRepeats_append_singleton, ih, List.eraseDups_append]
    by_cases hn : n ∈ names
    · simp [List.removeAll, hn]
    · simp [List.removeAll, List.eraseDups_cons, hn]

lemma withoutRepeats_withoutRepeats (names : List String) :
    withoutRepeats (withoutRepeats names) = withoutRepeats names := by
  induction names using List.reverseRecOn with
  | nil => rfl
  | append_singleton names n ih =>
    rw [withoutRepeats_append_singleton]
    by_cases hn : (withoutRepeats names).contains n
    · rw [if_pos hn, ih]
    · rw [if_neg hn, withoutRepeats_append_singleton, ih, if_neg hn]

/-- Repeats may be left out at any time. -/
lemma withoutRepeats_append (names : List String) (n : String) :
    withoutRepeats (withoutRepeats names ++ [n]) = withoutRepeats (names ++ [n]) := by
  rw [withoutRepeats_append_singleton, withoutRepeats_append_singleton,
    withoutRepeats_withoutRepeats]

/-! ## Classes that names stand for -/

namespace Classpath

variable (p : Classpath)

/-- The class that a dotted name stands for: the first one that there is of the candidates, of which
those with longer packages come first. -/
def classNamed (dotted : String) : Option ClassStub := (Name.candidates dotted).findSome? p.stub?

/-- The type that the import of a name brings in: its class, or else a placeholder. -/
def importedType (dotted : String) : TypeSymbol :=
  match p.classNamed dotted with
  | some c => c.symbol
  | none => .placeholder dotted

/-- The type of a simple name that an on-demand import provides: the class of the package, or else
the member type of the class. -/
def provided (name target : String) : Option TypeSymbol :=
  match p.stub? (Name.toInternal target ++ "/" ++ name) with
  | some c => some c.symbol
  | none =>
    (p.classNamed target).bind fun owner => (owner.memberType? name).bind fun member =>
      (p.stub? (Name.toInternal member.binaryName)).map (·.symbol)

end Classpath

section Values

variable (p : Classpath)

lemma value_stub (internal : String) : (Query.stub internal).value p = p.stub? internal := rfl

lemma value_resolveDotted (dotted : String) :
    (Query.resolveDotted dotted).value p = p.classNamed dotted := by
  rw [Query.resolveDotted, Classpath.classNamed]
  induction Name.candidates dotted with
  | nil => rfl
  | cons name rest ih =>
    rw [Query.firstStub, Query.value_bind, value_stub, List.findSome?_cons]
    cases p.stub? name with
    | some c => rfl
    | none => exact ih

lemma value_findIn (name target : String) :
    (TypeBindings.findIn name target).value p = p.provided name target := by
  rw [TypeBindings.findIn, Query.value_bind, value_stub, Classpath.provided]
  cases p.stub? (Name.toInternal target ++ "/" ++ name) with
  | some c => rfl
  | none =>
    simp only [Query.value_bind, value_resolveDotted]
    cases p.classNamed target with
    | none => rfl
    | some owner =>
      simp only [Option.bind_some]
      cases owner.memberType? name with
      | none => rfl
      | some member => rfl

/-! ## What imports bring in -/

namespace Import

/-- The import is of a type, by name. -/
def isSingleType (i : Import) : Bool := !i.isStatic && !i.onDemand

/-- The import is of types, on demand. -/
def isTypeOnDemand (i : Import) : Bool := !i.isStatic && i.onDemand

/-- The class without which the import brings nothing in, by its dotted name.  An on-demand import
of types may be of a package. -/
def neededClass? (i : Import) : Option String :=
  match i.isStatic, i.onDemand with
  | false, true => none
  | true, false => some i.qualifier
  | _, _ => some i.name

end Import

variable (config : Config) (file : FileId)

lemma value_addImport (acc : Imported) (i : Import) :
    ((acc.add config file i).value p).onDemand =
        (if i.isTypeOnDemand then withoutRepeats (acc.onDemand ++ [i.name]) else acc.onDemand) ∧
      ((acc.add config file i).value p).singleTypes =
        if i.isSingleType then acc.singleTypes.insert i.simpleName (p.importedType i.name)
        else acc.singleTypes := by
  cases hstatic : i.isStatic with
  | false =>
    cases hdemand : i.onDemand with
    | false =>
      simp only [Imported.add, hstatic, hdemand, Import.isTypeOnDemand, Import.isSingleType,
        importType, Query.value_bind, value_resolveDotted, Classpath.importedType]
      cases p.classNamed i.name with
      | some c => exact ⟨rfl, rfl⟩
      | none => exact ⟨rfl, rfl⟩
    | true =>
      simp only [Imported.add, hstatic, hdemand, Import.isTypeOnDemand, Import.isSingleType]
      exact ⟨rfl, rfl⟩
  | true =>
    cases hdemand : i.onDemand with
    | false =>
      simp only [Imported.add, hstatic, hdemand, Import.isTypeOnDemand, Import.isSingleType,
        importStatic, Query.value_bind, value_resolveDotted]
      cases p.classNamed i.qualifier with
      | some c =>
        simp only [Query.value_bind]
        exact ⟨rfl, rfl⟩
      | none => exact ⟨rfl, rfl⟩
    | true =>
      simp only [Imported.add, hstatic, hdemand, Import.isTypeOnDemand, Import.isSingleType,
        importStatics, Query.value_bind, value_resolveDotted]
      cases p.classNamed i.name with
      | some c =>
        simp only [Query.value_bind]
        exact ⟨rfl, rfl⟩
      | none => exact ⟨rfl, rfl⟩

lemma onDemand_addImports (imports : List Import) (acc : Imported) (names : List String)
    (hnames : acc.onDemand = withoutRepeats names) :
    ((acc.addAll config file imports).value p).onDemand =
      withoutRepeats (names ++ (imports.filter (·.isTypeOnDemand)).map (·.name)) := by
  induction imports generalizing acc names with
  | nil =>
    rw [Imported.addAll, Query.value_pure, hnames, List.filter_nil, List.map_nil, List.append_nil]
  | cons i rest ih =>
    have hdemand := (value_addImport p config file acc i).1
    by_cases hi : i.isTypeOnDemand
    · rw [if_pos hi, hnames, withoutRepeats_append] at hdemand
      rw [Imported.addAll, Query.value_bind, ih _ _ hdemand, List.filter_cons_of_pos hi,
        List.map_cons, List.append_assoc, List.singleton_append]
    · rw [if_neg hi, hnames] at hdemand
      rw [Imported.addAll, Query.value_bind, ih _ _ hdemand, List.filter_cons_of_neg hi]

lemma singleTypes_addImports (imports : List Import) (acc : Imported) :
    ((acc.addAll config file imports).value p).singleTypes =
      acc.singleTypes.insertAll ((imports.filter (·.isSingleType)).map fun i =>
        (i.simpleName, p.importedType i.name)) := by
  induction imports generalizing acc with
  | nil => rfl
  | cons i rest ih =>
    have hsingle := (value_addImport p config file acc i).2
    rw [Imported.addAll, Query.value_bind, ih, hsingle]
    by_cases hi : i.isSingleType
    · rw [if_pos hi, List.filter_cons_of_pos hi]
      rfl
    · rw [if_neg hi, List.filter_cons_of_neg hi]

end Values

/-! ## Types at the root -/

namespace CompilationUnit

/-- The packages and classes that a file imports types from on demand: the implicit imports, and
then those of the file in source order, each once. -/
def onDemandTargets (config : Config) (u : CompilationUnit) : List String :=
  (config.implicitImports ++ (u.imports.filter (·.isTypeOnDemand)).map (·.name)).eraseDups

/-- The types that a file imports by name, with the names that they get, in source order. -/
def singleTypes (p : Classpath) (u : CompilationUnit) : List (String × TypeSymbol) :=
  (u.imports.filter (·.isSingleType)).map fun i => (i.simpleName, p.importedType i.name)

/-- The types of a name at the root of a file, the nearest first.  Only simple names are looked for
in packages. -/
def typeLayers (config : Config) (p : Classpath) (u : CompilationUnit) (name : String) :
    List (FrameKind × List TypeSymbol) :=
  let beside := (p.stub? (TypeBindings.inPackage u.internalPackage name)).toList.map (·.symbol)
  let onDemand := (u.onDemandTargets config).filterMap (p.provided name)
  [(.fileTypes, (u.root.info.own u.file).types.filter (·.name = name)),
    (.singleTypeImport, ((u.singleTypes p).filter (·.1 = name)).map (·.2)),
    (.samePackage, if Name.isSimple name then beside else []),
    (.onDemandImport, if Name.isSimple name then onDemand else [])]

end CompilationUnit

section Root

variable (p : Classpath)

lemma value_importsOf (config : Config) (u : CompilationUnit) :
    ((importsOf config u).value p).onDemand = u.onDemandTargets config ∧
      ((importsOf config u).value p).singleTypes = .ofList (u.singleTypes p) := by
  constructor
  · rw [importsOf, onDemand_addImports p config u.file _ _ _ rfl, withoutRepeats_eq]
    rfl
  · exact singleTypes_addImports p config u.file _ _

/-! ### Frames -/

lemma value_find_ofPackage (package name : String) :
    ((TypeBindings.ofPackage package).find name).value p =
      if Name.isSimple name then
        (p.stub? (TypeBindings.inPackage package name)).toList.map (·.symbol)
      else [] := by
  rw [TypeBindings.find]
  split
  · rfl
  · rfl

lemma value_find_onDemand (targets : List String) (name : String) :
    ((TypeBindings.onDemand targets).find name).value p =
      if Name.isSimple name then targets.filterMap (p.provided name) else [] := by
  rw [TypeBindings.find]
  split
  · rw [Query.value_filterMap]
    simp only [value_findIn]
  · rfl

/-- A pushed frame is one more layer of what the classpath answers. -/
lemma FindsThrough.push_value {outside : Option (Found TypeSymbol)}
    {layers : List (FrameKind × List TypeSymbol)} {g : TypeGroup} {name : String}
    (h : FindsThrough outside layers ((g.resolveFirst TypeBindings.find name).value p))
    (stamp : Nat) (kind : FrameKind) (b : TypeBindings) :
    FindsThrough outside ((kind, (b.find name).value p) :: layers)
      (((g.push stamp kind b).resolveFirst TypeBindings.find name).value p) :=
  h.push (fun _ => rfl) (fun _ => Query.value_bind p _ _)
    (fun hempty => TypeBindings.value_find_of_isDefinitelyEmpty p hempty name) stamp kind

/-- The table of a compilation unit looks types up layer by layer. -/
lemma unitTable_findsThrough (config : Config) (u : CompilationUnit) (number : Nat) (d : Declared)
    (hd : d.types = (u.root.info.own u.file).types) (name : String) :
    FindsThrough none (u.typeLayers config p name)
      (((TablePlace.unitTable ⟨.empty, number⟩ u.internalPackage ((importsOf config u).value p)
        d).resolveType name).value p) := by
  obtain ⟨hdemand, hsingle⟩ := value_importsOf p config u
  have hdeclared : ((TypeBindings.declared (bindTypes d.types)).find name).value p =
      (u.root.info.own u.file).types.filter (·.name = name) := by
    rw [← hd]
    exact SymbolMap.find_ofList_map TypeSymbol.name d.types name
  have himported : ((TypeBindings.declared (.ofList (u.singleTypes p))).find name).value p =
      ((u.singleTypes p).filter (·.1 = name)).map (·.2) :=
    SymbolMap.find_ofList (u.singleTypes p) name
  rw [TablePlace.unitTable, hdemand, hsingle, CompilationUnit.typeLayers, ← hdeclared, ← himported,
    ← value_find_ofPackage, ← value_find_onDemand]
  -- the frames are pushed outermost first, and nothing is around them
  have hnone : FindsThrough none []
      ((ShadowGroup.resolveFirst TypeBindings.find ShadowGroup.empty name).value p) := .outside
  exact (((hnone.push_value p _ _ _).push_value p _ _ _).push_value p _ _ _).push_value p _ _ _

end Root

/-! ## Warnings about imports -/

section Warnings

variable (p : Classpath) {d : Diagnostic} (hd : d.code = some Diagnostic.unresolvedImport)

include hd

lemma import_code_ne (e : ClassError) : d.code ≠ some e.code := by
  rw [hd]
  exact fun h => (code_ne e).1 (Option.some.inj h).symm

/-- Where a class is needed and there is none, a warning is raised, and nothing else of its code. -/
lemma mem_raised_needed {file : FileId} {dotted : String} {k : Option ClassStub → Query Imported}
    {acc : Imported} (hsome : ∀ c, (k (some c)).Decent fun _ => False)
    (hnone : k none = do
      Query.raise (importWarning file dotted)
      return acc) :
    d ∈ (Query.resolveDotted dotted >>= k).raised p ↔
      p.classNamed dotted = none ∧ d = importWarning file dotted := by
  have hfirst : d ∉ (Query.resolveDotted dotted).raised p :=
    Query.not_mem_raised_of_silent p (import_code_ne hd) (Query.decent_resolveDotted dotted)
  rw [Query.raised_bind, List.mem_append, or_iff_right hfirst, value_resolveDotted]
  cases p.classNamed dotted with
  | some c =>
    have hrest : d ∉ (k (some c)).raised p :=
      Query.not_mem_raised_of_silent p (import_code_ne hd) (hsome c)
    exact iff_of_false hrest (by simp)
  | none =>
    rw [hnone, Query.raised_bind, Query.raised_pure, List.append_nil]
    simp [Query.raise, Query.raised]

lemma mem_raised_addImport (config : Config) (file : FileId) (acc : Imported) (i : Import) :
    d ∈ (acc.add config file i).raised p ↔ ∃ name, i.neededClass? = some name ∧
      p.classNamed name = none ∧ d = importWarning file name := by
  cases hstatic : i.isStatic with
  | false =>
    cases hdemand : i.onDemand with
    | false =>
      simp only [Imported.add, Import.neededClass?, hstatic, hdemand, importType,
        Option.some.injEq, exists_eq_left']
      exact mem_raised_needed p hd (fun c => Query.ensures_pure trivial) rfl
    | true => simp [Imported.add, Import.neededClass?, hstatic, hdemand]
  | true =>
    cases hdemand : i.onDemand with
    | false =>
      simp only [Imported.add, Import.neededClass?, hstatic, hdemand, importStatic,
        Option.some.injEq, exists_eq_left']
      exact mem_raised_needed p hd (fun c => (decent_staticOwner c).map fun _ _ => trivial) rfl
    | true =>
      simp only [Imported.add, Import.neededClass?, hstatic, hdemand, importStatics,
        Option.some.injEq, exists_eq_left']
      exact mem_raised_needed p hd (fun c => (decent_staticOwner c).map fun _ _ => trivial) rfl

/-- The warnings about the imports of a file are about the classes that they need and that there are
not. -/
lemma mem_raised_importsOf (config : Config) (u : CompilationUnit) :
    d ∈ (importsOf config u).raised p ↔ ∃ i ∈ u.imports, ∃ name, i.neededClass? = some name ∧
      p.classNamed name = none ∧ d = importWarning u.file name := by
  rw [importsOf]
  -- it does not matter with what the list of imports starts
  generalize ({ onDemand := withoutRepeats config.implicitImports } : Imported) = acc
  induction u.imports generalizing acc with
  | nil => simp [Imported.addAll]
  | cons i rest ih =>
    rw [Imported.addAll, Query.raised_bind, List.mem_append, mem_raised_addImport p hd, ih]
    simp only [List.mem_cons, exists_eq_or_imp]

/-- Building the tables of a file raises the warnings about its imports. -/
lemma unresolvedImport_mem_raised_buildTables (config : Config) {u : CompilationUnit}
    (hroot : u.root.info.kind = .compilationUnit) :
    d ∈ (buildTables config u).raised p ↔ ∃ i ∈ u.imports, ∃ name, i.neededClass? = some name ∧
      p.classNamed name = none ∧ d = importWarning u.file name := by
  have hunit (q : TablePlace) {i : ScopeInfo} (hkind : i.kind = .compilationUnit) :
      (scopeTable (.ofUnit config u) q i).raised p = (importsOf config u).raised p := by
    simp only [scopeTable, hkind]
    rw [Query.raised_bind, Query.raised_pure, List.append_nil]
    rfl
  rw [raised_buildTables, ← mem_raised_importsOf p hd config u]
  constructor
  · intro hmem
    obtain ⟨⟨s, f⟩, hf, hmem⟩ := List.mem_flatMap.mp hmem
    -- a scope that is no compilation unit may not warn of imports
    have hwarning : (FileContext.ofUnit config u).MayWarn s.info.kind d := by
      by_contra hother
      exact Query.not_mem_raised p (import_code_ne hd)
        (ensures_scopeTable _ _ (dotless_around (around_place hf))) hother hmem
    cases hkind : s.info.kind with
    | compilationUnit => rwa [hunit _ hkind] at hmem
    | typeBody header =>
      rw [hkind] at hwarning
      obtain rfl := hwarning
      exact absurd (Option.some.inj hd) (by decide)
    | _ =>
      rw [hkind] at hwarning
      exact absurd hwarning id
  · intro hmem
    obtain ⟨f, hf⟩ := exists_pair p config (Scope.mem_self u.root)
    refine List.mem_flatMap.mpr ⟨(u.root, f), hf, ?_⟩
    rwa [hunit _ hroot]

end Warnings

/-! ## Runs -/

namespace Analysis

/-- Take a file whose scopes have different identities and whose outermost scope is a compilation
unit.  Whatever a run did before, and whenever a type is looked up at the root, the first of its
layers that has the name decides.  Building the tables in a fresh run puts one warning on record for
each class that an import needs and that is not on the classpath, and no other of this code. -/
theorem rootTable_followsImports {config : Config} {p : Classpath} {fresh : Analysis}
    (hnew : Analysis.new config p = .ok fresh) {u : CompilationUnit} (hids : u.scopeIds.Nodup)
    (hroot : u.root.info.kind = .compilationUnit) :
    (∀ a later, fresh.Reaches a → fresh.Reaches later →
      ∃ t, (a.buildTables u).1.get? u.root.info.id = some t ∧ ∀ name,
        FindsThrough none (u.typeLayers config p name) (later.answer (t.resolveType name)).1) ∧
      let warnings := (fresh.buildTables u).2.store.log.diagnostics.filter
        (·.code = some Diagnostic.unresolvedImport)
      warnings.Nodup ∧ ∀ d, d ∈ warnings ↔ ∃ i ∈ u.imports, ∃ name,
        i.neededClass? = some name ∧ p.classNamed name = none ∧ d = importWarning u.file name := by
  have hfresh := sound_new hnew
  refine ⟨fun a later hreach hlater => ?_, ?_⟩
  · rw [((hfresh.reaches hreach).buildTables u).1]
    obtain ⟨f, hf⟩ := exists_pair p config (Scope.mem_self u.root)
    obtain ⟨-, outer, number, houter, htable⟩ := built_buildTables p hf
    -- around the outermost scope there is the empty table
    obtain rfl := around_unique p hids houter (.inl ⟨rfl, rfl⟩)
    refine ⟨f.table, get?_of_pair p hids hf, fun name => ?_⟩
    obtain ⟨t, hdeclared⟩ := FileIndex.declaredAt_ofUnit hids (Scope.mem_self u.root)
    rw [((hfresh.reaches hlater).answer _).1, htable]
    simp only [scopeTable, hroot, Query.value_bind, Query.value_pure]
    refine unitTable_findsThrough p config u number _ ?_ name
    rw [show (FileContext.ofUnit config u).index = FileIndex.ofUnit u from rfl, hdeclared,
      ScopeInfo.own, hroot]
    rfl
  · have hlog : (fresh.buildTables u).2.store.log =
        DiagnosticLog.addAll {} ((JavaScope.buildTables config u).raised p) := by
      rw [(hfresh.buildTables u).2.2, eq_of_new hnew]
    have hcomplete := DiagnosticLog.complete_empty
    rw [hlog]
    refine ⟨(hcomplete.addAll _).nodup_diagnostics.filter _, fun d => ?_⟩
    rw [List.mem_filter, decide_eq_true_eq]
    constructor
    · rintro ⟨hd, hcode⟩
      rcases DiagnosticLog.mem_of_mem_addAll hd with hd | hd
      · cases hd
      · exact (unresolvedImport_mem_raised_buildTables p hcode config hroot).mp hd
    · rintro ⟨i, hi, name, hneeded, hmissing, rfl⟩
      refine ⟨hcomplete.mem_addAll ?_ fun e he hkey => ?_, rfl⟩
      · exact (unresolvedImport_mem_raised_buildTables p rfl config hroot).mpr
          ⟨i, hi, name, hneeded, hmissing, rfl⟩
      · -- the subject tells a warning about an import of this file
        obtain ⟨hcode, hsubject⟩ := Prod.mk.inj hkey
        rcases he with he | he
        · cases he
        · obtain ⟨-, -, other, -, -, rfl⟩ :=
            (unresolvedImport_mem_raised_buildTables p hcode config hroot).mp he
          rw [show other = name from hsubject]

/-- The type that a file imports is not on the classpath: it is bound to a placeholder, which hides
what is imported on demand, and there is a warning. -/
theorem rootTable_followsImports_missingImport :
    let p := MemoryClasspath.toClasspath {}
    let a : Analysis := ⟨{}, p, {}⟩
    let u := importing ⟨0⟩ "a.A"
    Analysis.new {} p = .ok a ∧ u.scopeIds.Nodup ∧ u.root.info.kind = .compilationUnit ∧
      (∃ t, (a.buildTables u).1.get? u.root.info.id = some t ∧
        FindsThrough none [(.fileTypes, []), (.singleTypeImport, [.placeholder "a.A"]),
          (.samePackage, []), (.onDemandImport, [])] (a.answer (t.resolveType "A")).1) ∧
      importWarning ⟨0⟩ "a.A" ∈ (a.buildTables u).2.store.log.diagnostics := by
  intro p a u
  have hnew : Analysis.new {} p = .ok a := rfl
  have hids : u.scopeIds.Nodup := by decide
  have hroot : u.root.info.kind = .compilationUnit := rfl
  obtain ⟨hfinds, -, hwarnings⟩ := rootTable_followsImports hnew hids hroot
  obtain ⟨t, ht, hname⟩ := hfinds a a .refl .refl
  have hlayers : u.typeLayers {} p "A" = [(.fileTypes, []),
      (.singleTypeImport, [.placeholder "a.A"]), (.samePackage, []), (.onDemandImport, [])] := by
    rfl
  refine ⟨hnew, hids, hroot, ⟨t, ht, hlayers ▸ hname "A"⟩, ?_⟩
  refine (List.mem_filter.mp ((hwarnings _).mpr ⟨_, List.mem_cons_self, "a.A", rfl, ?_, rfl⟩)).1
  rfl

end Analysis

end JavaScope
