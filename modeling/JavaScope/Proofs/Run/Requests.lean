/-
# What tables ask for

While the tables of a file are built, classes are asked for by internal names without dots,
and the only warnings are those about imports and about supertypes too far away
(`ensures_buildTables`).  So the subject of a diagnostic tells which class or import it is
about.
-/
import Mathlib.Tactic.Lemma
import JavaScope.Tables.ScopeTables

namespace JavaScope

/-- The name has no dots, as internal names have none. -/
def Dotless (name : String) : Prop := '.' ∉ name.toList

/-- The warnings that building tables may raise. -/
def TableWarning (config : Config) (d : Diagnostic) : Prop :=
  (∃ file name, d = importWarning file name) ∨
    ∃ file name, d = depthWarning file config.maxSupertypeDepth name

/-- The query asks for names without dots, raises warnings of the sort `W` only, and ends with a
result that has the property. -/
inductive Query.Ensures {α : Type} (W : Diagnostic → Prop) (Q : α → Prop) : Query α → Prop
  | done {a : α} : Q a → Ensures W Q (done a)
  | ask {name : String} {next : Option ClassStub → Query α} :
      Dotless name → (∀ stub, Ensures W Q (next stub)) → Ensures W Q (ask name next)
  | warn {d : Diagnostic} {next : Query α} :
      W d → Ensures W Q next → Ensures W Q (warn d next)

/-! ## Names -/

lemma not_mem_replace (cs : List Char) : '.' ∉ Name.replace '.' '/' cs := by
  simp only [Name.replace, List.mem_map, not_exists, not_and]
  intro c _ h
  split at h
  · cases h
  · next hc => exact hc h

lemma dotless_toInternal (name : String) : Dotless (Name.toInternal name) := by
  simpa [Dotless, Name.toInternal] using not_mem_replace name.toList

lemma dotless_slash : Dotless "/" := show '.' ∉ "/".toList by decide

lemma Dotless.append {a b : String} (ha : Dotless a) (hb : Dotless b) : Dotless (a ++ b) := by
  simp [Dotless, String.toList_append] at ha hb ⊢
  exact ⟨ha, hb⟩

lemma dotless_of_isSimple {name : String} (h : Name.isSimple name = true) : Dotless name := by
  intro hmem
  simp only [Name.isSimple, Bool.and_eq_true, List.all_eq_true] at h
  have hdot := h.2 '.' hmem
  simp [Name.isSeparator] at hdot

lemma not_mem_nestLast {cs : List Char} (h : '.' ∉ cs) : '.' ∉ Name.nestLast cs := by
  induction cs with
  | nil => exact h
  | cons c cs ih =>
    simp only [List.mem_cons, not_or] at h
    rw [Name.nestLast]
    split
    · simpa using h.2
    · simpa using ⟨h.1, ih h.2⟩

lemma not_mem_nestings {n : Nat} {cs ds : List Char} (h : '.' ∉ cs) (hd : ds ∈ Name.nestings n cs) :
    '.' ∉ ds := by
  induction n generalizing cs with
  | zero =>
    rw [List.mem_singleton.mp hd]
    exact h
  | succ n ih =>
    rcases List.mem_cons.mp hd with rfl | hd
    · exact h
    · exact ih (not_mem_nestLast h) hd

lemma dotless_of_mem_candidates {dotted name : String} (h : name ∈ Name.candidates dotted) :
    Dotless name := by
  obtain ⟨cs, hcs, rfl⟩ := List.mem_map.mp h
  rw [Dotless, String.toList_ofList]
  exact not_mem_nestings (not_mem_replace dotted.toList) hcs

/-! ## Queries -/

namespace Query

variable {α β : Type} {W : Diagnostic → Prop} {q : Query α} {f : α → Query β} {P : α → Prop}
  {Q : β → Prop}

lemma ensures_pure {a : α} (h : P a) : (pure a : Query α).Ensures W P := .done h

lemma Ensures.bind (hq : q.Ensures W P) (hf : ∀ a, P a → (f a).Ensures W Q) :
    (q >>= f).Ensures W Q := by
  show (q.bind f).Ensures W Q
  induction hq with
  | done ha => exact hf _ ha
  | ask hname _ ih => exact .ask hname ih
  | warn hd _ ih => exact .warn hd ih

lemma Ensures.mono {W' : Diagnostic → Prop} (hq : q.Ensures W P) (h : ∀ d, W d → W' d) :
    q.Ensures W' P := by
  induction hq with
  | done ha => exact .done ha
  | ask hname _ ih => exact .ask hname ih
  | warn hd _ ih => exact .warn (h _ hd) ih

/-- A last step that asks nothing. -/
lemma Ensures.map {g : α → β} (hq : q.Ensures W P) (h : ∀ a, P a → Q (g a)) :
    (q >>= fun a => pure (g a)).Ensures W Q :=
  hq.bind fun a ha => ensures_pure (h a ha)

/-- The query asks and warns as tables may. -/
abbrev Decent (W : Diagnostic → Prop) (q : Query α) : Prop := q.Ensures W fun _ => True

lemma decent_stub {name : String} (h : Dotless name) : (stub name).Decent W :=
  .ask h fun _ => .done trivial

lemma decent_stubOfBinary (name : String) : (stubOfBinary name).Decent W :=
  decent_stub (dotless_toInternal name)

lemma decent_firstStub {names : List String} (h : ∀ name ∈ names, Dotless name) :
    (firstStub names).Decent W := by
  induction names with
  | nil => exact ensures_pure trivial
  | cons name names ih =>
    refine (decent_stub (h name (by simp))).bind fun found _ => ?_
    cases found with
    | none => exact ih fun n hn => h n (by simp [hn])
    | some c => exact ensures_pure trivial

lemma decent_resolveDotted (dotted : String) : (resolveDotted dotted).Decent W :=
  decent_firstStub fun _ h => dotless_of_mem_candidates h

lemma decent_forEach {as : List α} (h : ∀ a ∈ as, (f a).Decent W) :
    (forEach f as).Decent W := by
  induction as with
  | nil => exact ensures_pure trivial
  | cons a as ih =>
    refine (h a (by simp)).bind fun b _ => ?_
    exact (ih fun b hb => h b (by simp [hb])).map fun _ _ => trivial

lemma decent_filterMap {f : α → Query (Option β)} {as : List α}
    (h : ∀ a ∈ as, (f a).Decent W) : (filterMap f as).Decent W :=
  (decent_forEach h).map fun _ _ => trivial

end Query

open Query (Decent ensures_pure)

/-! ## Look-ups in tables -/

/-- The types of a package are asked for by the internal name of the package. -/
def TypeBindings.Dotless : TypeBindings → Prop
  | ofPackage package => JavaScope.Dotless package
  | _ => True

/-- All frames of types ask for names without dots. -/
def SymbolTable.Dotless (t : SymbolTable) : Prop := ∀ f ∈ t.types.frames, f.bindings.Dotless

section Lookups

variable {W : Diagnostic → Prop}

lemma decent_findIn {name : String} (hname : Dotless name) (target : String) :
    (TypeBindings.findIn name target).Decent W := by
  have hfull := ((dotless_toInternal target).append dotless_slash).append hname
  refine (Query.decent_stub hfull).bind fun found _ => ?_
  cases found with
  | some c => exact ensures_pure trivial
  | none =>
    refine (Query.decent_resolveDotted target).bind fun owner _ => ?_
    cases owner with
    | none => exact ensures_pure trivial
    | some owner =>
      simp only
      cases owner.memberType? name with
      | none => exact ensures_pure trivial
      | some member => exact (Query.decent_stubOfBinary _).map fun _ _ => trivial

lemma TypeBindings.Dotless.find {b : TypeBindings} (hb : b.Dotless) (name : String) :
    (b.find name).Decent W := by
  cases b with
  | declared types => exact ensures_pure trivial
  | onDemand targets =>
    simp only [TypeBindings.find]
    split
    · next hsimple =>
      exact Query.decent_filterMap fun target _ =>
        decent_findIn (dotless_of_isSimple hsimple) target
    · exact ensures_pure trivial
  | ofPackage package =>
    simp only [TypeBindings.find]
    split
    · next hsimple =>
      have hname := dotless_of_isSimple hsimple
      have hfull : JavaScope.Dotless (TypeBindings.inPackage package name) := by
        unfold TypeBindings.inPackage
        split
        · exact hname
        · exact (Dotless.append hb dotless_slash).append hname
      exact (Query.decent_stub hfull).map fun _ _ => trivial
    · exact ensures_pure trivial

lemma decent_findFirst {frames : List (Frame TypeBindings)} (name : String)
    (h : ∀ f ∈ frames, f.bindings.Dotless) :
    (findFirst TypeBindings.find name frames).Decent W := by
  induction frames with
  | nil => exact ensures_pure trivial
  | cons f frames ih =>
    refine ((h f (by simp)).find name).bind fun found _ => ?_
    cases found with
    | nil => exact ih fun g hg => h g (by simp [hg])
    | cons t more => exact ensures_pure trivial

lemma SymbolTable.Dotless.resolveType {t : SymbolTable} (h : t.Dotless) (name : String) :
    (t.resolveType name).Decent W :=
  decent_findFirst name h

end Lookups

/-! ## Inheritance -/

section Inheritance

variable {W : Diagnostic → Prop} {scope : SymbolTable}

lemma decent_resolveElement (h : scope.Dotless) (element : String) :
    (resolveElement scope element).Decent W := by
  unfold resolveElement
  split
  · exact ensures_pure trivial
  split
  · refine (Query.decent_resolveDotted element).bind fun found _ => ?_
    cases found <;> exact ensures_pure trivial
  · refine (h.resolveType element).bind fun found _ => ?_
    cases found <;> exact ensures_pure trivial

lemma decent_eraseParameter (h : scope.Dotless) (written : TypeRef) :
    (eraseParameter scope written).Decent W :=
  (decent_resolveElement h _).map fun _ _ => trivial

lemma decent_erasedParameters (h : scope.Dotless) (m : MethodSymbol) :
    (erasedParameters scope m).Decent W := by
  unfold erasedParameters
  split
  · exact Query.decent_forEach fun written _ => decent_eraseParameter h written
  · exact ensures_pure trivial

lemma decent_overridersOf (h : scope.Dotless) (ms : List MethodSymbol) :
    (overridersOf scope ms).Decent W :=
  Query.decent_forEach fun m _ => (decent_erasedParameters h m).map fun _ _ => trivial

lemma decent_resolveSupertype (x : FileIndex) (h : scope.Dotless) (written : String) :
    (resolveSupertype x scope written).Decent W := by
  unfold resolveSupertype
  simp only
  split
  · exact ensures_pure trivial
  split
  · exact (Query.decent_resolveDotted _).map fun _ _ => trivial
  · refine (h.resolveType _).bind fun found _ => ?_
    cases found with
    | none => exact ensures_pure trivial
    | some found =>
      simp only
      split
      · exact ensures_pure trivial
      · exact (Query.decent_stubOfBinary _).map fun _ _ => trivial
      · exact ensures_pure trivial

lemma decent_supertypesOfSource (x : FileIndex) (h : scope.Dotless) (header : TypeHeader)
    (visited : List String) : (supertypesOfSource x scope header visited).Decent W :=
  (Query.decent_filterMap fun written _ => decent_resolveSupertype x h written).map
    fun _ _ => trivial

lemma decent_supertypesOfStub (c : ClassStub) (visited : List String) :
    (supertypesOfStub c visited).Decent W :=
  (Query.decent_filterMap fun name _ => Query.decent_stubOfBinary name).map fun _ _ => trivial

lemma decent_membersOfStub (overriders : Overriders) (c : ClassStub) :
    (membersOfStub overriders c).Decent W :=
  (Query.decent_filterMap fun t _ => Query.decent_stubOfBinary t.binaryName).map
    fun _ _ => trivial

lemma decent_membersOfSource (h : scope.Dotless) (overriders : Overriders) (kind : TypeKind)
    (d : Declared) : (membersOfSource scope overriders kind d).Decent W :=
  (Query.decent_filterMap fun m _ => (decent_erasedParameters h m).map fun _ _ => trivial).map
    fun _ _ => trivial

lemma decent_add (x : FileIndex) (h : scope.Dotless) (overriders : Overriders) (l : Level)
    (s : Supertype) : (l.add x scope overriders s).Decent W := by
  cases s with
  | stub c =>
    refine (decent_membersOfStub overriders c).bind fun members _ => ?_
    exact (decent_supertypesOfStub c l.visited).map fun _ _ => trivial
  | source node header =>
    refine (decent_membersOfSource h overriders _ _).bind fun members _ => ?_
    exact (decent_supertypesOfSource x h header l.visited).map fun _ _ => trivial

lemma decent_addAll (x : FileIndex) (h : scope.Dotless) (overriders : Overriders) (l : Level)
    (supertypes : List Supertype) :
    (l.addAll x scope overriders supertypes).Decent W := by
  induction supertypes generalizing l with
  | nil => exact ensures_pure trivial
  | cons s supertypes ih => exact (decent_add x h overriders l s).bind fun l _ => ih l

lemma decent_levelsFrom (x : FileIndex) (h : scope.Dotless) {tooDeep : Diagnostic}
    (hwarning : W tooDeep) (remaining : Nat) (frontier : List Supertype)
    (visited : List String) (overriders : Overriders) :
    (levelsFrom x scope tooDeep remaining frontier visited overriders).Decent W := by
  induction remaining generalizing frontier visited overriders with
  | zero =>
    cases frontier with
    | nil => exact ensures_pure trivial
    | cons s frontier => exact .warn hwarning (.done trivial)
  | succ remaining ih =>
    cases frontier with
    | nil => exact ensures_pure trivial
    | cons s frontier =>
      refine (decent_addAll x h overriders _ _).bind fun level _ => ?_
      refine (decent_overridersOf h level.members.methods).bind fun more _ => ?_
      exact (ih _ _ _).map fun _ _ => trivial

lemma decent_inheritedLevels (config : Config) (x : FileIndex) (h : scope.Dotless)
    (header : TypeHeader) (own : Declared)
    (hwarning : W (depthWarning x.file config.maxSupertypeDepth header.binaryName)) :
    (inheritedLevels config x scope header own).Decent W := by
  refine (decent_overridersOf h own.methods).bind fun overriders _ => ?_
  refine (decent_supertypesOfSource x h header _).bind fun found _ => ?_
  exact decent_levelsFrom x h hwarning _ _ _ _

end Inheritance

/-! ## Imports -/

section Imports

variable {config : Config} {W : Diagnostic → Prop}

lemma decent_superclassesFrom (remaining : Nat) (level : List ClassStub) (visited : List String) :
    (superclassesFrom remaining level visited).Decent W := by
  induction remaining generalizing level visited with
  | zero => exact ensures_pure trivial
  | succ remaining ih =>
    refine (Query.decent_filterMap fun name _ => Query.decent_stubOfBinary name).bind
      fun next _ => ?_
    split
    · exact ensures_pure trivial
    · exact (ih _ _).map fun _ _ => trivial

lemma decent_staticOwner (c : ClassStub) : (staticOwner config c).Decent W :=
  (decent_superclassesFrom _ _ _).map fun _ _ => trivial

variable (hW : ∀ file name, W (importWarning file name))

include hW

lemma decent_importWarning (file : FileId) (name : String) :
    (Query.raise (importWarning file name)).Decent W :=
  .warn (hW file name) (.done trivial)

lemma decent_importType (file : FileId) (acc : Imported) (i : Import) :
    (importType file acc i).Decent W := by
  refine (Query.decent_resolveDotted i.name).bind fun found _ => ?_
  cases found with
  | some c => exact ensures_pure trivial
  | none => exact (decent_importWarning hW file i.name).bind fun _ _ => ensures_pure trivial

lemma decent_importStatics (file : FileId) (acc : Imported) (i : Import) :
    (importStatics config file acc i).Decent W := by
  refine (Query.decent_resolveDotted i.name).bind fun found _ => ?_
  cases found with
  | some c => exact (decent_staticOwner c).map fun _ _ => trivial
  | none => exact (decent_importWarning hW file i.name).bind fun _ _ => ensures_pure trivial

lemma decent_importStatic (file : FileId) (acc : Imported) (i : Import) :
    (importStatic config file acc i).Decent W := by
  refine (Query.decent_resolveDotted i.qualifier).bind fun found _ => ?_
  cases found with
  | some c => exact (decent_staticOwner c).map fun _ _ => trivial
  | none => exact (decent_importWarning hW file i.qualifier).bind fun _ _ => ensures_pure trivial

lemma decent_addImport (file : FileId) (acc : Imported) (i : Import) :
    (acc.add config file i).Decent W := by
  cases hstatic : i.isStatic <;> cases hdemand : i.onDemand <;>
    simp only [Imported.add, hstatic, hdemand]
  · exact decent_importType hW file acc i
  · exact ensures_pure trivial
  · exact decent_importStatic hW file acc i
  · exact decent_importStatics hW file acc i

lemma decent_importsOf (u : CompilationUnit) : (importsOf config u).Decent W := by
  unfold importsOf
  -- it does not matter with what the list of imports starts
  generalize ({ onDemand := withoutRepeats config.implicitImports } : Imported) = acc
  induction u.imports generalizing acc with
  | nil => exact ensures_pure trivial
  | cons i imports ih =>
    exact (decent_addImport hW u.file acc i).bind fun acc _ => ih acc

end Imports

/-! ## Tables -/

/-- The warnings that building the table of a scope may raise. -/
def FileContext.MayWarn (x : FileContext) (k : ScopeKind) (d : Diagnostic) : Prop :=
  match k with
  | .compilationUnit => ∃ file name, d = importWarning file name
  | .typeBody header =>
    d = depthWarning x.index.file x.config.maxSupertypeDepth header.binaryName
  | _ => False

lemma FileContext.MayWarn.tableWarning {x : FileContext} {k : ScopeKind} {d : Diagnostic}
    (h : x.MayWarn k d) : TableWarning x.config d := by
  cases k with
  | compilationUnit => exact .inl h
  | typeBody header => exact .inr ⟨_, _, h⟩
  | _ => exact absurd h id

section Tables

variable {p : TablePlace}

lemma dotless_push {g : TypeGroup} {stamp : Nat} {kind : FrameKind} {b : TypeBindings}
    (hg : ∀ f ∈ g.frames, f.bindings.Dotless) (hb : b.Dotless) :
    ∀ f ∈ (g.push stamp kind b).frames, f.bindings.Dotless := by
  intro f hf
  unfold ShadowGroup.push at hf
  split at hf
  · exact hg f hf
  · rcases List.mem_cons.mp hf with rfl | hf
    · exact hb
    · exact hg f hf

lemma dotless_unitTable {package : String} (hpackage : Dotless package) (i : Imported)
    (d : Declared) (hp : p.parent.Dotless) : (p.unitTable package i d).Dotless :=
  dotless_push (dotless_push (dotless_push (dotless_push hp trivial) hpackage) trivial) trivial

lemma dotless_bodyTable (levels : List Members) (d : Declared) (hp : p.parent.Dotless) :
    (p.bodyTable levels d).Dotless := by
  refine dotless_push (dotless_push ?_ trivial) trivial
  induction levels with
  | nil => exact hp
  | cons l levels ih => exact dotless_push ih trivial

lemma dotless_methodTable (d : Declared) (hp : p.parent.Dotless) : (p.methodTable d).Dotless :=
  dotless_push (dotless_push hp trivial) trivial

lemma dotless_blockTable (d : Declared) (hp : p.parent.Dotless) : (p.blockTable d).Dotless :=
  dotless_push hp trivial

lemma dotless_internalPackage (u : CompilationUnit) : Dotless u.internalPackage := by
  unfold CompilationUnit.internalPackage
  cases u.package with
  | none => exact show '.' ∉ "".toList by decide
  | some package => exact dotless_toInternal package

lemma ensures_scopeTable (x : FileContext) (i : ScopeInfo) (hp : p.parent.Dotless) :
    (scopeTable x p i).Ensures (x.MayWarn i.kind) SymbolTable.Dotless := by
  unfold scopeTable
  cases i.kind with
  | compilationUnit =>
    refine (decent_importsOf (fun file name => ⟨file, name, rfl⟩) x.unit).map fun imported _ => ?_
    exact dotless_unitTable (dotless_internalPackage x.unit) imported _ hp
  | typeBody header =>
    simp only
    split
    · have hlevels := decent_inheritedLevels (W := x.MayWarn (.typeBody header)) x.config x.index hp
        header (x.index.declaredAt i.id) rfl
      exact hlevels.map fun levels _ => dotless_bodyTable levels _ hp
    · exact ensures_pure (dotless_bodyTable [] _ hp)
  | methodBody => exact ensures_pure (dotless_methodTable _ hp)
  | lambda => exact ensures_pure (dotless_methodTable _ hp)
  | block => exact ensures_pure (dotless_blockTable _ hp)
  | catchClause => exact ensures_pure (dotless_blockTable _ hp)
  | forHeader => exact ensures_pure (dotless_blockTable _ hp)

mutual

/-- The tables of a scope and of those inside it ask for names without dots. -/
theorem ensures_scopeEntries (x : FileContext) (p : TablePlace) (depth : Nat) (s : Scope)
    (hp : p.parent.Dotless) :
    (scopeEntries x p depth s).Ensures (TableWarning x.config) fun es => ∀ e ∈ es, e.table.Dotless := by
  cases s with
  | node i children =>
    rw [scopeEntries]
    have htable := (ensures_scopeTable x i hp).mono fun d hd => hd.tableWarning
    refine htable.bind fun table htable => ?_
    refine (ensures_siblingEntries x _ _ children htable).map fun nested hnested => ?_
    intro e he
    rcases List.mem_cons.mp he with rfl | he
    · exact htable
    · exact hnested e he
termination_by structural s

/-- The tables of siblings ask for names without dots. -/
theorem ensures_siblingEntries (x : FileContext) (p : TablePlace) (depth : Nat)
    (scopes : List Scope) (hp : p.parent.Dotless) :
    (siblingEntries x p depth scopes).Ensures (TableWarning x.config) fun es => ∀ e ∈ es, e.table.Dotless := by
  cases scopes with
  | nil =>
    rw [siblingEntries]
    exact ensures_pure fun e he => nomatch he
  | cons s rest =>
    rw [siblingEntries]
    refine (ensures_scopeEntries x p depth s hp).bind fun entries hentries => ?_
    have hothers := ensures_siblingEntries x
      ⟨p.parent, p.number + entries.length⟩ depth rest hp
    refine hothers.map fun others hothers => ?_
    intro e he
    rcases List.mem_append.mp he with he | he
    · exact hentries e he
    · exact hothers e he
termination_by structural scopes

end

/-- Building the tables of a file asks for names without dots and raises table warnings
only. -/
theorem ensures_buildTables (config : Config) (u : CompilationUnit) :
    (buildTables config u).Ensures (TableWarning config) fun t => ∀ e ∈ t.entries, e.table.Dotless :=
  (ensures_scopeEntries ⟨config, u, FileIndex.ofUnit u⟩ ⟨.empty, 0⟩ 0 u.root
    fun _ hf => nomatch hf).map fun _ h => h

end Tables

end JavaScope
