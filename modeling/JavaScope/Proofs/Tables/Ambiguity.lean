/-
# Ambiguous names

A find is ambiguous if its frame has more than one binding of the name.  That is to say that the
frame binds declarations with different origins, wherever each declaration is brought in once
(`isAmbiguous_iff_declarations`).  What a file declares is, and what is inherited is too, if class
files list their members once.  But a frame of imports has a binding for each import: a class that
is imported twice is ambiguous, and so is a static field that two imported classes inherit.
-/
import JavaScope.Proofs.Tables.Origins
import JavaScope.Proofs.Tables.StaticImports

namespace JavaScope

/-! ## Fields of static imports -/

namespace StaticOwner

/-- The class of the chain from which the static fields of a name are taken. -/
def fieldSource? (o : StaticOwner) (name : String) : Option ClassStub :=
  o.chain.find? fun c => !(staticFields name c).isEmpty

lemma fields_eq (o : StaticOwner) (name : String) :
    o.fields name = (o.fieldSource? name).toList.flatMap (staticFields name) := by
  rw [fields, fieldSource?, List.find?_map]
  show ((o.chain.find? fun c => !(staticFields name c).isEmpty).map _).getD [] = _
  cases o.chain.find? fun c => !(staticFields name c).isEmpty with
  | none => rfl
  | some c => simp

lemma flatMap_fields (owners : List StaticOwner) (name : String) :
    owners.flatMap (·.fields name) =
      (owners.filterMap (·.fieldSource? name)).flatMap (staticFields name) := by
  induction owners with
  | nil => rfl
  | cons o rest ih =>
    rw [List.flatMap_cons, ih, fields_eq, List.filterMap_cons]
    cases o.fieldSource? name with
    | none => rfl
    | some c => simp

variable {p : Classpath} {name : String}

/-- If the fields come from different classes, no field is there twice. -/
lemma nodup_origins_fields (hlists : p.ListsOnce) {owners : List StaticOwner}
    (howners : ∀ o ∈ owners, ∀ c ∈ o.chain, ∃ internal, p.stub? internal = some c)
    (hsources : ((owners.filterMap (·.fieldSource? name)).map (·.binaryName)).Nodup) :
    ((owners.flatMap (·.fields name)).map (·.origin)).Nodup := by
  rw [flatMap_fields]
  refine nodup_map_flatMap hsources (fun c hc => ?_) fun c _ c' _ v hv v' hv' h => ?_
  · obtain ⟨o, ho, hsource⟩ := List.mem_filterMap.mp hc
    obtain ⟨internal, hstub⟩ := howners o ho c (List.mem_of_find?_eq_some hsource)
    exact (List.filter_sublist.map _).nodup (nodup_origins_fieldSymbols hlists hstub)
  · obtain ⟨f, -, rfl⟩ := List.mem_map.mp (List.mem_of_mem_filter hv)
    obtain ⟨f', -, rfl⟩ := List.mem_map.mp (List.mem_of_mem_filter hv')
    exact (Origin.stub.inj h).1

end StaticOwner

/-! ## Static imports -/

section Imports

variable (config : Config) (p : Classpath)

/-- The class that a static import names, with its supertypes. -/
def Classpath.ownerNamed (dotted : String) : Option StaticOwner :=
  (p.classNamed dotted).map fun c => (staticOwner config c).value p

/-- The classes all of whose static members are imported. -/
def demandedOwners (imports : List Import) : List StaticOwner :=
  (imports.filter fun i => i.isStatic && i.onDemand).filterMap fun i => p.ownerNamed config i.name

/-- The classes whose static members of one name are imported. -/
def namedOwners (imports : List Import) (name : String) : List StaticOwner :=
  (imports.filter fun i => i.isStatic && !i.onDemand && i.simpleName = name).filterMap fun i =>
    p.ownerNamed config i.qualifier

lemma demandedOwners_singleton (i : Import) : demandedOwners config p [i] =
    if i.isStatic && i.onDemand then (p.ownerNamed config i.name).toList else [] := by
  rw [demandedOwners, List.filter_cons, List.filter_nil]
  split
  · cases hnamed : p.ownerNamed config i.name <;> simp [hnamed]
  · rfl

lemma namedOwners_singleton (i : Import) (name : String) : namedOwners config p [i] name =
    if i.isStatic && !i.onDemand && i.simpleName = name then
      (p.ownerNamed config i.qualifier).toList else [] := by
  rw [namedOwners, List.filter_cons, List.filter_nil]
  split
  · cases hnamed : p.ownerNamed config i.qualifier <;> simp [hnamed]
  · rfl

lemma value_importStatics (file : FileId) (acc : Imported) (i : Import) :
    (importStatics config file acc i).value p =
      { acc with staticOwners := acc.staticOwners ++ (p.ownerNamed config i.name).toList } := by
  rw [importStatics, Query.value_bind, value_resolveDotted, Classpath.ownerNamed]
  cases p.classNamed i.name with
  | none =>
    simp only [Query.value_bind, Query.value_pure, Option.map_none, Option.toList_none,
      List.append_nil]
  | some c =>
    simp only [Query.value_bind, Query.value_pure, Option.map_some, Option.toList_some]

lemma value_importStatic (file : FileId) (acc : Imported) (i : Import) :
    let after := (importStatic config file acc i).value p
    after.staticOwners = acc.staticOwners ∧ ∀ name, after.staticFields.find name =
      acc.staticFields.find name ++ if i.simpleName = name then
        (p.ownerNamed config i.qualifier).toList.flatMap (·.fields name) else [] := by
  rw [importStatic, Query.value_bind, value_resolveDotted, Classpath.ownerNamed]
  cases p.classNamed i.qualifier with
  | none =>
    simp only [Query.value_bind, Query.value_pure]
    simp
  | some c =>
    simp only [Query.value_bind, Query.value_pure]
    refine ⟨trivial, fun name => (SymbolMap.find_insertAll _ _ _).trans ?_⟩
    by_cases hname : i.simpleName = name
    · simp [hname, List.filter_map, Function.comp_def]
    · simp [hname, List.filter_map, Function.comp_def]

/-- Static fields come with static imports: by their classes, or by name. -/
lemma staticFields_addImport (file : FileId) (acc : Imported) (i : Import) :
    ((acc.add config file i).value p).staticOwners =
        acc.staticOwners ++ demandedOwners config p [i] ∧
      ∀ name, ((acc.add config file i).value p).staticFields.find name =
        acc.staticFields.find name ++
          (namedOwners config p [i] name).flatMap (·.fields name) := by
  simp only [demandedOwners_singleton, namedOwners_singleton]
  cases hstatic : i.isStatic with
  | false =>
    have hstatics := statics_addImport p config file hstatic acc
    simp only [Imported.statics, Prod.mk.injEq] at hstatics
    simp [hstatics]
  | true =>
    cases hdemand : i.onDemand with
    | true =>
      rw [Imported.add, hstatic, hdemand, value_importStatics]
      simp
    | false =>
      rw [Imported.add, hstatic, hdemand]
      obtain ⟨howners, hfields⟩ := value_importStatic config p file acc i
      refine ⟨by simp [howners], fun name => (hfields name).trans ?_⟩
      by_cases hname : i.simpleName = name
      · simp [hname]
      · simp [hname]

lemma staticFields_addImports (file : FileId) (imports : List Import) (acc : Imported) :
    ((acc.addAll config file imports).value p).staticOwners =
        acc.staticOwners ++ demandedOwners config p imports ∧
      ∀ name, ((acc.addAll config file imports).value p).staticFields.find name =
        acc.staticFields.find name ++
          (namedOwners config p imports name).flatMap (·.fields name) := by
  induction imports generalizing acc with
  | nil => simp [Imported.addAll, demandedOwners, namedOwners]
  | cons i rest ih =>
    obtain ⟨howners, hfields⟩ := staticFields_addImport config p file acc i
    obtain ⟨hmoreOwners, hmoreFields⟩ := ih ((acc.add config file i).value p)
    rw [Imported.addAll, Query.value_bind, ← List.singleton_append]
    refine ⟨?_, fun name => ?_⟩
    · rw [hmoreOwners, howners]
      simp only [demandedOwners, List.filter_append, List.filterMap_append, List.append_assoc]
    · rw [hmoreFields, hfields]
      simp only [namedOwners, List.filter_append, List.filterMap_append, List.flatMap_append,
        List.append_assoc]

/-- The static fields that a file imports. -/
lemma value_importsOf_statics (u : CompilationUnit) :
    ((importsOf config u).value p).staticOwners = demandedOwners config p u.imports ∧
      ∀ name, ((importsOf config u).value p).staticFields.find name =
        (namedOwners config p u.imports name).flatMap (·.fields name) := by
  obtain ⟨howners, hfields⟩ := staticFields_addImports config p u.file u.imports
    { onDemand := withoutRepeats config.implicitImports }
  exact ⟨howners, hfields⟩

variable {p}

lemma exists_stub_of_ownerNamed {dotted : String} {o : StaticOwner}
    (ho : p.ownerNamed config dotted = some o) {d : ClassStub} (hd : d ∈ o.chain) :
    ∃ internal, p.stub? internal = some d := by
  obtain ⟨c, hclass, rfl⟩ := Option.map_eq_some_iff.mp ho
  obtain ⟨internal, hinternal, hstub⟩ := List.exists_of_findSome?_eq_some hclass
  obtain ⟨n, -, hclimbs, -⟩ :=
    (mem_chain_iff config (dotless_of_mem_candidates hinternal) hstub d).mp hd
  cases hclimbs with
  | refl => exact ⟨internal, hstub⟩
  | step _ hsuper =>
    obtain ⟨named, -, hnamed⟩ := List.mem_filterMap.mp hsuper
    exact ⟨_, hnamed⟩

/-- If the fields of the imported classes come from different classes, no field is there twice. -/
lemma nodup_origins_ownersNamed (hlists : p.ListsOnce) {imports : List Import}
    {dotted : Import → String} {name : String}
    (hsources : (((imports.filterMap fun i => p.ownerNamed config (dotted i)).filterMap
      (·.fieldSource? name)).map (·.binaryName)).Nodup) :
    (((imports.filterMap fun i => p.ownerNamed config (dotted i)).flatMap
      (·.fields name)).map (·.origin)).Nodup := by
  refine StaticOwner.nodup_origins_fields hlists (fun o ho c hc => ?_) hsources
  obtain ⟨i, -, howner⟩ := List.mem_filterMap.mp ho
  exact exists_stub_of_ownerNamed config howner hc

end Imports

/-! ## Bindings of one frame -/

/-- No declaration is brought twice into a frame of this kind.  Imported by name or on demand, all
types of the name are different; imported statically, all classes that its fields are taken from
are.  Nothing is asked of the other frames, but that what is inherited from class files is listed
there once. -/
def BroughtOnce (config : Config) (p : Classpath) (u : CompilationUnit) (name : String) :
    FrameKind → Prop
  | .singleTypeImport => (((u.singleTypes p).filter (·.1 = name)).map (·.2)).Nodup
  | .onDemandImport => ((u.onDemandTargets config).filterMap (p.provided name)).Nodup
  | .singleStaticImport =>
    p.ListsOnce ∧ (((namedOwners config p u.imports name).filterMap (·.fieldSource? name)).map
      (·.binaryName)).Nodup
  | .staticOnDemandImport =>
    p.ListsOnce ∧ (((demandedOwners config p u.imports).filterMap (·.fieldSource? name)).map
      (·.binaryName)).Nodup
  | .inherited => p.ListsOnce
  | _ => True

section Pushes

variable {config : Config} {p : Classpath} {u : CompilationUnit} (hnodes : u.nodes.Nodup)
  {outer : SymbolTable} {i : ScopeInfo} {kind : FrameKind} {name : String}

include hnodes

/-- What a frame binds to a name has different origins, if nothing is brought in twice. -/
lemma nodup_origins_of_typePush {b : TypeBindings}
    (hb : (kind, b) ∈ ((FileContext.ofUnit config u).pushes p outer i).types)
    (honce : BroughtOnce config p u name kind) :
    (((b.find name).value p).map (·.origin)).Nodup := by
  have hown := nodup_origins_declaredAt hnodes i.id
  have hbound {ts : List TypeSymbol} (hts : (ts.map (·.origin)).Nodup) :
      ((((TypeBindings.declared (bindTypes ts)).find name).value p).map (·.origin)).Nodup := by
    rw [find_bindTypes]
    exact (List.filter_sublist.map _).nodup hts
  have hdifferent := nodup_origins_of_comesFrom hnodes fun t (ht : t ∈ (b.find name).value p) =>
    comesFrom_of_pushes hb ht
  obtain ⟨hdemand, hsingle⟩ := value_importsOf p config u
  cases typePush_of_mem hb with
  | declared _ => exact hbound hown.1
  | typeParameters => exact hbound hown.2.1
  | inherited hlevel => exact hbound (nodup_origins_level hnodes honce hlevel).2
  | singleImport =>
    refine hdifferent ?_
    simp only [FileContext.ofUnit, hsingle, find_singleTypes]
    exact honce
  | samePackage =>
    -- a package has one class of a name
    rw [value_find_ofPackage]
    split
    · cases p.stub? (TypeBindings.inPackage _ name) <;> simp
    · exact List.nodup_nil
  | onDemandImport =>
    refine hdifferent ?_
    simp only [FileContext.ofUnit, value_find_onDemand, hdemand]
    split
    · exact honce
    · exact List.nodup_nil

lemma nodup_origins_of_variablePush {b : MemberBindings VariableSymbol}
    (hb : (kind, b) ∈ ((FileContext.ofUnit config u).pushes p outer i).vars)
    (honce : BroughtOnce config p u name kind) : ((b.findVariables name).map (·.origin)).Nodup := by
  have hown := (nodup_origins_declaredAt hnodes i.id).2.2
  have hbound {vs : List VariableSymbol} (hvs : (vs.map (·.origin)).Nodup) :
      (((MemberBindings.declared (bindVariables vs)).findVariables name).map (·.origin)).Nodup := by
    have hfind : (bindVariables vs).find name = vs.filter (·.name = name) :=
      SymbolMap.find_ofList_map VariableSymbol.name vs name
    rw [MemberBindings.findVariables, hfind]
    exact (List.filter_sublist.map _).nodup hvs
  obtain ⟨howners, hfields⟩ := value_importsOf_statics config p u
  cases variablePush_of_mem hb with
  | declared _ => exact hbound hown
  | inherited hlevel => exact hbound (nodup_origins_level hnodes honce hlevel).1
  | singleImport =>
    simp only [FileContext.ofUnit, MemberBindings.findVariables, hfields]
    exact nodup_origins_ownersNamed config honce.1 honce.2
  | onDemandImport =>
    simp only [FileContext.ofUnit, MemberBindings.findVariables, howners]
    exact nodup_origins_ownersNamed config honce.1 honce.2

end Pushes

/-! ## Finds -/

/-- A find shows the first of these bindings and tells whether there are others.  If each
declaration is brought in once, that is to say that there are declarations with different
origins. -/
structure Found.CountsBindings {α : Type} (x : Found α) (origin : α → Origin) (bound : List α)
    (once : Prop) : Prop where
  first : bound.head? = some x.result
  bindings : x.isAmbiguous = true ↔ 1 < bound.length
  declarations : once →
    (x.isAmbiguous = true ↔ ∃ a ∈ bound, ∃ b ∈ bound, origin a ≠ origin b)

/-- Of things with different origins there is more than one exactly if two have different
origins. -/
lemma one_lt_length_iff {α : Type} {origin : α → Origin} {as : List α}
    (h : (as.map origin).Nodup) :
    1 < as.length ↔ ∃ a ∈ as, ∃ b ∈ as, origin a ≠ origin b := by
  match as, h with
  | [], _ => simp
  | [a], _ => simp
  | a :: b :: rest, h =>
    refine iff_of_true (by simp) ⟨a, by simp, b, by simp, fun heq => ?_⟩
    exact (List.nodup_cons.mp h).1 (heq ▸ List.mem_cons_self)

/-- What is found in a frame counts its bindings. -/
lemma countsBindings_of_frame {α : Type} {found : Found α} {origin : α → Origin} {bound : List α}
    {once : Prop} {more : List α} (hbound : bound = found.result :: more)
    (hambiguous : found.isAmbiguous = !more.isEmpty)
    (horigins : once → (bound.map origin).Nodup) : found.CountsBindings origin bound once := by
  have hcounts : found.isAmbiguous = true ↔ 1 < bound.length := by
    rw [hbound, hambiguous]
    cases more <;> simp
  exact ⟨by rw [hbound]; rfl, hcounts,
    fun honce => hcounts.trans (one_lt_length_iff (horigins honce))⟩

namespace Analysis

/-- In a file with different nodes, what a look-up of a type or a value finds in a table is the
first binding that some frame has for the name.  The find is ambiguous if the frame has more of
them; and so exactly if the frame binds declarations with different origins, unless the imports or
class files bring a declaration twice into the frame. -/
theorem isAmbiguous_iff_declarations {config : Config} {p : Classpath} {a : Analysis}
    (hreach : Reaches ⟨config, p, {}⟩ a) {u : CompilationUnit} (hnodes : u.nodes.Nodup)
    {s : Scope} {e : ScopeEntry} (he : (s, e) ∈ (a.buildTables u).1.pairs u.root)
    (name : String) :
    (∀ found, (e.table.resolveType name).value p = some found →
      ∃ f ∈ e.table.types.frames, f.id = found.frame ∧ f.kind = found.kind ∧
        found.CountsBindings (·.origin) ((f.bindings.find name).value p)
          (BroughtOnce config p u name f.kind)) ∧
    ∀ found, e.table.resolveValue name = some found →
      ∃ f ∈ e.table.vars.frames, f.id = found.frame ∧ f.kind = found.kind ∧
        found.CountsBindings (·.origin) (f.bindings.findVariables name)
          (BroughtOnce config p u name f.kind) := by
  rw [hreach.buildTables_value] at he
  have hframes := framesFrom_table he
  constructor
  · intro found hfound
    obtain ⟨f, hf, hid, hkind, more, hbound, hambiguous⟩ :=
      (TypeBindings.resolvers p).exists_frame hfound
    obtain ⟨s', -, outer, -, hpush⟩ := hframes.1 f hf
    exact ⟨f, hf, hid, hkind, countsBindings_of_frame hbound hambiguous fun honce =>
      nodup_origins_of_typePush hnodes hpush honce⟩
  · intro found hfound
    obtain ⟨f, hf, hid, hkind, more, hbound, hambiguous⟩ :=
      MemberBindings.variableResolvers.exists_frame hfound
    obtain ⟨s', -, outer, -, hpush⟩ := hframes.2 f hf
    exact ⟨f, hf, hid, hkind, countsBindings_of_frame hbound hambiguous fun honce =>
      nodup_origins_of_variablePush hnodes hpush honce⟩

/-- The body of a class that declares two fields of one name. -/
def repeatingType : Scope :=
  .node ⟨⟨2⟩, .typeBody ⟨"A", none, []⟩, ⟨10, 40⟩,
    [.var ⟨⟨3⟩, "x", .field, .none, some "int"⟩, .var ⟨⟨4⟩, "x", .field, .none, some "long"⟩]⟩ []

/-- A file with this class. -/
def repeatingUnit : CompilationUnit where
  file := ⟨0⟩
  package := none
  imports := []
  root := .node ⟨⟨0⟩, .compilationUnit, ⟨0, 40⟩, [.type ⟨⟨1⟩, "A", .normalClass, .none⟩]⟩
    [repeatingType]

/-- The name of the two fields is ambiguous, and a frame binds fields with different origins. -/
theorem isAmbiguous_iff_declarations_repeatingUnit :
    let p := MemoryClasspath.toClasspath {}
    let a : Analysis := ⟨{}, p, {}⟩
    let u := repeatingUnit
    u.nodes.Nodup ∧ ∃ e, (repeatingType, e) ∈ (a.buildTables u).1.pairs u.root ∧
      ∃ found, e.table.resolveValue "x" = some found ∧ found.isAmbiguous = true ∧
        ∃ f ∈ e.table.vars.frames, f.kind = .members ∧ ∃ v ∈ f.bindings.findVariables "x",
          ∃ w ∈ f.bindings.findVariables "x", v.origin ≠ w.origin := by
  intro p a u
  have hnodes : u.nodes.Nodup := by decide
  have hs : repeatingType ∈ u.root.descendants := by
    simp [u, repeatingUnit, repeatingType, Scope.descendants, Scope.descendantsOfAll]
  obtain ⟨e, he⟩ := exists_pair p {} hs
  have hget := get?_of_pair p (scopeIds_nodup_of_nodes hnodes) he
  have hx : (((JavaScope.buildTables {} u).value p).get? repeatingType.info.id).map
      (fun t => (t.resolveValue "x").map fun found => (found.isAmbiguous, found.kind)) =
        some (some (true, .members)) := by decide +kernel
  rw [hget] at hx
  obtain ⟨found, hfound, hx⟩ := Option.map_eq_some_iff.mp (Option.some.inj hx)
  obtain ⟨hambiguous, hmembers⟩ := Prod.mk.inj hx
  have hvalue : (a.buildTables u).1 = (JavaScope.buildTables {} u).value p :=
    Reaches.buildTables_value .refl u
  rw [← hvalue] at he
  obtain ⟨f, hf, -, hkind, hcounts⟩ :=
    (isAmbiguous_iff_declarations .refl hnodes he "x").2 found hfound
  have honce : BroughtOnce {} p u "x" f.kind := by
    rw [hkind, hmembers]
    trivial
  exact ⟨hnodes, e, he, found, hfound, hambiguous, f, hf, hkind.trans hmembers,
    (hcounts.declarations honce).mp hambiguous⟩

end Analysis

end JavaScope
