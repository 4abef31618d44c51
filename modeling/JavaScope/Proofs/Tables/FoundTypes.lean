/-
# What types a look-up can find

A look-up of a type in a table of a file finds a type that the file declares, a class of the
classpath, or the placeholder of an import that could not be resolved (`comesFrom_of_resolveType`).
-/
import JavaScope.Proofs.Tables.Frames
import JavaScope.Proofs.Tables.ImportPrecedence
import JavaScope.Proofs.Tables.InheritedMethods

namespace JavaScope

/-- The types that a file and a classpath give rise to. -/
inductive TypeSymbol.ComesFrom (u : CompilationUnit) (p : Classpath) : TypeSymbol → Prop
  /-- The type is declared in the file. -/
  | declared {d : TypeDecl} : d ∈ u.typeDecls → ComesFrom u p (d.symbol u.file)
  /-- The type is a class of the classpath. -/
  | onClasspath {name : String} {c : ClassStub} :
      Dotless name → p.stub? name = some c → ComesFrom u p c.symbol
  /-- The type stands for an imported class that there is not. -/
  | missing (name : String) : ComesFrom u p (.placeholder name)

variable {u : CompilationUnit} {p : Classpath} {t : TypeSymbol}

/-! ## Types of the classpath -/

lemma comesFrom_importedType (dotted : String) : (p.importedType dotted).ComesFrom u p := by
  rw [Classpath.importedType]
  cases hclass : p.classNamed dotted with
  | none => exact .missing dotted
  | some c =>
    obtain ⟨n, hn, hstub⟩ := List.exists_of_findSome?_eq_some hclass
    exact .onClasspath (dotless_of_mem_candidates hn) hstub

lemma comesFrom_provided {name target : String} (hname : Name.isSimple name = true)
    (h : p.provided name target = some t) : t.ComesFrom u p := by
  rw [Classpath.provided] at h
  split at h
  · next c hstub =>
    obtain rfl := Option.some.inj h
    refine .onClasspath (((dotless_toInternal target).append dotless_slash).append ?_) hstub
    exact dotless_of_isSimple hname
  · obtain ⟨owner, -, h⟩ := Option.bind_eq_some_iff.mp h
    obtain ⟨member, -, h⟩ := Option.bind_eq_some_iff.mp h
    obtain ⟨c, hstub, rfl⟩ := Option.map_eq_some_iff.mp h
    exact .onClasspath (dotless_toInternal _) hstub

lemma comesFrom_inPackage {name : String} (hname : Name.isSimple name = true) {c : ClassStub}
    (h : p.stub? (TypeBindings.inPackage u.internalPackage name) = some c) :
    c.symbol.ComesFrom u p := by
  refine .onClasspath ?_ h
  rw [TypeBindings.inPackage]
  split
  · exact dotless_of_isSimple hname
  · exact ((dotless_internalPackage u).append dotless_slash).append (dotless_of_isSimple hname)

/-! ## Declared types -/

section Symbols

variable {file : FileId} {d : Decl}

lemma Decl.exists_typeDecl (h : d.typeSymbol? file = some t) :
    ∃ td, d = .type td ∧ t = td.symbol file := by
  cases d with
  | type td => exact ⟨td, rfl, (Option.some.inj h).symm⟩
  | _ => cases h

/-! The origin of what a scope declares is the node that declares it. -/

lemma Decl.origin_of_typeSymbol? (h : d.typeSymbol? file = some t) :
    t.origin = .source ⟨file, d.node⟩ := by
  obtain ⟨td, rfl, rfl⟩ := Decl.exists_typeDecl h
  rfl

lemma Decl.origin_of_variableSymbol? {v : VariableSymbol}
    (h : d.variableSymbol? file = some v) : v.origin = .source ⟨file, d.node⟩ := by
  cases d with
  | var d => obtain rfl := Option.some.inj h; rfl
  | _ => cases h

lemma Decl.origin_of_methodSymbol? {declaring : String} {m : MethodSymbol}
    (h : d.methodSymbol? file declaring = some m) : m.origin = .source ⟨file, d.node⟩ := by
  cases d with
  | method d => obtain rfl := Option.some.inj h; rfl
  | _ => cases h

end Symbols

/-- What the index has for a node was declared by a scope of the file. -/
lemma FileIndex.declaredAt_cases (u : CompilationUnit) (node : NodeId) :
    (ofUnit u).declaredAt node = {} ∨ ∃ s ∈ u.root.descendants, s.info.id = node ∧
      ∃ declaring, (ofUnit u).declaredAt node =
        Declared.ofDecls u.file declaring s.info.decls := by
  rw [declaredAt]
  cases hlookup : (ofUnit u).declared.lookup node with
  | none => exact .inl rfl
  | some d =>
    obtain ⟨⟨i, declaring⟩, hentry, heq⟩ :=
      List.mem_map.mp (List.mem_reverse.mp (mem_of_lookup_eq_some hlookup))
    obtain ⟨rfl, rfl⟩ := Prod.mk.inj heq
    have hinfo : i ∈ u.root.descendants.map (·.info) := by
      rw [← Scope.map_withDeclaring ""]
      exact List.mem_map_of_mem hentry
    obtain ⟨s, hs, rfl⟩ := List.mem_map.mp hinfo
    exact .inr ⟨s, hs, rfl, declaring, rfl⟩

lemma comesFrom_declaredAt {node : NodeId}
    (h : t ∈ ((FileIndex.ofUnit u).declaredAt node).types ∨
      t ∈ ((FileIndex.ofUnit u).declaredAt node).typeParameters) : t.ComesFrom u p := by
  rcases FileIndex.declaredAt_cases u node with hnone | ⟨s, hs, -, declaring, hdeclared⟩
  · rw [hnone] at h
    rcases h with h | h <;> cases h
  · rw [hdeclared] at h
    have hmem : t ∈ s.info.decls.filterMap (Decl.typeSymbol? u.file) := by
      rcases h with h | h
      · exact List.mem_of_mem_filter h
      · exact List.mem_of_mem_filter h
    obtain ⟨d, hd, hsymbol⟩ := List.mem_filterMap.mp hmem
    obtain ⟨td, rfl, rfl⟩ := Decl.exists_typeDecl hsymbol
    exact .declared (List.mem_flatMap.mpr ⟨s, hs, List.mem_filterMap.mpr ⟨_, hd, rfl⟩⟩)

lemma comesFrom_memberTypes {S : Supertype}
    (h : t ∈ S.memberTypes (.ofUnit u) p) : t.ComesFrom u p := by
  cases S with
  | stub c =>
    obtain ⟨d, hd, rfl⟩ := List.mem_map.mp h
    obtain ⟨member, -, hstub⟩ := List.mem_filterMap.mp hd
    exact .onClasspath (dotless_toInternal _) hstub
  | source node header => exact comesFrom_declaredAt (.inl (List.mem_of_mem_filter h))

/-! ## Found types -/

variable {config : Config}

lemma find_bindTypes (ts : List TypeSymbol) (name : String) :
    ((TypeBindings.declared (bindTypes ts)).find name).value p = ts.filter (·.name = name) :=
  SymbolMap.find_ofList_map TypeSymbol.name ts name

lemma find_singleTypes (name : String) :
    ((TypeBindings.declared (.ofList (u.singleTypes p))).find name).value p =
      ((u.singleTypes p).filter (·.1 = name)).map (·.2) :=
  SymbolMap.find_ofList (u.singleTypes p) name

/-- All types that are pushed for a scope come from the file and the classpath. -/
lemma comesFrom_of_pushes {outer : SymbolTable} {i : ScopeInfo} {kind : FrameKind}
    {b : TypeBindings} (hb : (kind, b) ∈ ((FileContext.ofUnit config u).pushes p outer i).types)
    {name : String} (ht : t ∈ (b.find name).value p) : t.ComesFrom u p := by
  -- declared types are bound to their names
  have hown {ts : List TypeSymbol}
      (ht : t ∈ ((TypeBindings.declared (bindTypes ts)).find name).value p) : t ∈ ts := by
    rw [find_bindTypes] at ht
    exact List.mem_of_mem_filter ht
  obtain ⟨hdemand, hsingle⟩ := value_importsOf p config u
  cases typePush_of_mem hb with
  | declared _ => exact comesFrom_declaredAt (.inl (hown ht))
  | typeParameters => exact comesFrom_declaredAt (.inr (hown ht))
  | inherited _ =>
    obtain ⟨S, -, hS⟩ := List.mem_flatMap.mp (hown ht)
    exact comesFrom_memberTypes hS
  | singleImport =>
    simp only [FileContext.ofUnit, hsingle, find_singleTypes] at ht
    obtain ⟨⟨n, t'⟩, hmem, rfl⟩ := List.mem_map.mp ht
    obtain ⟨i, -, heq⟩ := List.mem_map.mp (List.mem_of_mem_filter hmem)
    obtain ⟨-, rfl⟩ := Prod.mk.inj heq
    exact comesFrom_importedType i.name
  | samePackage =>
    rw [value_find_ofPackage] at ht
    split at ht
    · next hname =>
      obtain ⟨c, hstub, rfl⟩ := List.mem_map.mp ht
      exact comesFrom_inPackage hname (Option.mem_toList.mp hstub)
    · cases ht
  | onDemandImport =>
    rw [value_find_onDemand] at ht
    split at ht
    · next hname =>
      obtain ⟨target, -, hprovided⟩ := List.mem_filterMap.mp ht
      exact comesFrom_provided hname hprovided
    · cases ht

/-- A type that is found comes from the file and the classpath. -/
theorem comesFrom_of_resolveType {table : SymbolTable} (htable : table.FramesFrom config p u)
    {name : String} {found : Found TypeSymbol}
    (h : (table.resolveType name).value p = some found) : found.result.ComesFrom u p := by
  obtain ⟨f, hf, -, -, more, hbound, -⟩ := (TypeBindings.resolvers p).exists_frame h
  obtain ⟨s, -, outer, -, hpush⟩ := htable.1 f hf
  have hfirst : found.result ∈ (f.bindings.find name).value p := by
    rw [show (f.bindings.find name).value p = _ from hbound]
    exact List.mem_cons_self
  exact comesFrom_of_pushes hpush hfirst

end JavaScope
