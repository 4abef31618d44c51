/-
# Different declarations have different origins

The origin of a symbol is the identity of its declaration.  Where the nodes of a file differ, so do
the origins of all that its scopes declare.  Of a class file they differ if it lists each member
once (`Classpath.ListsOnce`), and then the supertypes at one distance pass on each field and each
member type once (`nodup_origins_level`).
-/
import JavaScope.Proofs.Tables.FoundTypes

namespace JavaScope

/-! ## Lists -/

lemma map_filterMap_sublist {α β γ : Type} {f : α → Option β} {g : α → γ} {h : β → γ}
    (hf : ∀ a b, f a = some b → h b = g a) (as : List α) :
    ((as.filterMap f).map h).Sublist (as.map g) := by
  induction as with
  | nil => exact List.Sublist.slnil
  | cons a as ih =>
    cases ha : f a with
    | none =>
      rw [List.filterMap_cons_none ha]
      exact ih.cons _
    | some b =>
      rw [List.filterMap_cons_some ha, List.map_cons, List.map_cons, hf a b ha]
      exact ih.cons_cons _

/-- Things that are told apart by a key stay so in parts that have different keys. -/
lemma nodup_map_flatMap {α β γ κ : Type} {key : α → κ} {f : α → List β} {g : β → γ} {as : List α}
    (hkeys : (as.map key).Nodup) (hown : ∀ a ∈ as, ((f a).map g).Nodup)
    (hapart : ∀ a ∈ as, ∀ a' ∈ as, ∀ b ∈ f a, ∀ b' ∈ f a', g b = g b' → key a = key a') :
    ((as.flatMap f).map g).Nodup := by
  rw [List.map_flatMap, List.nodup_flatMap]
  refine ⟨hown, (List.pairwise_map.mp hkeys).imp_of_mem fun ha ha' hne => ?_⟩
  intro c hc hc'
  obtain ⟨b, hb, rfl⟩ := List.mem_map.mp hc
  obtain ⟨b', hb', heq⟩ := List.mem_map.mp hc'
  exact hne (hapart _ ha _ ha' b hb b' hb' heq.symm)

/-! ## Declarations of a file -/

/-- The nodes of the scopes and declarations of a file. -/
def CompilationUnit.nodes (u : CompilationUnit) : List NodeId :=
  u.root.descendants.flatMap fun s => s.info.id :: s.info.decls.map Decl.node

lemma exists_scope_of_typeDecl {u : CompilationUnit} {d : TypeDecl} (hd : d ∈ u.typeDecls) :
    ∃ s ∈ u.root.descendants, .type d ∈ s.info.decls := by
  obtain ⟨s, hs, hmem⟩ := List.mem_flatMap.mp hd
  obtain ⟨d', hd', htype⟩ := List.mem_filterMap.mp hmem
  cases d' with
  | type d' => obtain rfl := Option.some.inj htype; exact ⟨s, hs, hd'⟩
  | _ => cases htype

section File

variable {u : CompilationUnit} (hnodes : u.nodes.Nodup)

include hnodes

lemma scopeIds_nodup_of_nodes : u.scopeIds.Nodup := by
  have hsublist : ∀ l : List Scope, (l.map (·.info.id)).Sublist
      (l.flatMap fun s => s.info.id :: s.info.decls.map Decl.node) := by
    intro l
    induction l with
    | nil => exact List.Sublist.slnil
    | cons s l ih =>
      rw [List.map_cons, List.flatMap_cons, List.cons_append]
      exact (ih.trans (List.sublist_append_right _ _)).cons_cons _
  exact (hsublist u.root.descendants).nodup hnodes

lemma nodup_declNodes {s : Scope} (hs : s ∈ u.root.descendants) :
    (s.info.decls.map Decl.node).Nodup :=
  (List.nodup_cons.mp ((List.nodup_flatMap.mp hnodes).1 s hs)).2

/-- A node is declared in one scope. -/
lemma scope_eq_of_node {s s' : Scope} (hs : s ∈ u.root.descendants)
    (hs' : s' ∈ u.root.descendants) {d d' : Decl} (hd : d ∈ s.info.decls) (hd' : d' ∈ s'.info.decls)
    (hnode : d.node = d'.node) : s = s' := by
  by_contra hne
  have hapart := (List.nodup_flatMap.mp hnodes).2
  have : Std.Symm (Function.onFun List.Disjoint fun s : Scope =>
      s.info.id :: s.info.decls.map Decl.node) := ⟨fun _ _ h => h.symm⟩
  have hmem : d.node ∈ s'.info.id :: s'.info.decls.map Decl.node :=
    hnode ▸ List.mem_cons_of_mem _ (List.mem_map_of_mem hd')
  exact hapart.forall hs hs' hne (List.mem_cons_of_mem _ (List.mem_map_of_mem hd)) hmem

/-- What the index has for a node has different origins. -/
lemma nodup_origins_declaredAt (node : NodeId) :
    let d := (FileIndex.ofUnit u).declaredAt node
    (d.types.map (·.origin)).Nodup ∧ (d.typeParameters.map (·.origin)).Nodup ∧
      (d.vars.map (·.origin)).Nodup := by
  rcases FileIndex.declaredAt_cases u node with hnone | ⟨s, hs, -, declaring, hdeclared⟩
  · simp only [hnone]
    exact ⟨List.nodup_nil, List.nodup_nil, List.nodup_nil⟩
  · simp only [hdeclared]
    have horigins : (s.info.decls.map fun d => Origin.source ⟨u.file, d.node⟩).Nodup := by
      have hinj : Function.Injective fun node : NodeId => Origin.source ⟨u.file, node⟩ := by
        intro n n' h
        simpa using h
      have hnodup := (nodup_declNodes hnodes hs).map hinj
      rwa [List.map_map] at hnodup
    have htypes : ((s.info.decls.filterMap (Decl.typeSymbol? u.file)).map (·.origin)).Nodup :=
      (map_filterMap_sublist (fun _ _ ht => Decl.origin_of_typeSymbol? ht) _).nodup horigins
    refine ⟨?_, ?_, ?_⟩
    · exact (List.filter_sublist.map _).nodup htypes
    · exact (List.filter_sublist.map _).nodup htypes
    · exact (map_filterMap_sublist (fun _ _ hv => Decl.origin_of_variableSymbol? hv) _).nodup
        horigins

end File

/-! ## Members of class files -/

/-- Class files list each field and each member class once, and no two class files list the same
class as their member. -/
structure Classpath.ListsOnce (p : Classpath) : Prop where
  fields : ∀ name c, p.stub? name = some c → (c.fields.map fun f => (f.name, f.descriptor)).Nodup
  memberTypes : ∀ name c, p.stub? name = some c →
    (c.memberTypes.map fun t => Name.toInternal t.binaryName).Nodup
  oneOwner : ∀ name c name' c', p.stub? name = some c → p.stub? name' = some c' →
    ∀ t ∈ c.memberTypes, ∀ t' ∈ c'.memberTypes,
      Name.toInternal t.binaryName = Name.toInternal t'.binaryName → c.binaryName = c'.binaryName

/-- The origin of the symbol of a class. -/
def Origin.ofClass (internal : String) : Origin :=
  .stub (Name.toBinary internal) (Name.simple (Name.toBinary internal)) ("L" ++ internal ++ ";")

section ClassFiles

variable {p : Classpath} {name : String} {c : ClassStub}

lemma origin_of_stubOfBinary {n : String} {d : ClassStub}
    (h : (Query.stubOfBinary n).value p = some d) :
    d.symbol.origin = .ofClass (Name.toInternal n) := by
  have hname : d.internalName = Name.toInternal n :=
    (Classpath.exists_bytes_of_stub? (show p.stub? _ = some d from h)).1
  rw [← hname]
  rfl

lemma ofClass_injective {i j : String} (hi : Dotless i) (hj : Dotless j)
    (h : Origin.ofClass i = .ofClass j) : i = j :=
  toBinary_injective hi hj (Origin.stub.inj h).1

variable (hlists : p.ListsOnce) (hc : p.stub? name = some c)

include hlists hc

lemma nodup_origins_fieldSymbols : (c.fieldSymbols.map (·.origin)).Nodup := by
  have hinj : Function.Injective fun f : String × String =>
      Origin.stub c.binaryName f.1 f.2 := by
    rintro ⟨n, d⟩ ⟨n', d'⟩ h
    simpa using h
  have hfields := (hlists.fields name c hc).map hinj
  rw [List.map_map] at hfields
  rw [ClassStub.fieldSymbols, List.map_map]
  exact (List.filter_sublist.map _).nodup hfields

lemma nodup_origins_stubMemberTypes (x : FileIndex) :
    (((Supertype.stub c).memberTypes x p).map (·.origin)).Nodup := by
  have hmembers : (c.memberTypes.map fun t =>
      Origin.ofClass (Name.toInternal t.binaryName)).Nodup := by
    have hnodup := (hlists.memberTypes name c hc).map_on (f := Origin.ofClass) ?_
    · rwa [List.map_map] at hnodup
    · intro i hi j hj h
      obtain ⟨t, -, rfl⟩ := List.mem_map.mp hi
      obtain ⟨t', -, rfl⟩ := List.mem_map.mp hj
      exact ofClass_injective (dotless_toInternal _) (dotless_toInternal _) h
  rw [Supertype.memberTypes, List.map_map]
  exact ((map_filterMap_sublist (fun t d h => origin_of_stubOfBinary h) _).trans
    (List.filter_sublist.map _)).nodup hmembers

end ClassFiles

/-! ## Types -/

/-- Types with one origin are the same. -/
lemma TypeSymbol.ComesFrom.eq_of_origin {u : CompilationUnit} {p : Classpath}
    (hnodes : u.nodes.Nodup) {t t' : TypeSymbol} (ht : t.ComesFrom u p) (ht' : t'.ComesFrom u p)
    (h : t.origin = t'.origin) : t = t' := by
  cases ht with
  | @declared d hd =>
    cases ht' with
    | @declared d' hd' =>
      have hnode : d.node = d'.node := (DefId.mk.inj (Origin.source.inj h)).2
      obtain ⟨s, hs, hmem⟩ := exists_scope_of_typeDecl hd
      obtain ⟨s', hs', hmem'⟩ := exists_scope_of_typeDecl hd'
      obtain rfl := scope_eq_of_node hnodes hs hs' hmem hmem' hnode
      have hsame := List.inj_on_of_nodup_map (nodup_declNodes hnodes hs) hmem hmem' hnode
      rw [Decl.type.inj hsame]
    | onClasspath _ _ => cases h
    | missing _ => cases h
  | @onClasspath name c hname hstub =>
    cases ht' with
    | declared _ => cases h
    | @onClasspath name' c' hname' hstub' =>
      have hbinary : Name.toBinary c.internalName = Name.toBinary c'.internalName :=
        (Origin.stub.inj h).1
      rw [(Classpath.exists_bytes_of_stub? hstub).1,
        (Classpath.exists_bytes_of_stub? hstub').1] at hbinary
      obtain rfl := toBinary_injective hname hname' hbinary
      rw [Option.some.inj (hstub.symm.trans hstub')]
    | missing _ => cases h
  | missing name =>
    cases ht' with
    | declared _ => cases h
    | onClasspath _ _ => cases h
    | missing name' => rw [Origin.unresolved.inj h]

/-- Different types have different origins. -/
lemma nodup_origins_of_comesFrom {u : CompilationUnit} {p : Classpath} (hnodes : u.nodes.Nodup)
    {ts : List TypeSymbol} (hts : ∀ t ∈ ts, t.ComesFrom u p) (h : ts.Nodup) :
    (ts.map (·.origin)).Nodup :=
  h.map_on fun t ht t' ht' horigin => (hts t ht).eq_of_origin hnodes (hts t' ht') horigin

/-! ## Members of supertypes -/

section Supertypes

variable {u : CompilationUnit} {p : Classpath} {S S' : Supertype}

/-- A supertype has a member of this origin: its body in the file declares it, or its class file
lists it. -/
inductive Supertype.HasMember (u : CompilationUnit) (listed : ClassStub → Origin → Prop) :
    Supertype → Origin → Prop
  | source {s : Scope} {header : TypeHeader} {d : Decl} : s ∈ u.root.descendants →
      s.info.kind = .typeBody header → d ∈ s.info.decls →
      HasMember u listed (.source s.info.id header) (.source ⟨u.file, d.node⟩)
  | stub {c : ClassStub} {o : Origin} :
      o.isSource = false → listed c o → HasMember u listed (.stub c) o

/-- The origin of a field of a class. -/
def ClassStub.ListsField (c : ClassStub) (o : Origin) : Prop :=
  ∃ name descriptor, o = .stub c.binaryName name descriptor

/-- The origin of a class that another lists as its member. -/
def ClassStub.ListsMemberType (c : ClassStub) (o : Origin) : Prop :=
  ∃ m ∈ c.memberTypes, o = .ofClass (Name.toInternal m.binaryName)

lemma hasMember_of_declaredAt {listed : ClassStub → Origin → Prop} (hids : u.scopeIds.Nodup)
    {node : NodeId} {header : TypeHeader}
    (hbody : (FileIndex.ofUnit u).body? header.binaryName = some (node, header)) :
    (∀ v ∈ ((FileIndex.ofUnit u).declaredAt node).vars,
      (Supertype.source node header).HasMember u listed v.origin) ∧
    ∀ t ∈ ((FileIndex.ofUnit u).declaredAt node).types,
      (Supertype.source node header).HasMember u listed t.origin := by
  obtain ⟨-, s, hs, hkind, rfl⟩ := FileIndex.exists_scope_of_body? hbody
  rw [FileIndex.declaredAt_eq_own hids hs hkind]
  simp only [ScopeInfo.own, hkind, ← ofDecls_eq_symbolsOf]
  constructor
  · intro v hv
    obtain ⟨d, hd, hsymbol⟩ := List.mem_filterMap.mp hv
    rw [Decl.origin_of_variableSymbol? hsymbol]
    exact .source hs hkind hd
  · intro t ht
    obtain ⟨d, hd, hsymbol⟩ := List.mem_filterMap.mp (List.mem_of_mem_filter ht)
    rw [Decl.origin_of_typeSymbol? hsymbol]
    exact .source hs hkind hd

lemma hasMember_of_mem_vars (hids : u.scopeIds.Nodup) (hS : S.Known (.ofUnit u) p)
    {v : VariableSymbol} (hv : v ∈ S.vars (.ofUnit u)) :
    S.HasMember u ClassStub.ListsField v.origin := by
  cases hS with
  | stub _ _ =>
    obtain ⟨f, -, rfl⟩ := List.mem_map.mp hv
    exact .stub rfl ⟨f.name, f.descriptor, rfl⟩
  | source hbody => exact (hasMember_of_declaredAt hids hbody).1 v (List.mem_of_mem_filter hv)

lemma hasMember_of_mem_memberTypes (hids : u.scopeIds.Nodup) (hS : S.Known (.ofUnit u) p)
    {t : TypeSymbol} (ht : t ∈ S.memberTypes (.ofUnit u) p) :
    S.HasMember u ClassStub.ListsMemberType t.origin := by
  cases hS with
  | stub _ _ =>
    obtain ⟨d, hd, rfl⟩ := List.mem_map.mp ht
    obtain ⟨m, hm, hstub⟩ := List.mem_filterMap.mp hd
    exact .stub rfl ⟨m, List.mem_of_mem_filter hm, origin_of_stubOfBinary hstub⟩
  | source hbody => exact (hasMember_of_declaredAt hids hbody).2 t (List.mem_of_mem_filter ht)

variable (hnodes : u.nodes.Nodup)

include hnodes

/-- A member belongs to one supertype, if what class files list belongs to one class. -/
lemma Supertype.HasMember.binaryName_eq {listed : ClassStub → Origin → Prop} {o : Origin}
    (hlisted : ∀ name c name' c', p.stub? name = some c → p.stub? name' = some c' →
      listed c o → listed c' o → c.binaryName = c'.binaryName)
    (hS : S.Known (.ofUnit u) p) (hS' : S'.Known (.ofUnit u) p) (h : S.HasMember u listed o)
    (h' : S'.HasMember u listed o) : S.binaryName = S'.binaryName := by
  cases h with
  | source hs hkind hd =>
    generalize ho : Origin.source _ = o at h'
    cases h' with
    | source hs' hkind' hd' =>
      have hnode := (DefId.mk.inj (Origin.source.inj ho)).2
      obtain rfl := scope_eq_of_node hnodes hs hs' hd hd' hnode
      rw [ScopeKind.typeBody.inj (hkind.symm.trans hkind')]
    | stub hsource _ =>
      rw [← ho] at hsource
      cases hsource
  | stub hsource hc =>
    cases h' with
    | source _ _ _ => cases hsource
    | stub _ hc' =>
      cases hS with
      | stub _ hstub =>
        cases hS' with
        | stub _ hstub' => exact hlisted _ _ _ _ hstub hstub' hc hc'

variable (hlists : p.ListsOnce)

include hlists

lemma nodup_origins_vars (hS : S.Known (.ofUnit u) p) :
    ((S.vars (.ofUnit u)).map (·.origin)).Nodup := by
  cases hS with
  | stub _ hstub => exact nodup_origins_fieldSymbols hlists hstub
  | source _ => exact (List.filter_sublist.map _).nodup (nodup_origins_declaredAt hnodes _).2.2

lemma nodup_origins_memberTypes (hS : S.Known (.ofUnit u) p) :
    ((S.memberTypes (.ofUnit u) p).map (·.origin)).Nodup := by
  cases hS with
  | stub _ hstub => exact nodup_origins_stubMemberTypes hlists hstub _
  | source _ => exact (List.filter_sublist.map _).nodup (nodup_origins_declaredAt hnodes _).1

/-- The supertypes at one distance pass on each field and each member type once. -/
theorem nodup_origins_level {config : Config} {scope : SymbolTable} {header : TypeHeader}
    {level : List Supertype} (h : level ∈ supertypeWalk (.ofUnit u) p scope config header) :
    ((level.flatMap (·.vars (.ofUnit u))).map (·.origin)).Nodup ∧
      ((level.flatMap (·.memberTypes (.ofUnit u) p)).map (·.origin)).Nodup := by
  have hids := scopeIds_nodup_of_nodes hnodes
  obtain ⟨hknown, hnames⟩ := Supertype.known_of_mem_supertypeWalk h
  constructor
  · refine nodup_map_flatMap hnames
      (fun S hS => nodup_origins_vars hnodes hlists (hknown S hS)) ?_
    intro S hS S' hS' v hv v' hv' horigin
    have hmember := hasMember_of_mem_vars hids (hknown S hS) hv
    have hmember' := hasMember_of_mem_vars hids (hknown S' hS') hv'
    rw [← horigin] at hmember'
    refine hmember.binaryName_eq hnodes ?_ (hknown S hS) (hknown S' hS') hmember'
    rintro _ c _ c' - - ⟨n, d, ho⟩ ⟨n', d', ho'⟩
    exact (Origin.stub.inj (ho.symm.trans ho')).1
  · refine nodup_map_flatMap hnames
      (fun S hS => nodup_origins_memberTypes hnodes hlists (hknown S hS)) ?_
    intro S hS S' hS' t ht t' ht' horigin
    have hmember := hasMember_of_mem_memberTypes hids (hknown S hS) ht
    have hmember' := hasMember_of_mem_memberTypes hids (hknown S' hS') ht'
    rw [← horigin] at hmember'
    refine hmember.binaryName_eq hnodes ?_ (hknown S hS) (hknown S' hS') hmember'
    rintro name c name' c' hstub hstub' ⟨m, hm, ho⟩ ⟨m', hm', ho'⟩
    refine hlists.oneOwner name c name' c' hstub hstub' m hm m' hm' ?_
    exact ofClass_injective (dotless_toInternal _) (dotless_toInternal _) (ho.symm.trans ho')

end Supertypes

end JavaScope
