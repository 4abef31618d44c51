/-
# Tables of nested scopes

The entries of a file follow its scopes one by one (`map_node_buildTables`), and the table of
each scope is built inside the table of the scope around it (`built_buildTables`).
-/
import JavaScope.Proofs.Run.Transparency
import JavaScope.Proofs.Tables.Declarations

namespace JavaScope

/-- The entry has the identity of its scope, and its table is built inside the table `outer`,
which is that of the scope around it; around the outermost scopes it is the table `parent`. -/
def Built (x : FileContext) (p : Classpath) (pairs : List (Scope × ScopeEntry))
    (outermost : List Scope) (parent : SymbolTable) (f : Scope × ScopeEntry) : Prop :=
  f.2.node = f.1.info.id ∧
    ∃ outer number, f.2.table = (scopeTable x ⟨outer, number⟩ f.1.info).value p ∧
      ((f.1 ∈ outermost ∧ outer = parent) ∨
        ∃ g ∈ pairs, f.1 ∈ g.1.children ∧ g.2.table = outer)

lemma Built.mono {x : FileContext} {p : Classpath} {fs gs : List (Scope × ScopeEntry)}
    {outermost outermost' : List Scope} {parent : SymbolTable} {f : Scope × ScopeEntry}
    (h : Built x p fs outermost parent f) (hpairs : ∀ g ∈ fs, g ∈ gs)
    (houtermost : ∀ s ∈ outermost, s ∈ outermost') : Built x p gs outermost' parent f := by
  obtain ⟨hnode, outer, number, htable, ⟨htop, hparent⟩ | ⟨g, hg, hchild⟩⟩ := h
  · exact ⟨hnode, outer, number, htable, .inl ⟨houtermost _ htop, hparent⟩⟩
  · exact ⟨hnode, outer, number, htable, .inr ⟨g, hpairs g hg, hchild⟩⟩

variable (x : FileContext) (p : Classpath)

lemma value_scopeEntries (q : TablePlace) (depth : Nat) (i : ScopeInfo) (cs : List Scope) :
    (scopeEntries x q depth (.node i cs)).value p =
      ⟨i.id, i.range, depth, (scopeTable x q i).value p⟩ ::
        (siblingEntries x ⟨(scopeTable x q i).value p, q.number + 1⟩ (depth + 1) cs).value p := by
  rw [scopeEntries, Query.value_bind, Query.value_bind, Query.value_pure]

/-- The siblings of a scope get their tables inside the same table, with another number. -/
lemma value_siblingEntries (q : TablePlace) (depth : Nat) (s : Scope) (rest : List Scope) :
    ∃ number, (siblingEntries x q depth (s :: rest)).value p =
      (scopeEntries x q depth s).value p ++
        (siblingEntries x ⟨q.parent, number⟩ depth rest).value p := by
  refine ⟨q.number + ((scopeEntries x q depth s).value p).length, ?_⟩
  rw [siblingEntries, Query.value_bind, Query.value_bind, Query.value_pure]

mutual

lemma map_node_scopeEntries (q : TablePlace) (depth : Nat) :
    ∀ s : Scope, ((scopeEntries x q depth s).value p).map (·.node) =
      s.descendants.map (·.info.id)
  | .node i cs => by
    rw [value_scopeEntries, Scope.descendants, List.map_cons, List.map_cons,
      map_node_siblingEntries]
    rfl

lemma map_node_siblingEntries (q : TablePlace) (depth : Nat) :
    ∀ cs : List Scope, ((siblingEntries x q depth cs).value p).map (·.node) =
      (Scope.descendantsOfAll cs).map (·.info.id)
  | [] => by
    rw [siblingEntries, Query.value_pure]
    rfl
  | s :: rest => by
    obtain ⟨number, hvalue⟩ := value_siblingEntries x p q depth s rest
    rw [hvalue, Scope.descendantsOfAll, List.map_append, List.map_append,
      map_node_scopeEntries, map_node_siblingEntries]

end

mutual

lemma built_scopeEntries (q : TablePlace) (depth : Nat) :
    ∀ r : Scope, ∀ f ∈ r.descendants.zip ((scopeEntries x q depth r).value p),
      Built x p (r.descendants.zip ((scopeEntries x q depth r).value p)) [r] q.parent f
  | .node i cs => by
    have hinside :=
      built_siblingEntries ⟨(scopeTable x q i).value p, q.number + 1⟩ (depth + 1) cs
    rw [value_scopeEntries, Scope.descendants, List.zip_cons_cons]
    intro f hf
    rcases List.mem_cons.mp hf with rfl | hf
    · exact ⟨rfl, q.parent, q.number, rfl, .inl ⟨List.mem_singleton.mpr rfl, rfl⟩⟩
    · obtain ⟨hnode, outer, number, htable, hplace⟩ := hinside f hf
      refine ⟨hnode, outer, number, htable, .inr ?_⟩
      rcases hplace with ⟨hchild, rfl⟩ | ⟨g, hg, hchild⟩
      · exact ⟨_, List.mem_cons_self, hchild, rfl⟩
      · exact ⟨g, List.mem_cons_of_mem _ hg, hchild⟩

lemma built_siblingEntries (q : TablePlace) (depth : Nat) :
    ∀ cs : List Scope,
      ∀ f ∈ (Scope.descendantsOfAll cs).zip ((siblingEntries x q depth cs).value p),
        Built x p ((Scope.descendantsOfAll cs).zip ((siblingEntries x q depth cs).value p)) cs
          q.parent f
  | [] => by
    intro f hf
    cases hf
  | c :: rest => by
    obtain ⟨number, hvalue⟩ := value_siblingEntries x p q depth c rest
    have hlength := congrArg List.length (map_node_scopeEntries x p q depth c)
    rw [List.length_map, List.length_map] at hlength
    have hfirst := built_scopeEntries q depth c
    have hothers := built_siblingEntries ⟨q.parent, number⟩ depth rest
    rw [hvalue, Scope.descendantsOfAll, List.zip_append hlength.symm]
    intro f hf
    rcases List.mem_append.mp hf with hf | hf
    · exact (hfirst f hf).mono (fun g hg => List.mem_append_left _ hg) (by simp)
    · exact (hothers f hf).mono (fun g hg => List.mem_append_right _ hg)
        fun s hs => List.mem_cons_of_mem _ hs

end

/-! ## The tables of a file -/

/-- What the tables of all scopes of a file share. -/
def FileContext.ofUnit (config : Config) (u : CompilationUnit) : FileContext :=
  ⟨config, u, FileIndex.ofUnit u⟩

lemma entries_buildTables (config : Config) (u : CompilationUnit) :
    ((buildTables config u).value p).entries =
      (scopeEntries (.ofUnit config u) ⟨.empty, 0⟩ 0 u.root).value p := by
  rw [buildTables, Query.value_bind, Query.value_pure]
  rfl

/-- There is one entry for each scope. -/
lemma map_node_buildTables (config : Config) (u : CompilationUnit) :
    ((buildTables config u).value p).entries.map (·.node) = u.scopeIds := by
  rw [entries_buildTables, map_node_scopeEntries, CompilationUnit.scopeIds]

namespace ScopeTables

/-- The scopes of a file, each with its entry. -/
def pairs (t : ScopeTables) (root : Scope) : List (Scope × ScopeEntry) :=
  root.descendants.zip t.entries

/-- The table is around the scope: that of the scope around it, and for the outermost scope the
empty table. -/
def Around (t : ScopeTables) (root s : Scope) (outer : SymbolTable) : Prop :=
  (s = root ∧ outer = .empty) ∨ ∃ f ∈ t.pairs root, s ∈ f.1.children ∧ f.2.table = outer

lemma around_top {t : ScopeTables} {root s : Scope} (hentries : t.entries ≠ [])
    (hs : s ∈ root.children) : t.Around root s t.root := by
  obtain ⟨e, es, hes⟩ := List.exists_cons_of_ne_nil hentries
  refine .inr ⟨(root, e), ?_, hs, ?_⟩
  · cases root with
    | node i cs =>
      rw [pairs, hes, Scope.descendants, List.zip_cons_cons]
      exact List.mem_cons_self
  · rw [ScopeTables.root, hes]

/-- If nodes differ, an entry is found by its node. -/
lemma get?_node {t : ScopeTables} (hnodes : (t.entries.map (·.node)).Nodup) {e : ScopeEntry}
    (he : e ∈ t.entries) : t.get? e.node = some e.table := by
  have hfound := find?_eq_some_of_mem (l := t.entries.reverse)
    (by rwa [List.map_reverse, List.nodup_reverse]) (List.mem_reverse.mpr he)
  rw [get?, hfound]
  rfl

end ScopeTables

section Pairs

variable {config : Config} {u : CompilationUnit} {s e : Scope} {f : ScopeEntry}
  {outer outer' : SymbolTable}

/-- The table of a scope is built inside the table around it. -/
lemma built_buildTables (hf : (s, f) ∈ ((buildTables config u).value p).pairs u.root) :
    f.node = s.info.id ∧ ∃ outer number, ((buildTables config u).value p).Around u.root s outer ∧
      f.table = (scopeTable (.ofUnit config u) ⟨outer, number⟩ s.info).value p := by
  have hbuilt := built_scopeEntries (.ofUnit config u) p ⟨.empty, 0⟩ 0 u.root
  rw [← entries_buildTables] at hbuilt
  obtain ⟨hnode, outer, number, htable, hplace⟩ := hbuilt (s, f) hf
  refine ⟨hnode, outer, number, ?_, htable⟩
  rcases hplace with ⟨htop, hparent⟩ | hplace
  · exact .inl ⟨List.mem_singleton.mp htop, hparent⟩
  · exact .inr hplace

variable (config) in
lemma exists_pair (hs : s ∈ u.root.descendants) :
    ∃ f, (s, f) ∈ ((buildTables config u).value p).pairs u.root := by
  have hlength := congrArg List.length (map_node_buildTables p config u)
  rw [CompilationUnit.scopeIds, List.length_map, List.length_map] at hlength
  have hfst : s ∈ (((buildTables config u).value p).pairs u.root).map (·.1) := by
    rwa [ScopeTables.pairs, List.map_fst_zip (by omega)]
  obtain ⟨⟨_, f⟩, hf, rfl⟩ := List.mem_map.mp hfst
  exact ⟨f, hf⟩

variable (config) in
/-- There is a table around every scope. -/
lemma exists_tableAround (hs : s ∈ u.root.descendants) :
    ∃ outer, ((buildTables config u).value p).Around u.root s outer := by
  obtain ⟨f, hf⟩ := exists_pair p config hs
  obtain ⟨-, outer, -, houter, -⟩ := built_buildTables p hf
  exact ⟨outer, houter⟩

/-- Every nested scope is a child of a scope, and its table is built inside the table of that
scope. -/
lemma nests_buildTables (config : Config) (u : CompilationUnit) {s : Scope}
    (hs : s ∈ Scope.descendantsOfAll u.root.children) :
    ∃ around ∈ u.root.descendants, s ∈ around.children ∧
      ∃ outer ∈ ((buildTables config u).value p).entries,
        ∃ inner ∈ ((buildTables config u).value p).entries,
          outer.node = around.info.id ∧ inner.node = s.info.id ∧ ∃ number,
            inner.table = (scopeTable (.ofUnit config u) ⟨outer.table, number⟩ s.info).value p := by
  obtain ⟨f, hf⟩ := exists_pair p config (Scope.mem_descendants.mpr (.inr hs))
  obtain ⟨hnode, outer, number, ⟨rfl, -⟩ | ⟨⟨around, g⟩, hg, hchild, rfl⟩, htable⟩ :=
    built_buildTables p hf
  · exact absurd hs (Scope.not_encloses_self _)
  · exact ⟨around, (List.of_mem_zip hg).1, hchild, g, (List.of_mem_zip hg).2, f,
      (List.of_mem_zip hf).2, (built_buildTables p hg).1, hnode, number, htable⟩

/-! ## Different identities -/

variable (hids : u.scopeIds.Nodup)

include hids

lemma nodup_nodes_buildTables :
    (((buildTables config u).value p).entries.map (·.node)).Nodup := by
  rw [map_node_buildTables]
  exact hids

lemma get?_of_pair (hf : (s, f) ∈ ((buildTables config u).value p).pairs u.root) :
    ((buildTables config u).value p).get? s.info.id = some f.table := by
  rw [← (built_buildTables p hf).1]
  exact ScopeTables.get?_node (nodup_nodes_buildTables p hids) (List.of_mem_zip hf).2

/-- Around a child is the table of its parent. -/
lemma around_child (hf : (e, f) ∈ ((buildTables config u).value p).pairs u.root)
    (hs : s ∈ e.children) (h : ((buildTables config u).value p).Around u.root s outer) :
    f.table = outer := by
  have he : e ∈ u.root.descendants := (List.of_mem_zip hf).1
  rcases h with ⟨rfl, -⟩ | ⟨⟨e', f'⟩, hf', hs', rfl⟩
  · exact absurd (Scope.encloses_of_mem he (Scope.encloses_child hs)) (Scope.not_encloses_self _)
  · obtain rfl := Scope.around_unique hids he (List.of_mem_zip hf').1 hs hs'
    exact Option.some.inj ((get?_of_pair p hids hf).symm.trans (get?_of_pair p hids hf'))

/-- There is one table around a scope at most. -/
lemma around_unique (h : ((buildTables config u).value p).Around u.root s outer)
    (h' : ((buildTables config u).value p).Around u.root s outer') : outer = outer' := by
  rcases h with ⟨rfl, rfl⟩ | ⟨⟨e, f⟩, hf, hs, rfl⟩
  · rcases h' with ⟨-, rfl⟩ | ⟨⟨e, f⟩, hf, hs, -⟩
    · rfl
    · exact absurd (Scope.encloses_of_mem (List.of_mem_zip hf).1 (Scope.encloses_child hs))
        (Scope.not_encloses_self _)
  · exact around_child p hids hf hs h'

end Pairs

/-! ## In a run -/

namespace Analysis

variable {config : Config} {p : Classpath} {a : Analysis} {u : CompilationUnit} {s : Scope}

/-- Whatever an analysis was used for, every scope of a file gets a table. -/
lemma Reaches.exists_pair (hreach : Reaches ⟨config, p, {}⟩ a) (hs : s ∈ u.root.descendants) :
    ∃ e, (s, e) ∈ (a.buildTables u).1.pairs u.root := by
  rw [hreach.buildTables_value]
  exact JavaScope.exists_pair p config hs

lemma Reaches.exists_tableAround (hreach : Reaches ⟨config, p, {}⟩ a)
    (hs : s ∈ u.root.descendants) : ∃ outer, (a.buildTables u).1.Around u.root s outer := by
  rw [hreach.buildTables_value]
  exact JavaScope.exists_tableAround p config hs

end Analysis

end JavaScope
