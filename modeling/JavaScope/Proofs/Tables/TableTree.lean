/-
# The tree of tables

The entries of a file are those of its scopes, in the order in which a walk takes the scopes.
Around the table of a scope is the very table of the scope around it, whatever the classpath has;
a node stands for the last scope that has it, and methods belong to the type whose body is the
nearest around them (`buildTables_followsScopes`).

Several scopes may have the same identity and even be alike in all respects, and so scopes and
entries are told apart by their places in a tree (`TableTree`).
-/
import Mathlib.Data.List.Find
import JavaScope.Proofs.Tables.Nesting

namespace JavaScope

/-! ## Whatever is answered -/

namespace Query

variable {α β : Type} {P : α → Prop} {Q : β → Prop} {q : Query α} {f : α → Query β}

/-- The result of a query has the property, whatever the query is told. -/
inductive Gives (P : α → Prop) : Query α → Prop
  | done {a : α} : P a → Gives P (done a)
  | ask {name : String} {next : Option ClassStub → Query α} :
      (∀ stub, Gives P (next stub)) → Gives P (ask name next)
  | warn {d : Diagnostic} {next : Query α} : Gives P next → Gives P (warn d next)

lemma gives_true (q : Query α) : q.Gives fun _ => True := by
  induction q with
  | done a => exact .done trivial
  | ask name next ih => exact .ask ih
  | warn d next ih => exact .warn ih

lemma Gives.bind (hq : q.Gives P) (hf : ∀ a, P a → (f a).Gives Q) : (q >>= f).Gives Q := by
  rw [bind_eq]
  induction hq with
  | done ha => exact hf _ ha
  | ask _ ih => exact .ask ih
  | warn _ ih => exact .warn ih

/-- A store tells the query something. -/
lemma Gives.run (hq : q.Gives P) (p : Classpath) (s : Store) : P (Store.run p q s).1 := by
  induction hq generalizing s with
  | done ha => exact ha
  | ask _ ih => exact ih _ _
  | warn _ ih => exact ih _

end Query

/-! ## Trees of entries -/

/-- Scopes nested in each other, each with its entry. -/
inductive TableTree
  | node (info : ScopeInfo) (entry : ScopeEntry) (inside : List TableTree)

namespace TableTree

/-- The scope at the root by itself. -/
def info : TableTree → ScopeInfo
  | node i _ _ => i

/-- The entry of the scope at the root. -/
def entry : TableTree → ScopeEntry
  | node _ e _ => e

/-- The trees of the scopes directly inside. -/
def inside : TableTree → List TableTree
  | node _ _ ts => ts

mutual

/-- The scopes without their entries. -/
def scope : TableTree → Scope
  | node i _ ts => .node i (scopesOfAll ts)

/-- The scopes of a list of trees. -/
def scopesOfAll : List TableTree → List Scope
  | [] => []
  | t :: ts => t.scope :: scopesOfAll ts

end

mutual

/-- The tree and all trees inside it, each before those inside it. -/
def subtrees : TableTree → List TableTree
  | node i e ts => node i e ts :: subtreesOfAll ts

/-- The trees of a list, each followed by those inside it. -/
def subtreesOfAll : List TableTree → List TableTree
  | [] => []
  | t :: ts => t.subtrees ++ subtreesOfAll ts

end

/-- Induction along the tree. -/
@[elab_as_elim]
theorem induct {P : TableTree → Prop} (node : ∀ i e ts, (∀ t ∈ ts, P t) → P (.node i e ts)) :
    ∀ t, P t
  | .node i e ts => node i e ts fun t _ => induct node t

variable {tree t c : TableTree}

lemma scopesOfAll_eq (ts : List TableTree) : scopesOfAll ts = ts.map scope := by
  induction ts with
  | nil => rfl
  | cons t ts ih => rw [scopesOfAll, ih, List.map_cons]

lemma subtreesOfAll_eq (ts : List TableTree) : subtreesOfAll ts = ts.flatMap subtrees := by
  induction ts with
  | nil => rfl
  | cons t ts ih => rw [subtreesOfAll, ih, List.flatMap_cons]

lemma subtrees_eq (t : TableTree) : t.subtrees = t :: t.inside.flatMap subtrees := by
  cases t with
  | node i e ts => rw [subtrees, subtreesOfAll_eq, inside]

lemma info_scope (t : TableTree) : t.scope.info = t.info := by
  cases t with
  | node i e ts => rw [scope, Scope.info, info]

lemma children_scope (t : TableTree) : t.scope.children = t.inside.map scope := by
  cases t with
  | node i e ts => rw [scope, Scope.children, scopesOfAll_eq, inside]

/-- The trees inside are those of the scopes inside, in order. -/
lemma map_scope_subtrees (t : TableTree) : t.subtrees.map scope = t.scope.descendants := by
  induction t using induct with
  | node i e ts ih =>
    rw [subtrees, List.map_cons, subtreesOfAll_eq, List.map_flatMap, List.flatMap_congr ih, scope,
      scopesOfAll_eq, Scope.descendants, Scope.descendantsOfAll_eq, List.flatMap_map]

/-- The tree holds the scopes and the entries of a file, each scope with an entry that has its
identity and its range. -/
structure Arranges (tree : TableTree) (root : Scope) (t : ScopeTables) : Prop where
  scope_eq : tree.scope = root
  entries_eq : tree.subtrees.map entry = t.entries
  entry_of : ∀ s ∈ tree.subtrees, s.entry.node = s.info.id ∧ s.entry.range = s.info.range

/-! ## Tables inside tables -/

/-- The entry is that of the scope, with a table that has its place inside another. -/
structure Stands (q : TablePlace) (depth : Nat) (i : ScopeInfo) (e : ScopeEntry) : Prop where
  node : e.node = i.id
  range : e.range = i.range
  depth : e.depth = depth
  parent : e.table.parent? = some q.parent
  stamp : e.table.stamp? = some q.number

mutual

/-- Each table has its place inside the table of the scope around it, the outermost one at the
place `q`; the scopes are numbered in order. -/
def Linked (q : TablePlace) (depth : Nat) : TableTree → Prop
  | node i e ts => Stands q depth i e ∧ LinkedAll ⟨e.table, q.number + 1⟩ (depth + 1) ts

/-- The same for trees next to each other. -/
def LinkedAll (q : TablePlace) (depth : Nat) : List TableTree → Prop
  | [] => True
  | t :: ts =>
    t.Linked q depth ∧ LinkedAll { q with number := q.number + t.subtrees.length } depth ts

end

section Linked

variable {q : TablePlace} {depth : Nat}

lemma Linked.stands (h : t.Linked q depth) : Stands q depth t.info t.entry := by
  cases t with
  | node i e ts => exact h.1

lemma LinkedAll.of_mem {ts : List TableTree} (h : LinkedAll q depth ts) (hc : c ∈ ts) :
    ∃ number, c.Linked ⟨q.parent, number⟩ depth := by
  induction ts generalizing q with
  | nil => cases hc
  | cons t ts ih =>
    rcases List.mem_cons.mp hc with rfl | hc
    · exact ⟨q.number, h.1⟩
    · -- a later tree has another number, but the same table around it
      have hfound := ih h.2 hc
      exact hfound

lemma Linked.child (h : t.Linked q depth) (hc : c ∈ t.inside) :
    ∃ number, c.Linked ⟨t.entry.table, number⟩ (depth + 1) := by
  cases t with
  | node i e ts => exact h.2.of_mem hc

lemma Linked.of_mem (h : tree.Linked q depth) (ht : t ∈ tree.subtrees) :
    ∃ q' depth', t.Linked q' depth' := by
  induction tree using TableTree.induct generalizing q depth with
  | node i e ts ih =>
    rw [subtrees_eq] at ht
    rcases List.mem_cons.mp ht with rfl | ht
    · exact ⟨q, depth, h⟩
    · obtain ⟨c, hc, ht⟩ := List.mem_flatMap.mp ht
      obtain ⟨number, hlinked⟩ := h.child hc
      exact ih c hc hlinked ht

/-- The table around that of a scope directly inside another is the table of the other. -/
lemma Linked.around (h : tree.Linked q depth) (ht : t ∈ tree.subtrees) (hc : c ∈ t.inside) :
    c.entry.depth = t.entry.depth + 1 ∧ c.entry.table.parent? = some t.entry.table := by
  obtain ⟨q', depth', ht⟩ := h.of_mem ht
  obtain ⟨number, hc⟩ := ht.child hc
  exact ⟨by rw [hc.stands.depth, ht.stands.depth], hc.stands.parent⟩

mutual

/-- The stamps are the numbers of the scopes, one after the other. -/
lemma Linked.stamps {q : TablePlace} {depth : Nat} :
    ∀ t : TableTree, t.Linked q depth →
      t.subtrees.map (·.entry.table.stamp?) = (List.range' q.number t.subtrees.length).map some
  | node i e ts, h => by
    rw [subtrees, List.map_cons, List.length_cons, List.range'_succ, List.map_cons,
      LinkedAll.stamps ts h.2]
    exact congrArg (· :: _) h.1.stamp

lemma LinkedAll.stamps {q : TablePlace} {depth : Nat} :
    ∀ ts : List TableTree, LinkedAll q depth ts →
      (subtreesOfAll ts).map (·.entry.table.stamp?) =
        (List.range' q.number (subtreesOfAll ts).length).map some
  | [], _ => rfl
  | t :: ts, h => by
    rw [subtreesOfAll, List.map_append, List.length_append, ← List.range'_append_1,
      List.map_append, Linked.stamps t h.1, LinkedAll.stamps ts h.2]

end

/-- No two scopes have the same table. -/
lemma Linked.pairwise (h : tree.Linked q depth) :
    (tree.subtrees.map entry).Pairwise fun e f => e.table.sameTable f.table = false := by
  have hstamps : (tree.subtrees.map (·.entry.table.stamp?)).Nodup := by
    rw [Linked.stamps tree h]
    exact (List.nodup_range' 1).map fun _ _ => Option.some.inj
  rw [List.pairwise_map]
  refine (List.pairwise_map.mp hstamps).imp fun hne => ?_
  simpa [SymbolTable.sameTable] using hne

end Linked

end TableTree

/-! ## The tables of a file -/

section Entries

open TableTree (Linked LinkedAll)

variable (x : FileContext)

lemma gives_scopeTable (q : TablePlace) (i : ScopeInfo) :
    (scopeTable x q i).Gives fun t => t.parent? = some q.parent ∧ t.stamp? = some q.number := by
  cases hkind : i.kind with
  | compilationUnit =>
    simp only [scopeTable, hkind]
    exact (Query.gives_true _).bind fun imported _ => .done ⟨rfl, rfl⟩
  | typeBody header =>
    simp only [scopeTable, hkind]
    split
    · exact (Query.gives_true _).bind fun levels _ => .done ⟨rfl, rfl⟩
    · exact .done ⟨rfl, rfl⟩
  | _ =>
    simp only [scopeTable, hkind]
    exact .done ⟨rfl, rfl⟩

mutual

/-- The entries of a scope and of those inside it are those of a tree of linked tables. -/
lemma gives_scopeEntries (q : TablePlace) (depth : Nat) :
    ∀ s : Scope, (scopeEntries x q depth s).Gives fun es =>
      ∃ t : TableTree, t.scope = s ∧ t.subtrees.map (·.entry) = es ∧ t.Linked q depth
  | .node i cs => by
    rw [scopeEntries]
    refine (gives_scopeTable x q i).bind fun table ⟨hparent, hstamp⟩ => ?_
    refine (gives_siblingEntries ⟨table, q.number + 1⟩ (depth + 1) cs).bind ?_
    rintro es ⟨ts, rfl, rfl, hlinked⟩
    exact .done ⟨.node i ⟨i.id, i.range, depth, table⟩ ts, rfl, rfl,
      ⟨rfl, rfl, rfl, hparent, hstamp⟩, hlinked⟩

lemma gives_siblingEntries (q : TablePlace) (depth : Nat) :
    ∀ cs : List Scope, (siblingEntries x q depth cs).Gives fun es =>
      ∃ ts : List TableTree, TableTree.scopesOfAll ts = cs ∧
        (TableTree.subtreesOfAll ts).map (·.entry) = es ∧ LinkedAll q depth ts
  | [] => by
    rw [siblingEntries]
    exact .done ⟨[], rfl, rfl, trivial⟩
  | s :: rest => by
    rw [siblingEntries]
    refine (gives_scopeEntries q depth s).bind ?_
    rintro es ⟨t, rfl, rfl, hlinked⟩
    refine (gives_siblingEntries _ depth rest).bind ?_
    rintro es ⟨ts, rfl, rfl, hothers⟩
    refine .done ⟨t :: ts, rfl, ?_, hlinked, ?_⟩
    · rw [TableTree.subtreesOfAll, List.map_append]
    · rwa [List.length_map] at hothers

end

end Entries

/-- The last item of a list that passes a test. -/
lemma find?_reverse_eq_some {α : Type} {l : List α} {f : α → Bool} {a : α} :
    l.reverse.find? f = some a ↔
      f a ∧ ∃ before after, l = before ++ a :: after ∧ ∀ b ∈ after, f b = false := by
  rw [List.find?_eq_some_iff_append]
  refine and_congr_right fun _ => ⟨?_, ?_⟩
  · rintro ⟨after, before, hl, hafter⟩
    refine ⟨before.reverse, after.reverse, ?_, ?_⟩
    · rw [← List.reverse_reverse l, hl]
      simp
    · simpa using hafter
  · rintro ⟨before, after, rfl, hafter⟩
    exact ⟨after.reverse, before.reverse, by simp, by simpa using hafter⟩

namespace TableTree.Arranges

variable {tree : TableTree} {root : Scope} {t : ScopeTables}

lemma map_info (h : tree.Arranges root t) :
    tree.subtrees.map (·.info.id) = root.descendants.map (·.info.id) := by
  rw [← h.scope_eq, ← map_scope_subtrees, List.map_map]
  exact List.map_congr_left fun s _ => by rw [Function.comp_apply, info_scope]

/-- The tables of nodes, told by the scopes. -/
lemma get?_eq (h : tree.Arranges root t) (id : NodeId) :
    t.get? id = (tree.subtrees.reverse.find? fun s => s.info.id = id).map (·.entry.table) := by
  have hkey : tree.subtrees.reverse.find? (fun s => s.entry.node = id) =
      tree.subtrees.reverse.find? fun s => s.info.id = id :=
    List.find?_congr fun s hs => by rw [(h.entry_of s (List.mem_reverse.mp hs)).1]
  rw [ScopeTables.get?, ← h.entries_eq, ← List.map_reverse, List.find?_map, Option.map_map, ← hkey]
  rfl

/-- A node stands for the last scope that has it. -/
lemma get?_eq_some (h : tree.Arranges root t) {id : NodeId} {table : SymbolTable} :
    t.get? id = some table ↔ ∃ before s after, tree.subtrees = before ++ s :: after ∧
      s.info.id = id ∧ (∀ s' ∈ after, s'.info.id ≠ id) ∧ s.entry.table = table := by
  rw [h.get?_eq, Option.map_eq_some_iff]
  constructor
  · rintro ⟨s, hs, htable⟩
    obtain ⟨hid, before, after, hsubtrees, hafter⟩ := find?_reverse_eq_some.mp hs
    exact ⟨before, s, after, hsubtrees, by simpa using hid, by simpa using hafter, htable⟩
  · rintro ⟨before, s, after, hsubtrees, hid, hafter, htable⟩
    exact ⟨s, find?_reverse_eq_some.mpr
      ⟨by simpa using hid, before, after, hsubtrees, by simpa using hafter⟩, htable⟩

/-- A node that no scope has stands for nothing. -/
lemma get?_eq_none (h : tree.Arranges root t) {id : NodeId} :
    t.get? id = none ↔ id ∉ root.descendants.map (·.info.id) := by
  rw [h.get?_eq, Option.map_eq_none_iff, List.find?_eq_none, ← h.map_info]
  simp

lemma map_node (h : tree.Arranges root t) :
    t.entries.map (·.node) = root.descendants.map (·.info.id) := by
  rw [← h.entries_eq, ← h.map_info, List.map_map]
  exact List.map_congr_left fun s hs => (h.entry_of s hs).1

end TableTree.Arranges

namespace Analysis

open TableTree (Linked)

/-- The tables of a file are those of a tree, whatever the store of the run has. -/
lemma exists_linked (a : Analysis) (u : CompilationUnit) :
    ∃ tree : TableTree, tree.Arranges u.root (a.buildTables u).1 ∧ tree.Linked ⟨.empty, 0⟩ 0 := by
  have hgives : (JavaScope.buildTables a.config u).Gives fun t =>
      ∃ tree : TableTree, tree.Arranges u.root t ∧ tree.Linked ⟨.empty, 0⟩ 0 := by
    refine (gives_scopeEntries (.ofUnit a.config u) ⟨.empty, 0⟩ 0 u.root).bind ?_
    rintro es ⟨tree, hscope, hentries, hlinked⟩
    refine .done ⟨tree, ⟨hscope, hentries, fun s hs => ?_⟩, hlinked⟩
    obtain ⟨q, depth, hs⟩ := hlinked.of_mem hs
    exact ⟨hs.stands.node, hs.stands.range⟩
  exact hgives.run a.classpath a.store

/-- A file has one table for each scope, in the order of a walk through the scopes.

The outermost table is inside the empty one; every other one is one level deeper than the table of
the scope around it, and inside this very table.  A node stands for the table of the last scope that
has it, and for none if no scope has it.  If the identities of scopes differ, a method declared in a
scope names as its declaring type the one whose body is the nearest around the scope, or the scope
itself, and the empty name if there is none. -/
theorem buildTables_followsScopes (a : Analysis) (u : CompilationUnit) :
    let tables := (a.buildTables u).1
    tables.entries.map (·.node) = (Scope.walk [u.root]).map (·.info.id) ∧
      (∃ tree : TableTree, tree.Arranges u.root tables ∧
        tree.entry.depth = 0 ∧ tree.entry.table.parent? = some .empty ∧
        (∀ t ∈ tree.subtrees, ∀ c ∈ t.inside,
          c.entry.depth = t.entry.depth + 1 ∧ c.entry.table.parent? = some t.entry.table) ∧
        ∀ id table, tables.get? id = some table ↔
          ∃ before s after, tree.subtrees = before ++ s :: after ∧ s.info.id = id ∧
            (∀ s' ∈ after, s'.info.id ≠ id) ∧ s.entry.table = table) ∧
      tables.entries.Pairwise (fun e f => e.table.sameTable f.table = false) ∧
      (∀ id, tables.get? id = none ↔ id ∉ (Scope.walk [u.root]).map (·.info.id)) ∧
      (u.scopeIds.Nodup → ∀ s ∈ Scope.walk [u.root], ∃ name, Scope.TypeAround "" u.root s name ∧
        (FileIndex.ofUnit u).declaredAt s.info.id = .symbolsOf u.file name s.info.decls ∧
        ∀ m ∈ ((FileIndex.ofUnit u).declaredAt s.info.id).methods, m.declaringType = name) := by
  intro tables
  obtain ⟨tree, htree, hlinked⟩ := exists_linked a u
  have hwalk : Scope.walk [u.root] = u.root.descendants := by
    rw [Scope.walk_eq, Scope.descendantsOfAll, Scope.descendantsOfAll, List.append_nil]
  rw [hwalk]
  refine ⟨htree.map_node, ⟨tree, htree, hlinked.stands.depth, hlinked.stands.parent,
    fun t ht c hc => hlinked.around ht hc, fun id table => htree.get?_eq_some⟩,
    htree.entries_eq ▸ hlinked.pairwise, fun id => htree.get?_eq_none, fun hids s hs => ?_⟩
  obtain ⟨name, haround, hmem⟩ := Scope.exists_typeAround hids hs ""
  have hdeclared := FileIndex.declaredAt_of_mem hids hmem
  refine ⟨name, haround, hdeclared, fun m hm => ?_⟩
  rw [hdeclared] at hm
  exact declaringType_of_mem_symbolsOf hm

/-- A file with a class that has a class in the body of its only method. -/
def localClass : CompilationUnit where
  file := ⟨0⟩
  package := none
  imports := []
  root := .node ⟨⟨0⟩, .compilationUnit, ⟨0, 80⟩, [.type ⟨⟨1⟩, "A", .normalClass, .none⟩]⟩
    [.node ⟨⟨2⟩, .typeBody ⟨"A", none, []⟩, ⟨10, 80⟩, [.method ⟨⟨3⟩, "f", .none, [], none⟩]⟩
      [.node ⟨⟨4⟩, .methodBody, ⟨20, 70⟩, [.type ⟨⟨5⟩, "A$1L", .normalClass, .none⟩]⟩
        [.node ⟨⟨6⟩, .typeBody ⟨"A$1L", none, []⟩, ⟨30, 60⟩,
          [.method ⟨⟨7⟩, "g", .none, [], none⟩]⟩ []]]]

/-- The entries of the four scopes stand in the order of their nodes, and each scope has the type
around it as its declaring type. -/
theorem buildTables_followsScopes_localClass :
    let a : Analysis := ⟨{}, MemoryClasspath.toClasspath {}, {}⟩
    let u := localClass
    (a.buildTables u).1.entries.map (·.node) = [⟨0⟩, ⟨2⟩, ⟨4⟩, ⟨6⟩] ∧ u.scopeIds.Nodup ∧
      ∀ s ∈ Scope.walk [u.root], ∃ name, Scope.TypeAround "" u.root s name ∧
        (FileIndex.ofUnit u).declaredAt s.info.id = .symbolsOf u.file name s.info.decls ∧
        ∀ m ∈ ((FileIndex.ofUnit u).declaredAt s.info.id).methods, m.declaringType = name := by
  intro a u
  obtain ⟨hnodes, -, -, -, hdeclaring⟩ := buildTables_followsScopes a u
  have hids : u.scopeIds.Nodup := by decide
  refine ⟨hnodes.trans ?_, hids, hdeclaring hids⟩
  rw [Scope.walk_eq]
  rfl

end Analysis

end JavaScope
