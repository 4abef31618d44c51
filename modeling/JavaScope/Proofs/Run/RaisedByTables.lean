/-
# What tables raise

What building the tables of a file raises is what building the tables of its scopes raises, each
at its place (`raised_buildTables`).
-/
import JavaScope.Proofs.Run.Records
import JavaScope.Proofs.Tables.Lexical

namespace JavaScope

/-- The place of the table of an entry. -/
def ScopeEntry.place (e : ScopeEntry) : TablePlace :=
  ⟨e.table.parent?.getD .empty, e.table.stamp?.getD 0⟩

section Tables

variable (x : FileContext) (p : Classpath)

lemma place_scopeTable (q : TablePlace) (i : ScopeInfo) (node : NodeId) (range : TextRange)
    (depth : Nat) :
    ScopeEntry.place ⟨node, range, depth, (scopeTable x q i).value p⟩ = q := by
  cases hkind : i.kind with
  | typeBody header =>
    rw [value_scopeTable_typeBody x p q hkind]
    rfl
  | compilationUnit =>
    simp only [scopeTable, hkind, Query.value_bind]
    rfl
  | _ =>
    simp only [scopeTable, hkind]
    rfl

mutual

/-- The tables of a scope and of those inside it raise what the table of each raises. -/
lemma raised_scopeEntries (q : TablePlace) (depth : Nat) :
    ∀ s : Scope, (scopeEntries x q depth s).raised p =
      (s.descendants.zip ((scopeEntries x q depth s).value p)).flatMap fun f =>
        (scopeTable x f.2.place f.1.info).raised p
  | .node i cs => by
    rw [value_scopeEntries, Scope.descendants, List.zip_cons_cons, List.flatMap_cons,
      place_scopeTable, ← raised_siblingEntries, scopeEntries, Query.raised_bind,
      Query.raised_bind, Query.raised_pure, List.append_nil]
    rfl

lemma raised_siblingEntries (q : TablePlace) (depth : Nat) :
    ∀ cs : List Scope, (siblingEntries x q depth cs).raised p =
      ((Scope.descendantsOfAll cs).zip ((siblingEntries x q depth cs).value p)).flatMap fun f =>
        (scopeTable x f.2.place f.1.info).raised p
  | [] => by
    rw [siblingEntries, Query.raised_pure]
    rfl
  | s :: rest => by
    have hlength := congrArg List.length (map_node_scopeEntries x p q depth s)
    rw [List.length_map, List.length_map] at hlength
    rw [siblingEntries, Query.raised_bind, Query.raised_bind, Query.raised_pure, Query.value_bind,
      Query.value_bind, Query.value_pure, Scope.descendantsOfAll, List.zip_append hlength.symm,
      List.flatMap_append, ← raised_scopeEntries, ← raised_siblingEntries, List.append_nil]

end

end Tables

lemma raised_buildTables (config : Config) (p : Classpath) (u : CompilationUnit) :
    (buildTables config u).raised p =
      (((buildTables config u).value p).pairs u.root).flatMap fun f =>
        (scopeTable (.ofUnit config u) f.2.place f.1.info).raised p := by
  rw [ScopeTables.pairs, entries_buildTables, ← raised_scopeEntries, buildTables, Query.raised_bind,
    Query.raised_pure, List.append_nil]
  rfl

section File

variable {p : Classpath} {config : Config} {u : CompilationUnit}

lemma raised_scopeTable_typeBody (x : FileContext) (hinherited : x.config.inheritedMembers = true)
    (q : TablePlace) {i : ScopeInfo} {header : TypeHeader} (hkind : i.kind = .typeBody header) :
    (scopeTable x q i).raised p =
      (inheritedLevels x.config x.index q.parent header (x.index.declaredAt i.id)).raised p := by
  simp only [scopeTable, hkind]
  rw [if_pos hinherited, Query.raised_bind, Query.raised_pure, List.append_nil]

/-- The place of a table is inside the table around its scope. -/
lemma around_place {s : Scope} {f : ScopeEntry}
    (hf : (s, f) ∈ ((buildTables config u).value p).pairs u.root) :
    ((buildTables config u).value p).Around u.root s f.place.parent := by
  obtain ⟨-, outer, number, houter, htable⟩ := built_buildTables p hf
  obtain ⟨node, range, depth, table⟩ := f
  obtain rfl := htable
  rw [place_scopeTable]
  exact houter

/-- Tables around scopes ask for names without dots. -/
lemma dotless_around {s : Scope} {outer : SymbolTable}
    (h : ((buildTables config u).value p).Around u.root s outer) : outer.Dotless := by
  rcases h with ⟨-, rfl⟩ | ⟨f, hf, -, rfl⟩
  · exact fun g hg => nomatch hg
  · exact (ensures_buildTables config u).value p f.2 (List.of_mem_zip hf).2

end File

end JavaScope
