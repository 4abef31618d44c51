/-
# The order of scopes

The scopes inside a scope may stand in any order (`Scope.Reorders`).  The index of the file is made
before any table, and gives the same answers for each order (`FileIndex.alike_of_reorders`); so a
type may use another one whose body comes later in the file.  At every scope all names mean the
same, whatever the order (`get?_of_reorders`).
-/
import JavaScope.Proofs.Tables.InheritedMethods
import JavaScope.Proofs.Tables.Stamps

namespace JavaScope

/-! ## Reordered scopes -/

/-- Two trees have the same scopes, each inside the same scope, but scopes inside one scope may
stand in another order. -/
inductive Scope.Reorders : Scope → Scope → Prop
  | children {i : ScopeInfo} {cs cs' : List Scope} :
      cs.Perm cs' → Reorders (.node i cs) (.node i cs')
  | inside {i : ScopeInfo} {before after : List Scope} {c c' : Scope} : Reorders c c' →
      Reorders (.node i (before ++ c :: after)) (.node i (before ++ c' :: after))
  | trans {r s t : Scope} : Reorders r s → Reorders s t → Reorders r t

/-- A walk that hands something down from each scope to all scopes directly inside finds the same
in each order of the scopes. -/
lemma Scope.Reorders.perm {σ β : Type} (walk : σ → Scope → List β)
    (step : σ → ScopeInfo → β × σ)
    (hwalk : ∀ a i cs, walk a (.node i cs) = (step a i).1 :: cs.flatMap (walk (step a i).2))
    {r r' : Scope} (h : r.Reorders r') (a : σ) : (walk a r).Perm (walk a r') := by
  induction h generalizing a with
  | children hcs =>
    rw [hwalk, hwalk]
    exact (hcs.flatMap_right _).cons _
  | inside _ ih =>
    simp only [hwalk, List.flatMap_append, List.flatMap_cons]
    exact (((ih _).append_right _).append_left _).cons _
  | trans _ _ ih ih' => exact (ih a).trans (ih' a)

namespace Scope

lemma Reorders.perm_withDeclaring {r r' : Scope} (h : r.Reorders r') (enclosing : String) :
    (r.withDeclaring enclosing).Perm (r'.withDeclaring enclosing) := by
  refine h.perm withDeclaring (fun t i => ((i, i.declaringType t), i.declaringType t))
    (fun t i cs => ?_) enclosing
  rw [withDeclaring, withDeclaringAll_eq]

end Scope

/-! ## The index of a file -/

lemma perm_reverse {α : Type} {l l' : List α} (h : l.Perm l') : l.reverse.Perm l'.reverse :=
  (List.reverse_perm l).trans (h.trans (List.reverse_perm l').symm)

/-- The index of a file with other orders of scopes gives the same answers. -/
lemma FileIndex.alike_of_reorders {u : CompilationUnit} (hids : u.scopeIds.Nodup)
    (hbodies : u.bodyNames.Nodup) (hdistinct : u.DistinctTypes) {root' : Scope}
    (h : u.root.Reorders root') : (ofUnit u).Alike (ofUnit { u with root := root' }) := by
  have hscopes := h.perm_withDeclaring ""
  -- identities and bodies have keys of their own; names of type parameters may repeat, but not kinds
  refine ⟨rfl, fun node => ?_, fun name => ?_, fun name => ?_⟩
  · exact congrArg (·.getD {})
      (lookup_eq_of_perm (perm_reverse (hscopes.map _))
        (value_eq_of_nodup_keys (nodup_declared hids)) node)
  · exact lookup_eq_of_perm (perm_reverse (hscopes.filterMap _))
      (value_eq_of_nodup_keys (nodup_bodies hbodies)) name
  · have hkinds : (ofUnit u).kinds.Perm (ofUnit { u with root := root' }).kinds :=
      perm_reverse (hscopes.flatMap_right _)
    rw [kindOf, kindOf, lookup_eq_of_perm hkinds fun n k k' hk hk' => ?_]
    obtain ⟨d, hd, rfl, rfl⟩ := mem_kinds_ofUnit.mp hk
    obtain ⟨d', hd', hname, rfl⟩ := mem_kinds_ofUnit.mp hk'
    exact hdistinct.kind_eq hd hd' hname.symm

/-! ## The tables of a file -/

/-- The node of an entry, and what names mean in its table. -/
def ScopeEntry.shown (e : ScopeEntry) : NodeId × SymbolTable := (e.node, e.table.unstamped)

section Entries

variable {x x' : FileContext} (p : Classpath)

lemma value_unstamped_scopeTable (hx : x.Alike x') {outer outer' : SymbolTable}
    (houter : outer.unstamped = outer'.unstamped) (number number' : Nat) (i : ScopeInfo) :
    ((scopeTable x ⟨outer, number⟩ i).value p).unstamped =
      ((scopeTable x' ⟨outer', number'⟩ i).value p).unstamped := by
  have hvalue := congrArg (Query.value p)
    (unstamped_scopeTable hx ⟨outer, number⟩ ⟨outer', number'⟩ houter i)
  rwa [Query.value_map, Query.value_map] at hvalue

mutual

lemma shown_scopeEntries (hx : x.Alike x') {outer outer' : SymbolTable}
    (houter : outer.unstamped = outer'.unstamped) (number number' depth depth' : Nat) :
    ∀ s : Scope,
      ((scopeEntries x ⟨outer, number⟩ depth s).value p).map ScopeEntry.shown =
        ((scopeEntries x' ⟨outer', number'⟩ depth' s).value p).map ScopeEntry.shown
  | .node i cs => by
    have htable := value_unstamped_scopeTable p hx houter number number' i
    rw [value_scopeEntries, value_scopeEntries, List.map_cons, List.map_cons,
      shown_siblingEntries hx htable _ _ _ _ cs, ScopeEntry.shown, ScopeEntry.shown, htable]

lemma shown_siblingEntries (hx : x.Alike x') {outer outer' : SymbolTable}
    (houter : outer.unstamped = outer'.unstamped) (number number' depth depth' : Nat) :
    ∀ cs : List Scope,
      ((siblingEntries x ⟨outer, number⟩ depth cs).value p).map ScopeEntry.shown =
        ((siblingEntries x' ⟨outer', number'⟩ depth' cs).value p).map ScopeEntry.shown
  | [] => rfl
  | c :: rest => by
    obtain ⟨next, hvalue⟩ := value_siblingEntries x p ⟨outer, number⟩ depth c rest
    obtain ⟨next', hvalue'⟩ := value_siblingEntries x' p ⟨outer', number'⟩ depth' c rest
    rw [hvalue, hvalue', List.map_append, List.map_append,
      shown_scopeEntries hx houter number number' depth depth' c,
      shown_siblingEntries hx houter next next' depth depth' rest]

end

end Entries

/-- Siblings have the entries that each of them would have alone. -/
lemma shown_siblingEntries_eq (x : FileContext) (p : Classpath) (outer : SymbolTable)
    (number depth : Nat) (cs : List Scope) :
    ((siblingEntries x ⟨outer, number⟩ depth cs).value p).map ScopeEntry.shown =
      cs.flatMap fun c => ((scopeEntries x ⟨outer, 0⟩ 0 c).value p).map ScopeEntry.shown := by
  induction cs generalizing number with
  | nil => rfl
  | cons c rest ih =>
    obtain ⟨next, hvalue⟩ := value_siblingEntries x p ⟨outer, number⟩ depth c rest
    rw [hvalue, List.map_append, ih, List.flatMap_cons,
      shown_scopeEntries p (.refl x) rfl number 0 depth 0 c]

/-- In each order of the scopes, the same nodes come with the same names. -/
lemma Scope.Reorders.perm_shown {r r' : Scope} (h : r.Reorders r') (x : FileContext)
    (p : Classpath) (outer : SymbolTable) :
    (((scopeEntries x ⟨outer, 0⟩ 0 r).value p).map ScopeEntry.shown).Perm
      (((scopeEntries x ⟨outer, 0⟩ 0 r').value p).map ScopeEntry.shown) := by
  let table (outer : SymbolTable) (i : ScopeInfo) := (scopeTable x ⟨outer, 0⟩ i).value p
  refine h.perm (fun outer r => ((scopeEntries x ⟨outer, 0⟩ 0 r).value p).map ScopeEntry.shown)
    (fun outer i => ((i.id, (table outer i).unstamped), table outer i)) (fun outer i cs => ?_) outer
  rw [value_scopeEntries, List.map_cons, shown_siblingEntries_eq]
  rfl

lemma ScopeTables.unstamped_get? (t : ScopeTables) (node : NodeId) :
    (t.get? node).map SymbolTable.unstamped =
      (t.entries.map ScopeEntry.shown).reverse.lookup node := by
  rw [get?, ← List.map_reverse, Option.map_map]
  induction t.entries.reverse with
  | nil => rfl
  | cons e rest ih =>
    rw [List.map_cons, List.find?_cons, List.lookup_cons, ScopeEntry.shown]
    by_cases hnode : e.node = node
    · simp [hnode]
    · simpa [hnode, beq_false_of_ne (Ne.symm hnode)] using ih

/-- What a file shows at a node does not depend on the order of its scopes. -/
lemma unstamped_get?_of_reorders (config : Config) (p : Classpath) {u : CompilationUnit}
    (hids : u.scopeIds.Nodup) (hbodies : u.bodyNames.Nodup) (hdistinct : u.DistinctTypes)
    {root' : Scope} (h : u.root.Reorders root') (node : NodeId) :
    (((buildTables config u).value p).get? node).map SymbolTable.unstamped =
      (((buildTables config { u with root := root' }).value p).get? node).map
        SymbolTable.unstamped := by
  have hx : (FileContext.ofUnit config u).Alike (.ofUnit config { u with root := root' }) :=
    ⟨rfl, rfl, rfl, rfl, FileIndex.alike_of_reorders hids hbodies hdistinct h⟩
  -- reorder first with the index of the old file, then change to that of the new one
  have hperm := h.perm_shown (.ofUnit config u) p .empty
  rw [shown_scopeEntries p hx rfl 0 0 0 0 root', ← entries_buildTables] at hperm
  have hperm' := perm_reverse (hperm.trans (.of_eq
    (congrArg (List.map ScopeEntry.shown) (entries_buildTables p config _).symm)))
  rw [ScopeTables.unstamped_get?, ScopeTables.unstamped_get?]
  refine lookup_eq_of_perm hperm' (value_eq_of_nodup_keys ?_) node
  rw [List.map_reverse, List.nodup_reverse, List.map_map]
  exact nodup_nodes_buildTables p hids

/-! ## Outcomes -/

/-- Names have the same outcomes in two tables: the same symbols in the same order, found in frames
of the same kind at the same place, and ambiguous in both or in neither.  Look-ups of types are
queries; `answer` and `answer'` answer them. -/
structure SameOutcomes
    (answer answer' : Query (Option (Found TypeSymbol)) → Option (Found TypeSymbol))
    (t t' : SymbolTable) : Prop where
  values : ∀ name,
    (t.resolveValue name).map Found.unstamped = (t'.resolveValue name).map Found.unstamped
  types : ∀ name, (answer (t.resolveType name)).map Found.unstamped =
    (answer' (t'.resolveType name)).map Found.unstamped
  methods : ∀ name limit, t.methodCandidates name limit = t'.methodCandidates name limit

/-- Tables that differ in stamps only give names the same outcomes. -/
lemma sameOutcomes_of_unstamped
    {answer answer' : Query (Option (Found TypeSymbol)) → Option (Found TypeSymbol)}
    {p : Classpath} (hanswer : ∀ q, answer q = q.value p) (hanswer' : ∀ q, answer' q = q.value p)
    {t t' : SymbolTable} (h : t.unstamped = t'.unstamped) : SameOutcomes answer answer' t t' where
  values name := by
    rw [← t.resolveValue_unstamped, ← t'.resolveValue_unstamped, h]
  types name := by
    have hsame : Option.map Found.unstamped <$> t.resolveType name =
        Option.map Found.unstamped <$> t'.resolveType name := by
      rw [← t.resolveType_unstamped, ← t'.resolveType_unstamped, h]
    have hvalue := congrArg (Query.value p) hsame
    rw [hanswer, hanswer']
    rwa [Query.value_map, Query.value_map] at hvalue
  methods name limit := by
    rw [← t.methodCandidates_unstamped, ← t'.methodCandidates_unstamped, h]

namespace Analysis

/-- Take a file whose scopes have different identities, whose bodies belong to types with different
binary names, and whose declared types have different binary names too.  If the scopes inside of
scopes stand in another order, then at every scope all names have the same outcomes, whatever the
analyses did before and whenever types are looked up. -/
theorem get?_of_reorders {config : Config} {p : Classpath} {a a' later later' : Analysis}
    (hreach : Reaches ⟨config, p, {}⟩ a) (hreach' : Reaches ⟨config, p, {}⟩ a')
    (hlater : Reaches ⟨config, p, {}⟩ later) (hlater' : Reaches ⟨config, p, {}⟩ later')
    {u : CompilationUnit} (hids : u.scopeIds.Nodup) (hbodies : u.bodyNames.Nodup)
    (hdistinct : u.DistinctTypes) {root' : Scope} (h : u.root.Reorders root') :
    ∀ node ∈ u.scopeIds, ∃ t t', (a.buildTables u).1.get? node = some t ∧
      (a'.buildTables { u with root := root' }).1.get? node = some t' ∧
      SameOutcomes (fun q => (later.answer q).1) (fun q => (later'.answer q).1) t t' := by
  intro node hnode
  obtain ⟨s, hs, rfl⟩ := List.mem_map.mp hnode
  obtain ⟨f, hf⟩ := exists_pair p config hs
  have ht := get?_of_pair p hids hf
  have hshown := unstamped_get?_of_reorders config p hids hbodies hdistinct h s.info.id
  rw [ht, Option.map_some] at hshown
  obtain ⟨t', ht', hsame⟩ := Option.map_eq_some_iff.mp hshown.symm
  rw [hreach.buildTables_value, hreach'.buildTables_value]
  exact ⟨f.table, t', ht, ht', sameOutcomes_of_unstamped
    (fun q => (((sound_fresh config p).reaches hlater).answer q).1)
    (fun q => (((sound_fresh config p).reaches hlater').answer q).1)
    hsame.symm⟩

/-- The types of a file listed the other way round, so that each body comes before the bodies of its
supertypes. -/
theorem get?_of_reorders_redundantUnit :
    let p := MemoryClasspath.toClasspath {}
    let a : Analysis := ⟨{}, p, {}⟩
    let u := redundantUnit
    let root' : Scope := .node u.root.info u.root.children.reverse
    u.scopeIds.Nodup ∧ u.bodyNames.Nodup ∧ u.DistinctTypes ∧ u.root.Reorders root' ∧
      redundantType.info.id ∈ u.scopeIds ∧
      ∃ t t', (a.buildTables u).1.get? redundantType.info.id = some t ∧
        (a.buildTables { u with root := root' }).1.get? redundantType.info.id = some t' ∧
        SameOutcomes (fun q => (a.answer q).1) (fun q => (a.answer q).1) t t' := by
  intro p a u root'
  have hids : u.scopeIds.Nodup := by decide
  have hbodies : u.bodyNames.Nodup := by decide
  have hdistinct : u.DistinctTypes := ⟨by decide, by decide⟩
  have h : u.root.Reorders root' := .children (List.reverse_perm _).symm
  have hnode : redundantType.info.id ∈ u.scopeIds := by decide
  exact ⟨hids, hbodies, hdistinct, h, hnode,
    get?_of_reorders .refl .refl .refl .refl hids hbodies hdistinct h _ hnode⟩

end Analysis

end JavaScope
