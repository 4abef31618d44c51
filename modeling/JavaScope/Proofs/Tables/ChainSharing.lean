/-
# Chains of nested scopes

In each namespace the chain of a scope is the chain of the scope around it with some frames before
it, the kinds of which come in the order that the kind of the scope gives
(`ScopeKind.frameOrder`).  A scope that is not a compilation unit has the very chain of the scope
around it exactly if it binds nothing in the namespace, neither by what it declares nor by what it
inherits (`buildTables_extendsChains`).

Chains are told apart by the places of their innermost frames, since a frame that is pushed gets the
place after all frames of its chain (`ShadowGroup.Placed`).
-/
import JavaScope.Proofs.Tables.Frames
import JavaScope.Proofs.Tables.SupertypeDistance
import JavaScope.Proofs.Tables.TableTree

namespace JavaScope

/-! ## Groups that go on from others -/

namespace ShadowGroup

variable {ρ : Type}

/-- The group this many frames further out. -/
def outward : Nat → ShadowGroup ρ → Option (ShadowGroup ρ)
  | 0, g => some g
  | n + 1, g => g.parent?.bind (outward n)

/-- The group `inner` is `outer` with `n` frames before it. -/
structure Extends (inner outer : ShadowGroup ρ) (order : List FrameKind) (n : Nat) : Prop where
  /-- Behind the frames is the group `outer` itself. -/
  outward : inner.outward n = some outer
  /-- The kinds of the frames come in this order, where each may be missing. -/
  kinds : (inner.kinds.take n).Sublist order
  /-- Both are the same chain only if there are no frames. -/
  sameChain_iff : inner.sameChain outer ↔ n = 0

/-- The innermost frame has the last place. -/
def Placed (g : ShadowGroup ρ) : Prop := g.frameId.place = g.depth

lemma outward_append (added rest : List (Frame ρ)) :
    outward added.length ⟨added ++ rest⟩ = some ⟨rest⟩ := by
  induction added with
  | nil => rfl
  | cons f added ih => exact ih

section Pushes

variable [Bindings ρ] {g : ShadowGroup ρ} {stamp : Nat} {bs : List (FrameKind × ρ)}

lemma Placed.push (h : g.Placed) (stamp : Nat) (kind : FrameKind) (b : ρ) :
    (g.push stamp kind b).Placed := by
  rw [ShadowGroup.push]
  split
  · exact h
  · rfl

lemma Placed.pushAll (h : g.Placed) (stamp : Nat) (bs : List (FrameKind × ρ)) :
    (g.pushAll stamp bs).Placed := by
  induction bs with
  | nil => exact h
  | cons b bs ih => exact ih.push stamp b.1 b.2

/-- The bindings that get frames. -/
def framed (bs : List (FrameKind × ρ)) : List (FrameKind × ρ) :=
  bs.filter fun b => !Bindings.isDefinitelyEmpty b.2

variable (g stamp bs) in
lemma exists_frames_pushAll : ∃ added, g.pushAll stamp bs = ⟨added ++ g.frames⟩ ∧
    added.map (·.kind) = (framed bs).map (·.1) := by
  induction bs with
  | nil => exact ⟨[], rfl, rfl⟩
  | cons b bs ih =>
    obtain ⟨added, hframes, hkinds⟩ := ih
    have hpush : g.pushAll stamp (b :: bs) = (g.pushAll stamp bs).push stamp b.1 b.2 := rfl
    by_cases hb : Bindings.isDefinitelyEmpty b.2
    · refine ⟨added, ?_, ?_⟩
      · rw [hpush, push, if_pos hb, hframes]
      · rw [hkinds, framed, framed, List.filter_cons_of_neg (by simpa using hb)]
    · refine ⟨⟨⟨stamp, (g.pushAll stamp bs).depth + 1⟩, b.1, b.2⟩ :: added, ?_, ?_⟩
      · rw [hpush, push, if_neg hb, hframes]
        rfl
      · rw [List.map_cons, hkinds, framed, framed, List.filter_cons_of_pos (by simpa using hb)]
        rfl

/-- Pushed bindings come before the group, but for those that are known to be empty. -/
lemma extends_pushAll (hg : g.Placed) {order : List FrameKind}
    (horder : (bs.map (·.1)).Sublist order) :
    (g.pushAll stamp bs).Extends g order (framed bs).length := by
  have hplaced := hg.pushAll stamp bs
  obtain ⟨added, hframes, hkinds⟩ := exists_frames_pushAll g stamp bs
  have hlength : (framed bs).length = added.length := by
    simpa using (congrArg List.length hkinds).symm
  rw [hframes] at hplaced ⊢
  rw [hlength]
  refine ⟨outward_append added g.frames, ?_, fun hsame => ?_, fun hnone => ?_⟩
  · have htake : (kinds ⟨added ++ g.frames⟩).take added.length = added.map (·.kind) := by
      rw [kinds, List.map_append, List.take_left' (List.length_map _)]
    rw [htake, hkinds]
    exact (List.filter_sublist.map _).trans horder
  · -- the same innermost frame has the same place
    have hplace := congrArg FrameId.place (of_decide_eq_true hsame)
    rw [hplaced, hg, depth, depth, List.length_append] at hplace
    omega
  · obtain rfl := List.eq_nil_of_length_eq_zero hnone
    exact decide_eq_true rfl

lemma length_framed_eq_zero :
    (framed bs).length = 0 ↔ ∀ b ∈ bs, Bindings.isDefinitelyEmpty b.2 = true := by
  simp [framed]

end Pushes

end ShadowGroup

/-! ## What is known to be empty -/

/-- A map of a list is empty if it finds nothing. -/
lemma SymbolMap.isEmpty_ofList_iff {α : Type} (entries : List (String × α)) :
    (ofList entries).isEmpty ↔ ∀ name, (ofList entries).find name = [] := by
  refine ⟨find_of_isEmpty, fun h => ?_⟩
  rw [Resolvers.isEmpty_ofList]
  cases entries with
  | nil => rfl
  | cons e entries => simpa [find_ofList] using h e.1

section Declared

open Bindings (isDefinitelyEmpty)

lemma isDefinitelyEmpty_types (types : List TypeSymbol) :
    isDefinitelyEmpty (TypeBindings.declared (bindTypes types)) = true ↔
      ∀ name, types.filter (·.name = name) = [] := by
  refine (SymbolMap.isEmpty_ofList_iff _).trans ?_
  simp only [SymbolMap.find_ofList_map TypeSymbol.name]

lemma isDefinitelyEmpty_variables (vars : List VariableSymbol) :
    isDefinitelyEmpty (MemberBindings.declared (bindVariables vars)) = true ↔
      ∀ name, vars.filter (·.name = name) = [] := by
  refine (SymbolMap.isEmpty_ofList_iff _).trans ?_
  simp only [SymbolMap.find_ofList_map VariableSymbol.name]

lemma isDefinitelyEmpty_methods (methods : List MethodSymbol) :
    isDefinitelyEmpty (MemberBindings.declared (bindMethods methods)) = true ↔
      ∀ name, callable name methods = [] := by
  refine (SymbolMap.isEmpty_ofList_iff _).trans ?_
  simp only [SymbolMap.find_ofList_map MethodSymbol.name, List.filter_filter, callable,
    Bool.and_comm]

end Declared

/-! ## What a scope adds -/

/-- The frames of types of a compilation unit, the innermost first. -/
def typeImportOrder : List FrameKind :=
  [.fileTypes, .singleTypeImport, .samePackage, .onDemandImport]

/-- The frames of variables or methods of a compilation unit, the innermost first. -/
def memberImportOrder : List FrameKind := [.singleStaticImport, .staticOnDemandImport]

namespace ScopeKind

/-- The order of the frames that a scope adds, the innermost first. -/
def frameOrder (imports : List FrameKind) (maxDepth : Nat) : ScopeKind → List FrameKind
  | compilationUnit => imports
  | typeBody _ => .members :: .typeParameters :: List.replicate maxDepth .inherited
  | methodBody | lambda | block | catchClause | forHeader => [.locals, .typeParameters, .formals]

/-- In one namespace a scope adds frames in this order to the group `outer`; unless it is a
compilation unit, it adds none exactly if it binds nothing. -/
def Adds {ρ : Type} (k : ScopeKind) (order : List FrameKind) (bindsNothing : Prop)
    (outer inner : ShadowGroup ρ) : Prop :=
  ∃ n, inner.Extends outer order n ∧ (k ≠ .compilationUnit → (n = 0 ↔ bindsNothing))

end ScopeKind

/-- The chains of the table `inner` of a scope go on from those of `outer`, in all namespaces. -/
structure ExtendsChains (maxDepth : Nat) (k : ScopeKind) (own : Declared) (levels : List Members)
    (outer inner : SymbolTable) : Prop where
  types : k.Adds (k.frameOrder typeImportOrder maxDepth)
    (∀ name, ∀ l ∈ k.typeLayers own levels name, l.2 = []) outer.types inner.types
  vars : k.Adds (k.frameOrder memberImportOrder maxDepth)
    (∀ name, ∀ l ∈ k.valueLayers own levels name, l.2 = []) outer.vars inner.vars
  methods : k.Adds (k.frameOrder memberImportOrder maxDepth)
    (∀ name, k.methodsInside own levels name = []) outer.methods inner.methods

/-- In all namespaces the innermost frame has the last place. -/
structure SymbolTable.Placed (t : SymbolTable) : Prop where
  types : t.types.Placed
  vars : t.vars.Placed
  methods : t.methods.Placed

/-- What the table of a scope has besides the frames of methods of the table around it. -/
def FileContext.methodPushes (x : FileContext) (p : Classpath) (outer : SymbolTable)
    (i : ScopeInfo) : List (FrameKind × MemberBindings MethodSymbol) :=
  let declared := x.index.declaredAt i.id
  let imported := (importsOf x.config x.unit).value p
  let methods (kind : FrameKind) (ms : List MethodSymbol) :
      FrameKind × MemberBindings MethodSymbol := (kind, .declared (bindMethods ms))
  match i.kind with
  | .compilationUnit => [(.singleStaticImport, .declared imported.staticMethods),
      (.staticOnDemandImport, .statics imported.staticOwners)]
  | .typeBody _ => methods .members declared.methods ::
      (inheritedBy x p outer i.kind declared).map fun l => methods .inherited l.methods
  | _ => []

section Scopes

variable (x : FileContext) (p : Classpath) (outer : SymbolTable) (q : TablePlace) (i : ScopeInfo)

lemma methods_scopeTable : ((scopeTable x q i).value p).methods =
    q.parent.methods.pushAll (3 * q.number + 2) (x.methodPushes p q.parent i) := by
  obtain ⟨id, kind, range, decls⟩ := i
  cases kind with
  | typeBody header =>
    rw [value_scopeTable_typeBody x p q rfl]
    simp only [FileContext.methodPushes, ShadowGroup.pushAll, List.foldr_cons, List.foldr_map]
    rfl
  | compilationUnit => rw [scopeTable, Query.value_bind]; rfl
  | _ => rfl

/-- There are no more levels than the configured distance. -/
lemma length_inheritedBy_le (k : ScopeKind) (own : Declared) :
    (inheritedBy x p outer k own).length ≤ x.config.maxSupertypeDepth := by
  cases k with
  | typeBody header =>
    by_cases hinherited : x.config.inheritedMembers
    · rw [Analysis.inheritedBy_typeBody p outer header own hinherited]
      dsimp only
      rw [length_membersWith _ p (length_listed _ p outer _ _)]
      exact length_walkFrom_le _ _ _ _
    · rw [inheritedBy, if_neg hinherited]
      exact Nat.zero_le _
  | _ => exact Nat.zero_le _

lemma map_inherited_sublist {ρ : Type} (k : ScopeKind) (own : Declared) (f : Members → ρ) :
    (((inheritedBy x p outer k own).map fun l => (FrameKind.inherited, f l)).map (·.1)).Sublist
      (List.replicate x.config.maxSupertypeDepth .inherited) := by
  have hconst (levels : List Members) :
      (levels.map fun l => (FrameKind.inherited, f l)).map (·.1) =
        List.replicate levels.length .inherited := by
    rw [List.map_map]
    exact List.map_const' ..
  rw [hconst]
  exact (List.replicate_sublist_replicate _).mpr (length_inheritedBy_le x p outer k own)

lemma types_pushes_sublist : ((x.pushes p outer i).types.map (·.1)).Sublist
    (i.kind.frameOrder typeImportOrder x.config.maxSupertypeDepth) := by
  obtain ⟨id, kind, range, decls⟩ := i
  cases kind with
  | typeBody header => exact ((map_inherited_sublist x p outer _ _ _).cons_cons _).cons_cons _
  | _ => simp [FileContext.pushes, ScopeKind.frameOrder, typeImportOrder]

lemma vars_pushes_sublist : ((x.pushes p outer i).vars.map (·.1)).Sublist
    (i.kind.frameOrder memberImportOrder x.config.maxSupertypeDepth) := by
  obtain ⟨id, kind, range, decls⟩ := i
  cases kind with
  | typeBody header => exact ((map_inherited_sublist x p outer _ _ _).cons _).cons_cons _
  | _ => simp [FileContext.pushes, ScopeKind.frameOrder, memberImportOrder]

lemma methodPushes_sublist : ((x.methodPushes p outer i).map (·.1)).Sublist
    (i.kind.frameOrder memberImportOrder x.config.maxSupertypeDepth) := by
  obtain ⟨id, kind, range, decls⟩ := i
  cases kind with
  | typeBody header => exact ((map_inherited_sublist x p outer _ _ _).cons _).cons_cons _
  | _ => simp [FileContext.methodPushes, ScopeKind.frameOrder, memberImportOrder]

/-! ## Scopes that bind nothing -/

variable {i} (hk : i.kind ≠ .compilationUnit)

include hk

lemma types_pushes_empty_iff :
    (∀ b ∈ (x.pushes p outer i).types, Bindings.isDefinitelyEmpty b.2 = true) ↔
      ∀ name, ∀ l ∈ i.kind.typeLayers (x.index.declaredAt i.id)
        (inheritedBy x p outer i.kind (x.index.declaredAt i.id)) name, l.2 = [] := by
  obtain ⟨id, kind, range, decls⟩ := i
  cases kind with
  | compilationUnit => exact absurd rfl hk
  | typeBody header =>
    simp only [FileContext.pushes, ScopeKind.typeLayers, List.forall_mem_cons, List.forall_mem_map,
      isDefinitelyEmpty_types, forall_and, @forall_comm String]
  | _ => simp [FileContext.pushes, ScopeKind.typeLayers, isDefinitelyEmpty_types, forall_and]

lemma vars_pushes_empty_iff :
    (∀ b ∈ (x.pushes p outer i).vars, Bindings.isDefinitelyEmpty b.2 = true) ↔
      ∀ name, ∀ l ∈ i.kind.valueLayers (x.index.declaredAt i.id)
        (inheritedBy x p outer i.kind (x.index.declaredAt i.id)) name, l.2 = [] := by
  obtain ⟨id, kind, range, decls⟩ := i
  cases kind with
  | compilationUnit => exact absurd rfl hk
  | typeBody header =>
    simp only [FileContext.pushes, ScopeKind.valueLayers, List.forall_mem_cons,
      List.forall_mem_map, isDefinitelyEmpty_variables, forall_and, @forall_comm String]
  | _ => simp [FileContext.pushes, ScopeKind.valueLayers, isDefinitelyEmpty_variables]

lemma methodPushes_empty_iff :
    (∀ b ∈ x.methodPushes p outer i, Bindings.isDefinitelyEmpty b.2 = true) ↔
      ∀ name, i.kind.methodsInside (x.index.declaredAt i.id)
        (inheritedBy x p outer i.kind (x.index.declaredAt i.id)) name = [] := by
  obtain ⟨id, kind, range, decls⟩ := i
  cases kind with
  | compilationUnit => exact absurd rfl hk
  | typeBody header =>
    simp only [FileContext.methodPushes, ScopeKind.methodsInside, List.forall_mem_cons,
      List.forall_mem_map, isDefinitelyEmpty_methods, List.append_eq_nil_iff,
      List.flatMap_eq_nil_iff, forall_and, @forall_comm String]
  | _ => simp [FileContext.methodPushes, ScopeKind.methodsInside]

end Scopes

/-! ## The table of a scope -/

/-- A scope adds what is pushed for it, if that has the right order and is empty when it should. -/
lemma ScopeKind.adds_pushAll {ρ : Type} [Bindings ρ] {k : ScopeKind} {g : ShadowGroup ρ}
    (hg : g.Placed) {stamp : Nat} {bs : List (FrameKind × ρ)} {order : List FrameKind}
    (horder : (bs.map (·.1)).Sublist order) {bindsNothing : Prop}
    (hempty : k ≠ .compilationUnit →
      ((∀ b ∈ bs, Bindings.isDefinitelyEmpty b.2 = true) ↔ bindsNothing)) :
    k.Adds order bindsNothing g (g.pushAll stamp bs) :=
  ⟨_, ShadowGroup.extends_pushAll hg horder, fun hk =>
    ShadowGroup.length_framed_eq_zero.trans (hempty hk)⟩

section ScopeTable

variable (x : FileContext) (p : Classpath) {q : TablePlace} (i : ScopeInfo)
  (hplaced : q.parent.Placed)

include hplaced

lemma placed_scopeTable : ((scopeTable x q i).value p).Placed := by
  refine ⟨?_, ?_, ?_⟩
  · rw [types_scopeTable]
    exact hplaced.types.pushAll _ _
  · rw [vars_scopeTable]
    exact hplaced.vars.pushAll _ _
  · rw [methods_scopeTable]
    exact hplaced.methods.pushAll _ _

/-- The chains of the table of a scope go on from those of the table that it is built in. -/
lemma scopeTable_extendsChains :
    ExtendsChains x.config.maxSupertypeDepth i.kind (x.index.declaredAt i.id)
      (inheritedBy x p q.parent i.kind (x.index.declaredAt i.id)) q.parent
      ((scopeTable x q i).value p) := by
  refine ⟨?_, ?_, ?_⟩
  · rw [types_scopeTable]
    exact ScopeKind.adds_pushAll hplaced.types (types_pushes_sublist x p q.parent i)
      (types_pushes_empty_iff x p q.parent)
  · rw [vars_scopeTable]
    exact ScopeKind.adds_pushAll hplaced.vars (vars_pushes_sublist x p q.parent i)
      (vars_pushes_empty_iff x p q.parent)
  · rw [methods_scopeTable]
    exact ScopeKind.adds_pushAll hplaced.methods (methodPushes_sublist x p q.parent i)
      (methodPushes_empty_iff x p q.parent)

end ScopeTable

/-! ## The tables of a file -/

lemma placed_empty : SymbolTable.empty.Placed := ⟨rfl, rfl, rfl⟩

lemma placed_around {config : Config} {p : Classpath} {u : CompilationUnit} {s : Scope}
    {outer : SymbolTable} (houter : ((buildTables config u).value p).Around u.root s outer) :
    outer.Placed := by
  rcases houter with ⟨-, rfl⟩ | ⟨⟨s', e⟩, he, -, rfl⟩
  · exact placed_empty
  · exact table_induct placed_empty
      (fun s _ outer number _ h => placed_scopeTable (q := ⟨outer, number⟩) _ p s.info h) he

/-- Each tree stands for a scope and its entry. -/
lemma TableTree.Arranges.mem_pairs {tree t : TableTree} {root : Scope} {tables : ScopeTables}
    (h : tree.Arranges root tables) (ht : t ∈ tree.subtrees) :
    (t.scope, t.entry) ∈ tables.pairs root := by
  rw [ScopeTables.pairs, ← h.entries_eq, ← h.scope_eq, ← map_scope_subtrees, List.zip_map']
  exact List.mem_map_of_mem ht

namespace Analysis

/-- In every namespace the chain of each scope is that of the table around it, behind some frames.
Their kinds come in the order that goes with the kind of the scope: the types of a compilation unit
from the file, single imports, the package and imports on demand, and its variables and methods from
single static imports and those on demand; the members of a type body, its type parameters and, as
often as the configuration has supertypes followed at most, inherited members; and the locals, type
parameters and formal parameters of all others.  A scope that is not a compilation unit shares the
chain exactly if its declarations and the levels that it inherits bind no name in the namespace.

The table around is that of the scope around, and for the outermost scope the empty table.  If the
identities of scopes differ, the declarations of a scope are its own. -/
theorem buildTables_extendsChains {config : Config} {p : Classpath} {a : Analysis}
    (hreach : Reaches ⟨config, p, {}⟩ a) (u : CompilationUnit) :
    let x := FileContext.ofUnit config u
    ∃ tree : TableTree, tree.Arranges u.root (a.buildTables u).1 ∧
      tree.entry.table.parent? = some .empty ∧
      (∀ t ∈ tree.subtrees, ∀ c ∈ t.inside, c.entry.table.parent? = some t.entry.table) ∧
      (∀ t ∈ tree.subtrees, ∃ outer, t.entry.table.parent? = some outer ∧
        let own := x.index.declaredAt t.info.id
        ExtendsChains config.maxSupertypeDepth t.info.kind own
          (inheritedBy x p outer t.info.kind own) outer t.entry.table) ∧
      (u.scopeIds.Nodup → ∀ t ∈ tree.subtrees, ∃ name,
        x.index.declaredAt t.info.id = .symbolsOf u.file name t.info.decls) := by
  intro x
  obtain ⟨tree, htree, hlinked⟩ := exists_linked a u
  refine ⟨tree, htree, hlinked.stands.parent, fun t ht c hc => (hlinked.around ht hc).2,
    fun t ht => ?_, fun hids t ht => ?_⟩
  · have hpair := htree.mem_pairs ht
    rw [hreach.buildTables_value] at hpair
    obtain ⟨-, outer, number, houter, htable⟩ := built_buildTables p hpair
    rw [TableTree.info_scope] at htable
    obtain ⟨_, _, _, hinside⟩ := exists_scopeTable_eq_inside x p ⟨outer, number⟩ t.info
    refine ⟨outer, ?_, ?_⟩
    · rw [htable, hinside, SymbolTable.parent?]
    · rw [htable]
      exact scopeTable_extendsChains (q := ⟨outer, number⟩) x p t.info (placed_around houter)
  · have hs : t.scope ∈ u.root.descendants := by
      rw [← htree.scope_eq, ← TableTree.map_scope_subtrees]
      exact List.mem_map_of_mem ht
    obtain ⟨name, hdeclared⟩ := FileIndex.declaredAt_ofUnit hids hs
    rw [TableTree.info_scope] at hdeclared
    exact ⟨_, hdeclared⟩

/-- The chains of the class and of its method extend those around them by what the scopes
declare. -/
theorem buildTables_extendsChains_hidingUnit :
    let p := MemoryClasspath.toClasspath {}
    let a : Analysis := ⟨{}, p, {}⟩
    let u := hidingUnit
    let x := FileContext.ofUnit {} u
    a.Reaches a ∧ u.scopeIds.Nodup ∧
      ∃ tree : TableTree, tree.Arranges u.root (a.buildTables u).1 ∧
        ∀ t ∈ tree.subtrees, ∃ outer name, t.entry.table.parent? = some outer ∧
          let own := Declared.symbolsOf u.file name t.info.decls
          ExtendsChains 64 t.info.kind own (inheritedBy x p outer t.info.kind own) outer
            t.entry.table := by
  intro p a u x
  have hids : u.scopeIds.Nodup := by decide
  obtain ⟨tree, htree, -, -, hchains, hown⟩ := buildTables_extendsChains (a := a) .refl u
  refine ⟨.refl, hids, tree, htree, fun t ht => ?_⟩
  obtain ⟨outer, hparent, hextends⟩ := hchains t ht
  obtain ⟨name, hdeclared⟩ := hown hids t ht
  rw [hdeclared] at hextends
  exact ⟨outer, name, hparent, hextends⟩

/-- The parameter of the method of `hidingUnit` is before the field of the class. -/
example :
    let a : Analysis := ⟨{}, MemoryClasspath.toClasspath {}, {}⟩
    let tables := (a.buildTables hidingUnit).1.entries.map (·.table)
    tables.map (fun t => (t.vars.kinds, t.methods.kinds)) =
      [([], []), ([.members], [.members]), ([.formals, .members], [.members])] := by
  rfl

end Analysis

end JavaScope
