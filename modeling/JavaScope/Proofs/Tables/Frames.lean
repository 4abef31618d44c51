/-
# The frames of the tables

What a look-up finds in a table stands in one of its frames (`Resolvers.exists_frame`), and each
frame was pushed for the scope of the table or for one around it (`framesFrom_table`).  So what is
true of all that the scopes of a file push (`FileContext.pushes`) is true of all frames in its
tables.
-/
import JavaScope.Proofs.Shadow.Pushes
import JavaScope.Proofs.Tables.Overriding

namespace JavaScope

/-! ## Frames of a group -/

section Groups

variable {m : Type → Type} [Monad m] {ρ α : Type} [Bindings ρ]

/-- A find is the first binding of some frame, and is ambiguous if the frame has others. -/
lemma Resolvers.exists_frame (r : Resolvers m ρ α) {g : ShadowGroup ρ} {name : String}
    {found : Found α} (h : r.value (g.resolveFirst r.ask name) = some found) :
    ∃ f ∈ g.frames, f.id = found.frame ∧ f.kind = found.kind ∧
      ∃ more, r.bound f.bindings name = found.result :: more ∧
        found.isAmbiguous = !more.isEmpty := by
  obtain ⟨frames⟩ := g
  rw [ShadowGroup.resolveFirst] at h
  induction frames with
  | nil =>
    rw [findFirst, r.value_pure] at h
    cases h
  | cons f rest ih =>
    rw [findFirst, r.value_bind] at h
    cases hbound : r.value (r.ask f.bindings name) with
    | nil =>
      rw [hbound] at h
      obtain ⟨f', hf', hshows⟩ := ih h
      exact ⟨f', List.mem_cons_of_mem _ hf', hshows⟩
    | cons a more =>
      rw [hbound] at h
      obtain rfl := Option.some.inj ((r.value_pure _).symm.trans h)
      exact ⟨f, List.mem_cons_self, rfl, rfl, more, hbound, rfl⟩

/-- Pushes bindings with one stamp; the first of the list becomes the innermost frame. -/
def ShadowGroup.pushAll (g : ShadowGroup ρ) (stamp : Nat) (bs : List (FrameKind × ρ)) :
    ShadowGroup ρ :=
  bs.foldr (fun b g => g.push stamp b.1 b.2) g

lemma ShadowGroup.mem_frames_pushAll {g : ShadowGroup ρ} {f : Frame ρ} {stamp : Nat}
    {bs : List (FrameKind × ρ)} (h : f ∈ (g.pushAll stamp bs).frames) :
    f ∈ g.frames ∨ (f.kind, f.bindings) ∈ bs := by
  induction bs with
  | nil => exact .inl h
  | cons b bs ih =>
    rw [pushAll, List.foldr_cons, push] at h
    split at h
    · exact (ih h).imp_right (List.mem_cons_of_mem _)
    · rcases List.mem_cons.mp h with rfl | h
      · exact .inr List.mem_cons_self
      · exact (ih h).imp_right (List.mem_cons_of_mem _)

end Groups

/-! ## Frames of a table -/

/-- What is pushed for a scope, as frames of types and of variables. -/
structure Pushes where
  types : List (FrameKind × TypeBindings)
  vars : List (FrameKind × MemberBindings VariableSymbol)

/-- What the table of a scope has besides the frames of the table around it. -/
def FileContext.pushes (x : FileContext) (p : Classpath) (outer : SymbolTable) (i : ScopeInfo) :
    Pushes :=
  let declared := x.index.declaredAt i.id
  let levels := inheritedBy x p outer i.kind declared
  let imported := (importsOf x.config x.unit).value p
  let types (kind : FrameKind) (ts : List TypeSymbol) : FrameKind × TypeBindings :=
    (kind, .declared (bindTypes ts))
  let vars (kind : FrameKind) (vs : List VariableSymbol) :
      FrameKind × MemberBindings VariableSymbol := (kind, .declared (bindVariables vs))
  match i.kind with
  | .compilationUnit =>
    { types := [types .fileTypes declared.types,
        (.singleTypeImport, .declared imported.singleTypes),
        (.samePackage, .ofPackage x.unit.internalPackage),
        (.onDemandImport, .onDemand imported.onDemand)]
      vars := [(.singleStaticImport, .declared imported.staticFields),
        (.staticOnDemandImport, .statics imported.staticOwners)] }
  | .typeBody _ =>
    { types := types .members declared.types :: types .typeParameters declared.typeParameters ::
        levels.map fun l => types .inherited l.types
      vars := vars .members declared.vars :: levels.map fun l => vars .inherited l.vars }
  | .methodBody | .lambda =>
    { types := [types .locals declared.types, types .typeParameters declared.typeParameters]
      vars := [vars .formals declared.vars] }
  | .block | .catchClause | .forHeader =>
    { types := [types .locals declared.types], vars := [vars .locals declared.vars] }

/-- Each level that is inherited has the variables and member types of the supertypes at one
distance. -/
lemma exists_level_of_mem_inheritedBy {x : FileContext} {p : Classpath} {outer : SymbolTable}
    {header : TypeHeader} {own : Declared} {l : Members}
    (hl : l ∈ inheritedBy x p outer (.typeBody header) own) :
    ∃ level ∈ supertypeWalk x.index p outer x.config header,
      l.vars = level.flatMap (·.vars x.index) ∧
        l.types = level.flatMap (·.memberTypes x.index p) := by
  by_cases hinherited : x.config.inheritedMembers
  · rw [Analysis.inheritedBy_typeBody p outer header own hinherited, membersWith,
      ← List.map_uncurry_zip_eq_zipWith] at hl
    obtain ⟨⟨level, ms⟩, hmem, rfl⟩ := List.mem_map.mp hl
    exact ⟨level, (List.of_mem_zip hmem).1, rfl, rfl⟩
  · rw [inheritedBy, if_neg hinherited] at hl
    cases hl

/-- What a scope has in a frame of types: types that it declares, member types of the supertypes
at one distance, or what the imports of the file bring. -/
inductive FileContext.TypePush (x : FileContext) (p : Classpath) (outer : SymbolTable)
    (i : ScopeInfo) : FrameKind → TypeBindings → Prop
  | declared (kind : FrameKind) :
      TypePush x p outer i kind (.declared (bindTypes (x.index.declaredAt i.id).types))
  | typeParameters : TypePush x p outer i .typeParameters
      (.declared (bindTypes (x.index.declaredAt i.id).typeParameters))
  | inherited {header : TypeHeader} {level : List Supertype} :
      level ∈ supertypeWalk x.index p outer x.config header → TypePush x p outer i .inherited
        (.declared (bindTypes (level.flatMap (·.memberTypes x.index p))))
  | singleImport : TypePush x p outer i .singleTypeImport
      (.declared ((importsOf x.config x.unit).value p).singleTypes)
  | samePackage : TypePush x p outer i .samePackage (.ofPackage x.unit.internalPackage)
  | onDemandImport : TypePush x p outer i .onDemandImport
      (.onDemand ((importsOf x.config x.unit).value p).onDemand)

/-- What a scope has in a frame of variables: variables that it declares, fields of the supertypes
at one distance, or what the static imports of the file bring. -/
inductive FileContext.VariablePush (x : FileContext) (p : Classpath) (outer : SymbolTable)
    (i : ScopeInfo) : FrameKind → MemberBindings VariableSymbol → Prop
  | declared (kind : FrameKind) :
      VariablePush x p outer i kind (.declared (bindVariables (x.index.declaredAt i.id).vars))
  | inherited {header : TypeHeader} {level : List Supertype} :
      level ∈ supertypeWalk x.index p outer x.config header → VariablePush x p outer i .inherited
        (.declared (bindVariables (level.flatMap (·.vars x.index))))
  | singleImport : VariablePush x p outer i .singleStaticImport
      (.declared ((importsOf x.config x.unit).value p).staticFields)
  | onDemandImport : VariablePush x p outer i .staticOnDemandImport
      (.statics ((importsOf x.config x.unit).value p).staticOwners)

section Scopes

variable (x : FileContext) (p : Classpath) (q : TablePlace) (i : ScopeInfo)

variable {x p i} in
lemma typePush_of_mem {outer : SymbolTable} {kind : FrameKind} {b : TypeBindings}
    (h : (kind, b) ∈ (x.pushes p outer i).types) : x.TypePush p outer i kind b := by
  obtain ⟨id, k, range, decls⟩ := i
  cases k with
  | compilationUnit =>
    simp only [FileContext.pushes, List.mem_cons, Prod.mk.injEq, List.not_mem_nil, or_false] at h
    rcases h with ⟨rfl, rfl⟩ | ⟨rfl, rfl⟩ | ⟨rfl, rfl⟩ | ⟨rfl, rfl⟩
    · exact .declared _
    · exact .singleImport
    · exact .samePackage
    · exact .onDemandImport
  | typeBody header =>
    simp only [FileContext.pushes, List.mem_cons, List.mem_map, Prod.mk.injEq] at h
    rcases h with ⟨rfl, rfl⟩ | ⟨rfl, rfl⟩ | ⟨l, hl, rfl, rfl⟩
    · exact .declared _
    · exact .typeParameters
    · obtain ⟨level, hlevel, -, htypes⟩ := exists_level_of_mem_inheritedBy hl
      rw [htypes]
      exact .inherited hlevel
  | methodBody | lambda =>
    simp only [FileContext.pushes, List.mem_cons, Prod.mk.injEq, List.not_mem_nil, or_false] at h
    rcases h with ⟨rfl, rfl⟩ | ⟨rfl, rfl⟩
    · exact .declared _
    · exact .typeParameters
  | block | catchClause | forHeader =>
    simp only [FileContext.pushes, List.mem_cons, Prod.mk.injEq, List.not_mem_nil, or_false] at h
    obtain ⟨rfl, rfl⟩ := h
    exact .declared _

variable {x p i} in
lemma variablePush_of_mem {outer : SymbolTable} {kind : FrameKind}
    {b : MemberBindings VariableSymbol} (h : (kind, b) ∈ (x.pushes p outer i).vars) :
    x.VariablePush p outer i kind b := by
  obtain ⟨id, k, range, decls⟩ := i
  cases k with
  | compilationUnit =>
    simp only [FileContext.pushes, List.mem_cons, Prod.mk.injEq, List.not_mem_nil, or_false] at h
    rcases h with ⟨rfl, rfl⟩ | ⟨rfl, rfl⟩
    · exact .singleImport
    · exact .onDemandImport
  | typeBody header =>
    simp only [FileContext.pushes, List.mem_cons, List.mem_map, Prod.mk.injEq] at h
    rcases h with ⟨rfl, rfl⟩ | ⟨l, hl, rfl, rfl⟩
    · exact .declared _
    · obtain ⟨level, hlevel, hvars, -⟩ := exists_level_of_mem_inheritedBy hl
      rw [hvars]
      exact .inherited hlevel
  | methodBody | lambda | block | catchClause | forHeader =>
    simp only [FileContext.pushes, List.mem_cons, Prod.mk.injEq, List.not_mem_nil, or_false] at h
    obtain ⟨rfl, rfl⟩ := h
    exact .declared _

lemma types_scopeTable : ((scopeTable x q i).value p).types =
    q.parent.types.pushAll (3 * q.number) (x.pushes p q.parent i).types := by
  obtain ⟨id, kind, range, decls⟩ := i
  cases kind with
  | typeBody header =>
    rw [value_scopeTable_typeBody x p q rfl]
    simp only [FileContext.pushes, ShadowGroup.pushAll, List.foldr_cons, List.foldr_map]
    rfl
  | compilationUnit => rw [scopeTable, Query.value_bind]; rfl
  | _ => rfl

lemma vars_scopeTable : ((scopeTable x q i).value p).vars =
    q.parent.vars.pushAll (3 * q.number + 1) (x.pushes p q.parent i).vars := by
  obtain ⟨id, kind, range, decls⟩ := i
  cases kind with
  | typeBody header =>
    rw [value_scopeTable_typeBody x p q rfl]
    simp only [FileContext.pushes, ShadowGroup.pushAll, List.foldr_cons, List.foldr_map]
    rfl
  | compilationUnit => rw [scopeTable, Query.value_bind]; rfl
  | _ => rfl

lemma exists_scopeTable_eq_inside : ∃ vars types methods,
    (scopeTable x q i).value p = .inside q.parent q.number vars types methods := by
  obtain ⟨id, kind, range, decls⟩ := i
  cases kind with
  | typeBody header =>
    rw [value_scopeTable_typeBody x p q rfl]
    exact ⟨_, _, _, rfl⟩
  | compilationUnit =>
    rw [scopeTable, Query.value_bind]
    exact ⟨_, _, _, rfl⟩
  | _ => exact ⟨_, _, _, rfl⟩

end Scopes

/-! ## Frames of the tables of a file -/

section Tables

variable {config : Config} {p : Classpath} {u : CompilationUnit} {s : Scope} {e : ScopeEntry}

/-- What holds outside all scopes, and inside a scope if it holds around it, holds of all tables of
a file. -/
lemma table_induct {motive : SymbolTable → Prop} (hempty : motive .empty)
    (hinside : ∀ s ∈ u.root.descendants, ∀ outer number,
      ((buildTables config u).value p).Around u.root s outer → motive outer →
        motive ((scopeTable (.ofUnit config u) ⟨outer, number⟩ s.info).value p))
    (he : (s, e) ∈ ((buildTables config u).value p).pairs u.root) : motive e.table := by
  -- a table is inside the one around it, so the induction is on the table itself
  generalize ht : e.table = t
  induction t generalizing s e with
  | empty => exact hempty
  | inside parent stamp vars types methods ih =>
    obtain ⟨-, outer, number, houter, htable⟩ := built_buildTables p he
    obtain ⟨_, _, _, hscope⟩ := exists_scopeTable_eq_inside (.ofUnit config u) p ⟨outer, number⟩
      s.info
    have hparent : parent = outer := by
      rw [ht, hscope] at htable
      exact (SymbolTable.inside.inj htable).1
    rw [← ht, htable]
    refine hinside s (List.of_mem_zip he).1 outer number houter ?_
    rcases houter with ⟨-, rfl⟩ | ⟨⟨s', e'⟩, he', -, rfl⟩
    · exact hempty
    · exact hparent ▸ ih he' hparent.symm

/-- The frames of a table were pushed for the scopes of the file. -/
def SymbolTable.FramesFrom (t : SymbolTable) (config : Config) (p : Classpath)
    (u : CompilationUnit) : Prop :=
  (∀ f ∈ t.types.frames, ∃ s ∈ u.root.descendants, ∃ outer,
    ((buildTables config u).value p).Around u.root s outer ∧
      (f.kind, f.bindings) ∈ ((FileContext.ofUnit config u).pushes p outer s.info).types) ∧
  ∀ f ∈ t.vars.frames, ∃ s ∈ u.root.descendants, ∃ outer,
    ((buildTables config u).value p).Around u.root s outer ∧
      (f.kind, f.bindings) ∈ ((FileContext.ofUnit config u).pushes p outer s.info).vars

variable (config p u) in
lemma framesFrom_empty : SymbolTable.empty.FramesFrom config p u :=
  ⟨by rintro f ⟨⟩, by rintro f ⟨⟩⟩

lemma framesFrom_scopeTable (hs : s ∈ u.root.descendants) (outer : SymbolTable) (number : Nat)
    (houter : ((buildTables config u).value p).Around u.root s outer)
    (hframes : outer.FramesFrom config p u) :
    ((scopeTable (.ofUnit config u) ⟨outer, number⟩ s.info).value p).FramesFrom config p u := by
  constructor
  · intro f hf
    rw [types_scopeTable] at hf
    rcases ShadowGroup.mem_frames_pushAll hf with hf | hf
    · exact hframes.1 f hf
    · exact ⟨s, hs, outer, houter, hf⟩
  · intro f hf
    rw [vars_scopeTable] at hf
    rcases ShadowGroup.mem_frames_pushAll hf with hf | hf
    · exact hframes.2 f hf
    · exact ⟨s, hs, outer, houter, hf⟩

lemma framesFrom_table (he : (s, e) ∈ ((buildTables config u).value p).pairs u.root) :
    e.table.FramesFrom config p u :=
  table_induct (framesFrom_empty config p u)
    (fun _ hs outer number => framesFrom_scopeTable hs outer number) he

lemma framesFrom_around {outer : SymbolTable}
    (houter : ((buildTables config u).value p).Around u.root s outer) :
    outer.FramesFrom config p u := by
  rcases houter with ⟨-, rfl⟩ | ⟨⟨s', e'⟩, he', -, rfl⟩
  · exact framesFrom_empty config p u
  · exact framesFrom_table he'

end Tables

end JavaScope
