/-
# Declarations by scope

The index of a file lists the scopes of the file in order.  If the identities of the scopes
differ, then looking one up gives the symbols that this very scope declares
(`declaredAt_ofUnit`).  Its methods belong to the type whose body is the nearest one around the
scope (`exists_typeAround`).

What a scope declares is told by its declarations alone (`Declared.symbolsOf`), and the index has
just that (`ofDecls_eq_symbolsOf`).
-/
import JavaScope.Proofs.Lookup
import JavaScope.Proofs.Tables.ScopeTree
import JavaScope.Tables.Declared

namespace JavaScope

/-! ## The symbols of declarations -/

/-- The symbol of a declared type. -/
def TypeDecl.symbol (file : FileId) (d : TypeDecl) : TypeSymbol :=
  .ofSource ⟨file, d.node⟩ d.binaryName d.kind d.modifiers

/-- The symbol of a declared variable. -/
def VariableDecl.symbol (file : FileId) (d : VariableDecl) : VariableSymbol :=
  .ofSource ⟨file, d.node⟩ d.name d.kind d.modifiers (d.typeName.map (⟨·⟩))

/-- The symbol of a method declared in a type. -/
def MethodDecl.symbol (file : FileId) (declaringType : String) (d : MethodDecl) : MethodSymbol :=
  .ofSource ⟨file, d.node⟩ d.name declaringType d.modifiers (d.parameters.map (⟨·⟩))
    (d.returnType.map (⟨·⟩))

/-- The symbols of the declarations of each sort, in source order: types that are no type
parameters, type parameters, variables, and methods of the type `declaringType`. -/
def Declared.symbolsOf (file : FileId) (declaringType : String) (decls : List Decl) : Declared where
  types := decls.filterMap fun
    | .type d => if d.kind = .typeParameter then none else some (d.symbol file)
    | .var _ | .method _ => none
  typeParameters := decls.filterMap fun
    | .type d => if d.kind = .typeParameter then some (d.symbol file) else none
    | .var _ | .method _ => none
  vars := decls.filterMap fun
    | .var d => some (d.symbol file)
    | .type _ | .method _ => none
  methods := decls.filterMap fun
    | .method d => some (d.symbol file declaringType)
    | .type _ | .var _ => none

/-- The symbols that a scope declares itself.  Its methods belong to the type that it is the body
of. -/
def ScopeInfo.own (file : FileId) (i : ScopeInfo) : Declared :=
  match i.kind with
  | .typeBody header => .symbolsOf file header.binaryName i.decls
  | _ => .symbolsOf file "" i.decls

/-- The index has the declarations of a scope sorted so. -/
lemma ofDecls_eq_symbolsOf (file : FileId) (declaringType : String) (decls : List Decl) :
    Declared.ofDecls file declaringType decls = .symbolsOf file declaringType decls := by
  simp only [Declared.ofDecls, Declared.symbolsOf, List.filter_filterMap, Declared.mk.injEq]
  refine ⟨?types, ?typeParameters, ?vars, ?methods⟩
  case types | typeParameters =>
    refine List.filterMap_congr fun d _ => ?_
    cases d with
    | type d =>
      by_cases h : d.kind = .typeParameter <;>
        simp [Decl.typeSymbol?, TypeDecl.symbol, TypeSymbol.ofSource, h]
    | _ => rfl
  case vars | methods =>
    refine List.filterMap_congr fun d _ => ?_
    cases d <;> rfl

/-! ## The scopes of a file -/

/-- The identities of the scopes of a file, each before those inside it. -/
def CompilationUnit.scopeIds (u : CompilationUnit) : List NodeId :=
  u.root.descendants.map (·.info.id)

namespace Scope

lemma withDeclaringAll_eq (enclosing : String) (cs : List Scope) :
    withDeclaringAll enclosing cs = cs.flatMap (withDeclaring enclosing) := by
  induction cs with
  | nil => rfl
  | cons c rest ih => rw [withDeclaringAll, ih, List.flatMap_cons]

mutual

lemma map_withDeclaring (enclosing : String) :
    ∀ s : Scope, (s.withDeclaring enclosing).map (·.1) = s.descendants.map (·.info)
  | node i cs => by
    rw [withDeclaring, descendants, List.map_cons, List.map_cons, map_withDeclaringAll _ cs]
    rfl

lemma map_withDeclaringAll (enclosing : String) :
    ∀ cs : List Scope,
      (withDeclaringAll enclosing cs).map (·.1) = (descendantsOfAll cs).map (·.info)
  | [] => rfl
  | s :: rest => by
    rw [withDeclaringAll, descendantsOfAll, List.map_append, List.map_append,
      map_withDeclaring enclosing s, map_withDeclaringAll enclosing rest]

end

mutual

lemma declaring_of_mem {enclosing : String} {entry : ScopeInfo × String} :
    ∀ s : Scope, entry ∈ s.withDeclaring enclosing → ∃ t, entry.2 = entry.1.declaringType t
  | node i cs, h => by
    rw [withDeclaring] at h
    rcases List.mem_cons.mp h with rfl | h
    · exact ⟨enclosing, rfl⟩
    · exact declaring_of_mem_all cs h

lemma declaring_of_mem_all {enclosing : String} {entry : ScopeInfo × String} :
    ∀ cs : List Scope,
      entry ∈ withDeclaringAll enclosing cs → ∃ t, entry.2 = entry.1.declaringType t
  | [], h => by cases h
  | s :: rest, h => by
    rw [withDeclaringAll] at h
    rcases List.mem_append.mp h with h | h
    · exact declaring_of_mem s h
    · exact declaring_of_mem_all rest h

end

/-- The type whose members a scope of `r` declares: the one whose body is the nearest around the
scope, or is the scope itself; without such a body it is the type around `r`. -/
inductive TypeAround (enclosing : String) (r s : Scope) : String → Prop
  | nearest {body : Scope} {header : TypeHeader} :
      body ∈ r.descendants → body.info.kind = .typeBody header → s ∈ body.descendants →
      (∀ b ∈ r.descendants, ∀ h, b.info.kind = .typeBody h → s ∈ b.descendants →
        body ∈ b.descendants) →
      TypeAround enclosing r s header.binaryName
  | none : (∀ b ∈ r.descendants, s ∈ b.descendants → ∀ h, b.info.kind ≠ .typeBody h) →
      TypeAround enclosing r s enclosing

lemma declaringType_of_typeBody {i : ScopeInfo} {header : TypeHeader}
    (h : i.kind = .typeBody header) (enclosing : String) :
    i.declaringType enclosing = header.binaryName := by
  rw [ScopeInfo.declaringType, h]
  rfl

lemma declaringType_of_not_typeBody {i : ScopeInfo} (h : ∀ header, i.kind ≠ .typeBody header)
    (enclosing : String) : i.declaringType enclosing = enclosing := by
  unfold ScopeInfo.declaringType
  cases hkind : i.kind with
  | typeBody header => exact absurd hkind (h header)
  | _ => rfl

section TypeAround

variable {r c s : Scope} {enclosing name : String}

/-- No scope but the root is around the root. -/
lemma eq_root_of_mem {b : Scope} (hb : b ∈ r.descendants) (hr : r ∈ b.descendants) : b = r := by
  rcases mem_descendants.mp hb with rfl | hb
  · rfl
  · exact absurd (Encloses.trans_mem hb hr) (not_encloses_self r)

lemma typeAround_root (r : Scope) (enclosing : String) :
    TypeAround enclosing r r (r.info.declaringType enclosing) := by
  by_cases hbody : ∃ header, r.info.kind = .typeBody header
  · obtain ⟨header, hkind⟩ := hbody
    rw [declaringType_of_typeBody hkind]
    exact .nearest (mem_self r) hkind (mem_self r) fun _ _ _ _ hr => hr
  · have hkind := not_exists.mp hbody
    rw [declaringType_of_not_typeBody hkind]
    exact .none fun b hb hr => eq_root_of_mem hb hr ▸ hkind

/-- What is the nearest body inside a child of the root is so inside the root; without one, the
root itself may be the nearest. -/
lemma TypeAround.of_child (h : r.Distinct) (hc : c ∈ r.children) (hs : s ∈ c.descendants)
    (ht : TypeAround (r.info.declaringType enclosing) c s name) :
    TypeAround enclosing r s name := by
  -- a scope around `s` is the root, or in the same child
  have hplace {b : Scope} (hb : b ∈ r.descendants) (hsb : s ∈ b.descendants) :
      b = r ∨ b ∈ c.descendants := by
    rcases mem_descendants.mp hb with rfl | hb
    · exact .inl rfl
    · obtain ⟨d, hd, hbd⟩ := encloses_iff.mp hb
      obtain rfl := h.child_unique hc hd hs (mem_trans hbd hsb)
      exact .inr hbd
  have hinside : ∀ b ∈ c.descendants, b ∈ r.descendants :=
    fun b hb => mem_trans (mem_of_encloses (encloses_child hc)) hb
  cases ht with
  | nearest hbody hkind hsbody hnearest =>
    refine .nearest (hinside _ hbody) hkind hsbody fun b hb g hg hsb => ?_
    rcases hplace hb hsb with rfl | hbc
    · exact hinside _ hbody
    · exact hnearest b hbc g hg hsb
  | none hnone =>
    by_cases hroot : ∃ header, r.info.kind = .typeBody header
    · obtain ⟨header, hkind⟩ := hroot
      rw [declaringType_of_typeBody hkind]
      refine .nearest (mem_self r) hkind (hinside s hs) fun b hb g hg hsb => ?_
      rcases hplace hb hsb with rfl | hbc
      · exact mem_self b
      · exact absurd hg (hnone b hbc hsb g)
    · have hkind := not_exists.mp hroot
      rw [declaringType_of_not_typeBody hkind]
      refine .none fun b hb hsb => ?_
      rcases hplace hb hsb with rfl | hbc
      · exact hkind
      · exact hnone b hbc hsb

/-- Every scope stands in the list with the type around it, if the identities of scopes differ. -/
theorem exists_typeAround (h : r.Distinct) (hs : s ∈ r.descendants) (enclosing : String) :
    ∃ name, TypeAround enclosing r s name ∧ (s.info, name) ∈ r.withDeclaring enclosing := by
  induction r using induct generalizing enclosing with
  | node i cs ih =>
    rcases mem_descendants.mp hs with rfl | hs
    · exact ⟨_, typeAround_root _ enclosing, List.mem_cons_self⟩
    · obtain ⟨c, hc, hs⟩ := encloses_iff.mp hs
      obtain ⟨name, ht, hmem⟩ := ih c hc (h.child hc) hs (i.declaringType enclosing)
      refine ⟨name, ht.of_child h hc hs, List.mem_cons_of_mem _ ?_⟩
      rw [withDeclaringAll_eq]
      exact List.mem_flatMap.mpr ⟨c, hc, hmem⟩

end TypeAround

end Scope

/-- The methods declared inside a type name it. -/
lemma declaringType_of_mem_symbolsOf {file : FileId} {declaring : String} {decls : List Decl}
    {m : MethodSymbol} (h : m ∈ (Declared.symbolsOf file declaring decls).methods) :
    m.declaringType = declaring := by
  obtain ⟨d, -, hd⟩ := List.mem_filterMap.mp h
  cases d with
  | method d => exact congrArg MethodSymbol.declaringType (Option.some.inj hd).symm
  | _ => cases hd

namespace FileIndex

/-- Each scope has its own key in the index, if no two scopes have the same identity. -/
lemma nodup_declared {u : CompilationUnit} (hids : u.scopeIds.Nodup) :
    ((ofUnit u).declared.map (·.1)).Nodup := by
  have hscopes : (u.root.withDeclaring "").map (·.1.id) = u.scopeIds := by
    have h := congrArg (List.map ScopeInfo.id) (Scope.map_withDeclaring "" u.root)
    rwa [List.map_map, List.map_map] at h
  simp only [ofUnit, List.map_reverse, List.map_map, List.nodup_reverse]
  exact hscopes ▸ hids

/-- The index knows a scope with its declaring type by the identity of the scope, if no two scopes
have the same. -/
lemma declaredAt_of_mem {u : CompilationUnit} (hids : u.scopeIds.Nodup) {i : ScopeInfo}
    {declaring : String} (h : (i, declaring) ∈ u.root.withDeclaring "") :
    (ofUnit u).declaredAt i.id = .symbolsOf u.file declaring i.decls := by
  have hmem : (i.id, Declared.ofDecls u.file declaring i.decls) ∈ (ofUnit u).declared :=
    List.mem_reverse.mpr (List.mem_map.mpr ⟨_, h, rfl⟩)
  rw [declaredAt, lookup_eq_some_of_mem (nodup_declared hids) hmem, ← ofDecls_eq_symbolsOf]
  rfl

/-- The index knows each scope by its identity, if no two scopes have the same. -/
theorem declaredAt_ofUnit {u : CompilationUnit} (hids : u.scopeIds.Nodup) {s : Scope}
    (hs : s ∈ u.root.descendants) :
    ∃ t, (ofUnit u).declaredAt s.info.id =
      .symbolsOf u.file (s.info.declaringType t) s.info.decls := by
  -- the scope stands in the list with its declaring type
  have hinfo : s.info ∈ (u.root.withDeclaring "").map (·.1) := by
    rw [Scope.map_withDeclaring]
    exact List.mem_map_of_mem hs
  obtain ⟨⟨i, declaring⟩, hentry, hi⟩ := List.mem_map.mp hinfo
  obtain rfl : i = s.info := hi
  obtain ⟨t, ht⟩ := Scope.declaring_of_mem u.root hentry
  obtain rfl : declaring = s.info.declaringType t := ht
  exact ⟨t, declaredAt_of_mem hids hentry⟩

end FileIndex

end JavaScope
