/-
# The graph of supertypes

The types that a walk can meet are known by their binary names (`Supertype.Known.eq`): a class by
the name under which it is on the classpath, and a type of the file by the name of its body.  An
edge leads from a type to each of its direct supertypes.  What a class file names as a supertype
is asked for by this very name (`binaryName_of_stubOfBinary`).
-/
import JavaScope.Proofs.Run.Independence
import JavaScope.Proofs.Stub.Building
import JavaScope.Proofs.Tables.Declarations
import JavaScope.Proofs.Tables.SupertypeWalk

namespace JavaScope

/-! ## Spellings -/

lemma toBinary_toInternal_toBinary (internal : String) :
    Name.toBinary (Name.toInternal (Name.toBinary internal)) = Name.toBinary internal := by
  simp only [Name.toBinary, Name.toInternal, Name.replace, String.toList_ofList, List.map_map]
  refine congrArg String.ofList (List.map_congr_left fun c _ => ?_)
  by_cases hslash : c = '/'
  · simp [hslash]
  · by_cases hdot : c = '.' <;> simp [hslash, hdot]

lemma toInternal_toBinary {internal : String} (h : Dotless internal) :
    Name.toInternal (Name.toBinary internal) = internal :=
  toBinary_injective (dotless_toInternal _) h (toBinary_toInternal_toBinary internal)

/-! ## Classes of the classpath -/

section Classes

variable {p : Classpath} {name : String} {c : ClassStub}

/-- A stub on the classpath comes from a class file of its name. -/
lemma Classpath.exists_bytes_of_stub? (h : p.stub? name = some c) :
    c.internalName = name ∧ ∃ bytes, ClassStub.ofBytes bytes = .ok c := by
  unfold Classpath.stub? Classpath.entry at h
  split at h
  · cases h
  · cases h
  · next bytes _ =>
    split at h
    · cases h
    · next stub hstub =>
      split at h
      · next hname =>
        obtain rfl := Option.some.inj h
        exact ⟨hname, bytes, hstub⟩
      · cases h

lemma Classpath.binaryName_of_stub? (h : p.stub? name = some c) :
    c.binaryName = Name.toBinary name := by
  rw [ClassStub.binaryName, (exists_bytes_of_stub? h).1]

/-- A class is found under its binary name. -/
lemma value_stubOfBinary_binaryName (hname : Dotless name) (h : p.stub? name = some c) :
    (Query.stubOfBinary c.binaryName).value p = some c := by
  have hfound : p.stub? (Name.toInternal (Name.toBinary name)) = some c := by
    rw [toInternal_toBinary hname, h]
  rw [Classpath.binaryName_of_stub? h]
  exact hfound

/-- The supertypes of a class are found under the names that its class file gives. -/
lemma binaryName_of_stubOfBinary (h : p.stub? name = some c) {n : String}
    (hn : n ∈ c.supertypes) {d : ClassStub} (hd : (Query.stubOfBinary n).value p = some d) :
    d.binaryName = n := by
  obtain ⟨-, bytes, hbytes⟩ := Classpath.exists_bytes_of_stub? h
  obtain ⟨internal, rfl⟩ := ClassStub.exists_toBinary_of_mem_supertypes hbytes hn
  rw [Classpath.binaryName_of_stub? (show p.stub? _ = some d from hd),
    toBinary_toInternal_toBinary]

lemma exists_mem_of_firstStub {names : List String}
    (h : (Query.firstStub names).value p = some c) : ∃ n ∈ names, p.stub? n = some c := by
  induction names with
  | nil => cases h
  | cons n names ih =>
    rw [Query.firstStub, Query.value_bind] at h
    cases hstub : (Query.stub n).value p with
    | none =>
      rw [hstub] at h
      obtain ⟨m, hm, hfound⟩ := ih h
      exact ⟨m, List.mem_cons_of_mem _ hm, hfound⟩
    | some d =>
      rw [hstub] at h
      exact ⟨n, List.mem_cons_self, hstub.trans h⟩

end Classes

/-! ## Bodies of the file -/

/-- The binary names of the types whose bodies are in a file. -/
def CompilationUnit.bodyNames (u : CompilationUnit) : List String :=
  u.root.descendants.filterMap fun s => s.info.kind.header?.map (·.binaryName)

namespace FileIndex

variable {u : CompilationUnit} {s : Scope} {n : String} {node : NodeId} {header : TypeHeader}

lemma bodies_ofUnit (u : CompilationUnit) :
    (ofUnit u).bodies = (u.root.descendants.filterMap fun s => bodyOf s.info).reverse := by
  have hscopes := congrArg (List.filterMap bodyOf) (Scope.map_withDeclaring "" u.root)
  rw [List.filterMap_map, List.filterMap_map] at hscopes
  exact congrArg List.reverse hscopes

/-- What the index has as a body is a scope of the file. -/
lemma exists_scope_of_body? (h : (ofUnit u).body? n = some (node, header)) :
    header.binaryName = n ∧
      ∃ s ∈ u.root.descendants, s.info.kind = .typeBody header ∧ s.info.id = node := by
  have hmem : (n, node, header) ∈ (ofUnit u).bodies := mem_of_lookup_eq_some h
  rw [bodies_ofUnit, List.mem_reverse, List.mem_filterMap] at hmem
  obtain ⟨s, hs, hbody⟩ := hmem
  obtain ⟨h', hheader, heq⟩ := Option.map_eq_some_iff.mp hbody
  simp only [Prod.mk.injEq] at heq
  obtain ⟨rfl, rfl, rfl⟩ := heq
  refine ⟨rfl, s, hs, ?_, rfl⟩
  cases hkind : s.info.kind with
  | typeBody g => rw [hkind] at hheader; exact congrArg _ (Option.some.inj hheader)
  | _ => rw [hkind] at hheader; cases hheader

lemma mem_bodyNames (hs : s ∈ u.root.descendants) (hkind : s.info.kind = .typeBody header) :
    header.binaryName ∈ u.bodyNames :=
  List.mem_filterMap.mpr ⟨s, hs, by rw [hkind]; rfl⟩

/-- Types with different names have different bodies. -/
lemma eq_of_binaryName (hbodies : u.bodyNames.Nodup) {s' : Scope} {header' : TypeHeader}
    (hs : s ∈ u.root.descendants) (hkind : s.info.kind = .typeBody header)
    (hs' : s' ∈ u.root.descendants) (hkind' : s'.info.kind = .typeBody header')
    (hname : header.binaryName = header'.binaryName) : s = s' := by
  by_contra hne
  rw [CompilationUnit.bodyNames, List.Nodup, List.pairwise_filterMap] at hbodies
  have : Std.Symm fun a a' : Scope =>
      ∀ b, a.info.kind.header?.map (·.binaryName) = some b →
        ∀ b', a'.info.kind.header?.map (·.binaryName) = some b' → b ≠ b' :=
    ⟨fun _ _ hapart _ hb _ hb' heq => hapart _ hb' _ hb heq.symm⟩
  have hapart := hbodies.forall hs hs' hne
  exact hapart _ (by rw [hkind]; rfl) _ (by rw [hkind']; rfl) hname

/-- Each body has its own key in the index, if the types have different names. -/
lemma nodup_bodies (hbodies : u.bodyNames.Nodup) : ((ofUnit u).bodies.map (·.1)).Nodup := by
  have hkeys : (ofUnit u).bodies.map (·.1) = u.bodyNames.reverse := by
    rw [bodies_ofUnit, List.map_reverse, List.map_filterMap, CompilationUnit.bodyNames]
    congr 2
    funext s
    rw [bodyOf, Option.map_map]
    rfl
  rw [hkeys, List.nodup_reverse]
  exact hbodies

/-- The index has the body of every type, if the types have different names. -/
lemma body?_of_mem (hbodies : u.bodyNames.Nodup) (hs : s ∈ u.root.descendants)
    (hkind : s.info.kind = .typeBody header) :
    (ofUnit u).body? header.binaryName = some (s.info.id, header) := by
  refine lookup_eq_some_of_mem (nodup_bodies hbodies) ?_
  rw [bodies_ofUnit, List.mem_reverse, List.mem_filterMap]
  exact ⟨s, hs, by rw [bodyOf, hkind]; rfl⟩

end FileIndex

/-! ## Known types -/

namespace Supertype

/-- The type is on the classpath or in the file under its own name. -/
inductive Known (x : FileIndex) (p : Classpath) : Supertype → Prop
  | stub {name : String} {c : ClassStub} :
      Dotless name → p.stub? name = some c → Known x p (.stub c)
  | source {node : NodeId} {header : TypeHeader} :
      x.body? header.binaryName = some (node, header) → Known x p (.source node header)

variable {u : CompilationUnit} {p : Classpath} {scope : SymbolTable} {S S' : Supertype}

lemma known_stubOfBinary {x : FileIndex} {n : String} {c : ClassStub}
    (h : (Query.stubOfBinary n).value p = some c) : Known x p (.stub c) :=
  .stub (dotless_toInternal n) h

lemma known_supertype? {n : String} (h : (FileIndex.ofUnit u).supertype? n = some S) :
    S.Known (.ofUnit u) p := by
  obtain ⟨⟨node, header⟩, hbody, rfl⟩ := Option.map_eq_some_iff.mp h
  obtain ⟨rfl, -⟩ := FileIndex.exists_scope_of_body? hbody
  exact .source hbody

lemma known_resolveSupertype {written : String}
    (h : (resolveSupertype (.ofUnit u) scope written).value p = some S) :
    S.Known (.ofUnit u) p := by
  unfold resolveSupertype at h
  simp only at h
  split at h
  · next hname =>
    obtain rfl := Option.some.inj h
    exact known_supertype? hname
  split at h
  · rw [Query.value_bind, Query.value_pure] at h
    obtain ⟨c, hc, rfl⟩ := Option.map_eq_some_iff.mp h
    obtain ⟨n, hn, hstub⟩ := exists_mem_of_firstStub hc
    exact .stub (dotless_of_mem_candidates hn) hstub
  · rw [Query.value_bind] at h
    cases hfound : (scope.resolveType (WrittenType.head written)).value p with
    | none => rw [hfound] at h; cases h
    | some found =>
      rw [hfound] at h
      simp only at h
      split at h
      · exact known_supertype? h
      · rw [Query.value_bind, Query.value_pure] at h
        obtain ⟨c, hc, rfl⟩ := Option.map_eq_some_iff.mp h
        exact known_stubOfBinary hc
      · cases h

/-- Every edge leads to a known type. -/
lemma known_of_mem_direct (h : S' ∈ S.direct (.ofUnit u) p scope) : S'.Known (.ofUnit u) p := by
  cases S with
  | stub c =>
    obtain ⟨d, hd, rfl⟩ := List.mem_map.mp h
    obtain ⟨n, -, hstub⟩ := List.mem_filterMap.mp hd
    exact known_stubOfBinary hstub
  | source node header =>
    obtain ⟨written, -, hresolved⟩ := List.mem_filterMap.mp h
    exact known_resolveSupertype hresolved

/-- A known type that is not on the classpath under its name is in the file. -/
lemma Known.exists_source {x : FileIndex} (hS : S.Known x p)
    (h : (Query.stubOfBinary S.binaryName).value p = none) :
    ∃ node header, S = .source node header := by
  cases hS with
  | stub hdots hstub =>
    rw [binaryName, value_stubOfBinary_binaryName hdots hstub] at h
    cases h
  | @source node header _ => exact ⟨node, header, rfl⟩

/-- If the classpath has no type of the file, known types are told by their binary names. -/
lemma Known.eq (hS : S.Known (.ofUnit u) p) (hS' : S'.Known (.ofUnit u) p)
    (hapart : ∀ name c, p.stub? name = some c → c.binaryName ∉ u.bodyNames)
    (hname : S.binaryName = S'.binaryName) : S = S' := by
  -- a class of the classpath and a type of the file have different names
  have hdifferent {name : String} {c : ClassStub} {node : NodeId} {header : TypeHeader}
      (hstub : p.stub? name = some c)
      (hbody : (FileIndex.ofUnit u).body? header.binaryName = some (node, header)) :
      c.binaryName ≠ header.binaryName := by
    intro heq
    obtain ⟨-, s, hs, hkind, -⟩ := FileIndex.exists_scope_of_body? hbody
    exact hapart name c hstub (heq ▸ FileIndex.mem_bodyNames hs hkind)
  cases hS with
  | @stub name c hdots hstub =>
    cases hS' with
    | @stub name' c' hdots' hstub' =>
      have hspelled : Name.toBinary name = Name.toBinary name' := by
        rw [← Classpath.binaryName_of_stub? hstub, ← Classpath.binaryName_of_stub? hstub']
        exact hname
      obtain rfl := toBinary_injective hdots hdots' hspelled
      rw [Option.some.inj (hstub.symm.trans hstub')]
    | source hbody' => exact absurd hname (hdifferent hstub hbody')
  | @source node header hbody =>
    cases hS' with
    | stub hdots' hstub' => exact absurd hname.symm (hdifferent hstub' hbody)
    | @source node' header' hbody' =>
      have hname : header.binaryName = header'.binaryName := hname
      rw [hname] at hbody
      obtain ⟨rfl, rfl⟩ := Prod.mk.inj (Option.some.inj (hbody.symm.trans hbody'))
      rfl

end Supertype

end JavaScope
