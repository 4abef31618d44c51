/-
# The distance of supertypes

A walk through the supertypes of a type goes round by round.  A round finds the direct supertypes
of the types of the round before, each once, unless their names were visited (`Expansion`).  Names
that a class file gives are visited even if there is no class of the name, so a type of the file
may count as visited without having been found.  If no class file names a type of the file ahead
of its time, the types found after `n` rounds are exactly those at the distance `n`
(`mem_walkAt_iff`).
-/
import Mathlib.Data.List.GetD
import JavaScope.Proofs.Tables.SupertypeGraph

namespace JavaScope

/-! ## Visited names -/

section Unvisited

variable {α : Type} {f : α → String}

lemma of_mem_unvisited {visited : List String} {as : List α} {a : α}
    (h : a ∈ (unvisited f visited as).1) : a ∈ as ∧ f a ∉ visited := by
  induction as generalizing visited with
  | nil => cases h
  | cons b rest ih =>
    rw [unvisited] at h
    split at h
    · exact ⟨List.mem_cons_of_mem _ (ih h).1, (ih h).2⟩
    · next hnew =>
      rcases List.mem_cons.mp h with rfl | h
      · exact ⟨List.mem_cons_self, by simpa using hnew⟩
      · obtain ⟨hmem, hfresh⟩ := ih h
        exact ⟨List.mem_cons_of_mem _ hmem, fun hv => hfresh (List.mem_cons_of_mem _ hv)⟩

lemma nodup_unvisited (visited : List String) (as : List α) :
    ((unvisited f visited as).1.map f).Nodup := by
  induction as generalizing visited with
  | nil => exact List.nodup_nil
  | cons b rest ih =>
    rw [unvisited]
    split
    · exact ih visited
    · refine List.nodup_cons.mpr ⟨fun hmem => ?_, ih _⟩
      obtain ⟨a, ha, hname⟩ := List.mem_map.mp hmem
      exact (of_mem_unvisited ha).2 (by simp [hname])

/-- Visited are then the names from before and those of all items. -/
lemma mem_visited_iff {visited : List String} {as : List α} {n : String} :
    n ∈ (unvisited f visited as).2 ↔ n ∈ visited ∨ n ∈ as.map f := by
  induction as generalizing visited with
  | nil => simp [unvisited]
  | cons b rest ih =>
    rw [unvisited]
    split
    · next hold =>
      have hb : f b ∈ visited := by simpa using hold
      rw [ih, List.map_cons, List.mem_cons]
      constructor
      · rintro (h | h)
        · exact .inl h
        · exact .inr (.inr h)
      · rintro (h | rfl | h)
        · exact .inl h
        · exact .inl hb
        · exact .inr h
    · rw [ih, List.map_cons, List.mem_cons, List.mem_cons]
      tauto

/-- Visited are then the names from before and those of the items that are left. -/
lemma mem_visited_iff_fresh {visited : List String} {as : List α} {n : String} :
    n ∈ (unvisited f visited as).2 ↔
      n ∈ visited ∨ n ∈ (unvisited f visited as).1.map f := by
  induction as generalizing visited with
  | nil => simp [unvisited]
  | cons b rest ih =>
    rw [unvisited]
    split
    · exact ih
    · rw [ih, List.map_cons, List.mem_cons, List.mem_cons]
      tauto

lemma unvisited_append (visited : List String) (as bs : List α) :
    unvisited f visited (as ++ bs) =
      ((unvisited f visited as).1 ++ (unvisited f (unvisited f visited as).2 bs).1,
        (unvisited f (unvisited f visited as).2 bs).2) := by
  induction as generalizing visited with
  | nil => rfl
  | cons a rest ih =>
    rw [List.cons_append, unvisited, unvisited]
    by_cases hold : visited.contains (f a)
    · rw [if_pos hold, if_pos hold, ih]
    · rw [if_neg hold, if_neg hold, ih]
      rfl

/-- Of names those are left that were not visited, the first of each. -/
lemma unvisited_names (visited names : List String) :
    (unvisited id visited names).1 = (names.filter (· ∉ visited)).eraseDups := by
  induction names generalizing visited with
  | nil => rfl
  | cons n rest ih =>
    rw [unvisited]
    by_cases hold : n ∈ visited
    · rw [if_pos (by simpa using hold), ih, List.filter_cons_of_neg (by simpa using hold)]
    · rw [if_neg (by simpa using hold), List.filter_cons_of_pos (by simpa using hold),
        List.eraseDups_cons, List.filter_filter]
      simp only [id_eq, ih, List.mem_cons, not_or]
      refine congrArg (n :: List.eraseDups ·) (List.filter_congr fun m _ => ?_)
      rw [Bool.eq_iff_iff]
      simp

/-- Of further names those are new that are visited by neither. -/
lemma removeAll_unvisited (visited names others : List String) :
    (others.filter (· ∉ visited)).removeAll (names.filter (· ∉ visited)) =
      others.filter (· ∉ (unvisited id visited names).2) := by
  rw [List.removeAll, List.filter_filter]
  refine List.filter_congr fun n _ => ?_
  rw [Bool.eq_iff_iff]
  simp [mem_visited_iff]
  tauto

end Unvisited

namespace Supertype

/-! ## Expanding types -/

/-- From the types `ss` and the visited names, a round gives the types and the names `out`. -/
structure Expansion (x : FileIndex) (p : Classpath) (scope : SymbolTable) (ss : List Supertype)
    (visited : List String) (out : List Supertype × List String) : Prop where
  /-- What is found is a direct supertype. -/
  direct : ∀ S ∈ out.1, ∃ R ∈ ss, S ∈ R.direct x p scope
  /-- What is found was not visited. -/
  fresh : ∀ S ∈ out.1, S.binaryName ∉ visited
  /-- Each type is found once. -/
  nodup : (out.1.map binaryName).Nodup
  /-- Visited names stay visited. -/
  kept : ∀ n ∈ visited, n ∈ out.2
  /-- All direct supertypes are visited then. -/
  complete : ∀ R ∈ ss, ∀ S ∈ R.direct x p scope, S.binaryName ∈ out.2
  /-- All names in class files are visited then. -/
  named : ∀ c, stub c ∈ ss → ∀ n ∈ c.supertypes, n ∈ out.2
  /-- A newly visited name is that of a type that was found, or a class file names it and there
  is no such class. -/
  reason : ∀ n ∈ out.2, n ∈ visited ∨ n ∈ out.1.map binaryName ∨
    ∃ c, stub c ∈ ss ∧ n ∈ c.supertypes ∧ (Query.stubOfBinary n).value p = none

variable {x : FileIndex} {p : Classpath} {scope : SymbolTable}

lemma Expansion.recorded {ss : List Supertype} {visited : List String}
    {out : List Supertype × List String} (h : Expansion x p scope ss visited out) {S : Supertype}
    (hS : S ∈ out.1) : S.binaryName ∈ out.2 := by
  obtain ⟨R, hR, hdirect⟩ := h.direct S hS
  exact h.complete R hR S hdirect

lemma expansion_nil (visited : List String) : Expansion x p scope [] visited ([], visited) where
  direct := by simp
  fresh := by simp
  nodup := List.nodup_nil
  kept := fun _ hn => hn
  complete := by simp
  named := by simp
  reason := fun _ hn => .inl hn

lemma expansion_source (node : NodeId) (header : TypeHeader) (visited : List String) :
    Expansion x p scope [source node header] visited
      ((source node header).expand x p scope visited) where
  direct := fun S hS => ⟨_, List.mem_singleton.mpr rfl, (of_mem_unvisited hS).1⟩
  fresh := fun S hS => (of_mem_unvisited hS).2
  nodup := nodup_unvisited visited _
  kept := fun n hn => mem_visited_iff.mpr (.inl hn)
  complete := by
    intro R hR S hS
    obtain rfl := List.mem_singleton.mp hR
    exact mem_visited_iff.mpr (.inr (List.mem_map_of_mem hS))
  named := by simp
  reason := by
    intro n hn
    rcases mem_visited_iff_fresh.mp hn with hn | hn
    · exact .inl hn
    · exact .inr (.inl hn)

/-- The names of the types that a class file leads to are the names in it that there are classes
of. -/
lemma map_binaryName_expand {name : String} {c : ClassStub} (hstub : p.stub? name = some c)
    (visited : List String) :
    ((stub c).expand x p scope visited).1.map binaryName =
      (unvisited id visited c.supertypes).1.filter fun n =>
        ((Query.stubOfBinary n).value p).isSome := by
  show (((unvisited id visited c.supertypes).1.filterMap fun n =>
    (Query.stubOfBinary n).value p).map stub).map binaryName = _
  rw [List.map_map, List.map_filterMap, ← List.filterMap_eq_filter]
  refine List.filterMap_congr fun n hn => ?_
  cases hd : (Query.stubOfBinary n).value p with
  | none => simp [Option.guard, hd]
  | some d =>
    have hname := binaryName_of_stubOfBinary hstub (of_mem_unvisited hn).1 hd
    simp [Option.guard, hd, binaryName, hname]

/-- A class is expanded by the names in its class file, under which its supertypes are found. -/
lemma expansion_stub {name : String} {c : ClassStub} (hstub : p.stub? name = some c)
    (visited : List String) :
    Expansion x p scope [stub c] visited ((stub c).expand x p scope visited) where
  direct := by
    intro S hS
    obtain ⟨d, hd, rfl⟩ := List.mem_map.mp hS
    obtain ⟨n, hn, hfound⟩ := List.mem_filterMap.mp hd
    have hdirect : d ∈ c.supertypes.filterMap fun n => (Query.stubOfBinary n).value p :=
      List.mem_filterMap.mpr ⟨n, (of_mem_unvisited hn).1, hfound⟩
    exact ⟨_, List.mem_singleton.mpr rfl, List.mem_map_of_mem hdirect⟩
  fresh := by
    intro S hS
    have hname := List.mem_map_of_mem (f := binaryName) hS
    rw [map_binaryName_expand hstub] at hname
    exact (of_mem_unvisited (List.mem_filter.mp hname).1).2
  nodup := by
    have hnames := nodup_unvisited (f := id) visited c.supertypes
    rw [List.map_id] at hnames
    rw [map_binaryName_expand hstub]
    exact hnames.filter _
  kept := fun n hn => (mem_visited_iff (f := id)).mpr (.inl hn)
  complete := by
    intro R hR S hS
    obtain rfl := List.mem_singleton.mp hR
    obtain ⟨d, hd, rfl⟩ := List.mem_map.mp hS
    obtain ⟨n, hn, hfound⟩ := List.mem_filterMap.mp hd
    have hname : (stub d).binaryName = n := binaryName_of_stubOfBinary hstub hn hfound
    rw [hname]
    exact (mem_visited_iff (f := id)).mpr (.inr (List.mem_map.mpr ⟨n, hn, rfl⟩))
  named := by
    intro d hd n hn
    obtain rfl := Supertype.stub.inj (List.mem_singleton.mp hd)
    exact (mem_visited_iff (f := id)).mpr (.inr (List.mem_map.mpr ⟨n, hn, rfl⟩))
  reason := by
    intro n hn
    rcases (mem_visited_iff_fresh (f := id)).mp hn with hn | hn
    · exact .inl hn
    · rw [List.map_id] at hn
      cases hfound : (Query.stubOfBinary n).value p with
      | none =>
        exact .inr (.inr ⟨c, List.mem_singleton.mpr rfl, (of_mem_unvisited hn).1, rfl⟩)
      | some d =>
        rw [map_binaryName_expand hstub]
        exact .inr (.inl (List.mem_filter.mpr ⟨hn, by rw [hfound]; rfl⟩))

lemma expansion_expand {s : Supertype} (hs : s.Known x p) (visited : List String) :
    Expansion x p scope [s] visited (s.expand x p scope visited) := by
  cases hs with
  | stub _ hstub => exact expansion_stub hstub visited
  | source _ => exact expansion_source _ _ visited

/-- A round over a list is a round over its first part and one over the rest. -/
lemma Expansion.append {ss rest : List Supertype} {visited : List String}
    {out out' : List Supertype × List String} (h : Expansion x p scope ss visited out)
    (h' : Expansion x p scope rest out.2 out') :
    Expansion x p scope (ss ++ rest) visited (out.1 ++ out'.1, out'.2) where
  direct := by
    intro S hS
    rcases List.mem_append.mp hS with hS | hS
    · obtain ⟨R, hR, hdirect⟩ := h.direct S hS
      exact ⟨R, List.mem_append_left _ hR, hdirect⟩
    · obtain ⟨R, hR, hdirect⟩ := h'.direct S hS
      exact ⟨R, List.mem_append_right _ hR, hdirect⟩
  fresh := by
    intro S hS
    rcases List.mem_append.mp hS with hS | hS
    · exact h.fresh S hS
    · exact fun hv => h'.fresh S hS (h.kept _ hv)
  nodup := by
    rw [List.map_append, List.nodup_append']
    refine ⟨h.nodup, h'.nodup, fun n hn hn' => ?_⟩
    obtain ⟨S, hS, rfl⟩ := List.mem_map.mp hn
    obtain ⟨S', hS', hname⟩ := List.mem_map.mp hn'
    exact h'.fresh S' hS' (hname ▸ h.recorded hS)
  kept := fun n hn => h'.kept n (h.kept n hn)
  complete := by
    intro R hR S hS
    rcases List.mem_append.mp hR with hR | hR
    · exact h'.kept _ (h.complete R hR S hS)
    · exact h'.complete R hR S hS
  named := by
    intro c hc n hn
    rcases List.mem_append.mp hc with hc | hc
    · exact h'.kept _ (h.named c hc n hn)
    · exact h'.named c hc n hn
  reason := by
    intro n hn
    rw [List.map_append, List.mem_append]
    rcases h'.reason n hn with hn | hn | ⟨c, hc, hname, hmissing⟩
    · rcases h.reason n hn with hn | hn | ⟨c, hc, hname, hmissing⟩
      · exact .inl hn
      · exact .inr (.inl (.inl hn))
      · exact .inr (.inr ⟨c, List.mem_append_left _ hc, hname, hmissing⟩)
    · exact .inr (.inl (.inr hn))
    · exact .inr (.inr ⟨c, List.mem_append_right _ hc, hname, hmissing⟩)

lemma expansion_expandAll {ss : List Supertype} (hss : ∀ s ∈ ss, s.Known x p)
    (visited : List String) :
    Expansion x p scope ss visited (expandAll x p scope ss visited) := by
  induction ss generalizing visited with
  | nil => exact expansion_nil visited
  | cons s rest ih =>
    have hfirst : Expansion x p scope [s] visited (s.expand x p scope visited) :=
      expansion_expand (hss s List.mem_cons_self) visited
    exact hfirst.append (ih (fun s hs => hss s (List.mem_cons_of_mem _ hs)) _)

section Gathered

variable {u : CompilationUnit} {level : List Supertype}

/-- From known types on, a walk gathers known types, of different names at each distance. -/
lemma known_of_mem_walkFrom {remaining : Nat} {frontier : List Supertype} {visited : List String}
    (hknown : ∀ S ∈ frontier, S.Known (.ofUnit u) p) (hnodup : (frontier.map binaryName).Nodup)
    (h : level ∈ walkFrom (.ofUnit u) p scope remaining frontier visited) :
    (∀ S ∈ level, S.Known (.ofUnit u) p) ∧ (level.map binaryName).Nodup := by
  induction remaining generalizing frontier visited with
  | zero => cases frontier <;> cases h
  | succ remaining ih =>
    cases frontier with
    | nil => cases h
    | cons s rest =>
      have hround : Expansion (.ofUnit u) p scope (s :: rest) visited
          (expandAll (.ofUnit u) p scope (s :: rest) visited) :=
        expansion_expandAll hknown visited
      rcases List.mem_cons.mp h with rfl | h
      · exact ⟨hknown, hnodup⟩
      · refine ih (fun S hS => ?_) hround.nodup h
        obtain ⟨R, -, hdirect⟩ := hround.direct S hS
        exact known_of_mem_direct hdirect

lemma known_of_mem_supertypeWalk {config : Config} {header : TypeHeader}
    (h : level ∈ supertypeWalk (.ofUnit u) p scope config header) :
    (∀ S ∈ level, S.Known (.ofUnit u) p) ∧ (level.map binaryName).Nodup := by
  refine known_of_mem_walkFrom (fun S hS => ?_) (nodup_unvisited _ _) h
  obtain ⟨written, -, hresolved⟩ := List.mem_filterMap.mp (of_mem_unvisited hS).1
  exact known_resolveSupertype hresolved

end Gathered

/-! ## Rounds -/

/-- The types that the last of `n` rounds finds from a type on, and the names visited then. -/
def walkAt (x : FileIndex) (p : Classpath) (scope : SymbolTable) (T : Supertype) :
    Nat → List Supertype × List String
  | 0 => ([T], [T.binaryName])
  | n + 1 =>
    expandAll x p scope (walkAt x p scope T n).1 (walkAt x p scope T n).2

/-- A way of `n` edges leads from a type to another. -/
inductive Path (x : FileIndex) (p : Classpath) (scope : SymbolTable) (T : Supertype) :
    Nat → Supertype → Prop
  | refl : Path x p scope T 0 T
  | step {n : Nat} {R S : Supertype} :
      Path x p scope T n R → S ∈ R.direct x p scope → Path x p scope T (n + 1) S

/-- The shortest way from a type to another, as told by its binary name, has `n` edges. -/
def AtDistance (x : FileIndex) (p : Classpath) (scope : SymbolTable) (T : Supertype) (n : Nat)
    (S : Supertype) : Prop :=
  Path x p scope T n S ∧ ∀ m < n, ∀ S', Path x p scope T m S' → S'.binaryName ≠ S.binaryName

/-- No class file at a distance less than `n` names a type of the file ahead of its time: one that
can be reached, but only on ways longer than that to the class. -/
def NoneAhead (x : FileIndex) (p : Classpath) (scope : SymbolTable) (T : Supertype) (n : Nat) :
    Prop :=
  ∀ m < n, ∀ c, AtDistance x p scope T m (stub c) → ∀ node header k,
    Path x p scope T k (source node header) → header.binaryName ∈ c.supertypes →
      ∃ i ≤ m, Path x p scope T i (source node header)

section Rounds

variable {u : CompilationUnit} {T S : Supertype} {m n : Nat}

lemma Path.known (hT : T.Known (.ofUnit u) p) (h : Path (.ofUnit u) p scope T n S) :
    S.Known (.ofUnit u) p := by
  cases h with
  | refl => exact hT
  | step _ hdirect => exact known_of_mem_direct hdirect

/-- From every type that can be reached there is a shortest way to it. -/
lemma exists_atDistance (h : Path x p scope T n S) :
    ∃ m ≤ n, ∃ S', AtDistance x p scope T m S' ∧ S'.binaryName = S.binaryName := by
  induction n using Nat.strong_induction_on generalizing S with
  | _ n ih =>
    by_cases hshorter : ∃ m < n, ∃ S', Path x p scope T m S' ∧ S'.binaryName = S.binaryName
    · obtain ⟨m, hm, S', hpath, hname⟩ := hshorter
      obtain ⟨k, hk, S'', hat, hname'⟩ := ih m hm hpath
      exact ⟨k, by omega, S'', hat, hname'.trans hname⟩
    · simp only [not_exists, not_and] at hshorter
      exact ⟨n, le_rfl, S, ⟨h, fun m hm S' hpath => hshorter m hm S' hpath⟩, rfl⟩

lemma AtDistance.unique (hm : AtDistance x p scope T m S) (hn : AtDistance x p scope T n S) :
    m = n := by
  rcases Nat.lt_trichotomy m n with h | h | h
  · exact absurd rfl (hn.2 m h S hm.1)
  · exact h
  · exact absurd rfl (hm.2 n h S hn.1)

lemma NoneAhead.mono (h : NoneAhead x p scope T n) (hm : m ≤ n) : NoneAhead x p scope T m :=
  fun k hk => h k (by omega)

variable (hT : T.Known (.ofUnit u) p)

include hT

lemma known_of_mem_walkAt (hS : S ∈ (walkAt (.ofUnit u) p scope T n).1) :
    S.Known (.ofUnit u) p := by
  induction n generalizing S with
  | zero =>
    obtain rfl := List.mem_singleton.mp hS
    exact hT
  | succ n ih =>
    obtain ⟨R, -, hdirect⟩ := (expansion_expandAll (fun R hR => ih hR) _).direct S hS
    exact known_of_mem_direct hdirect

lemma expansion_walkAt (scope : SymbolTable) (n : Nat) :
    Expansion (.ofUnit u) p scope (walkAt (.ofUnit u) p scope T n).1
      (walkAt (.ofUnit u) p scope T n).2 (walkAt (.ofUnit u) p scope T (n + 1)) :=
  expansion_expandAll (fun _ hR => known_of_mem_walkAt hT hR) _

/-- What a round finds can be reached in as many steps. -/
lemma path_of_mem_walkAt (hS : S ∈ (walkAt (.ofUnit u) p scope T n).1) :
    Path (.ofUnit u) p scope T n S := by
  induction n generalizing S with
  | zero =>
    obtain rfl := List.mem_singleton.mp hS
    exact .refl
  | succ n ih =>
    obtain ⟨R, hR, hdirect⟩ := (expansion_walkAt hT scope n).direct S hS
    exact (ih hR).step hdirect

lemma visited_mono (h : m ≤ n) {name : String}
    (hname : name ∈ (walkAt (.ofUnit u) p scope T m).2) :
    name ∈ (walkAt (.ofUnit u) p scope T n).2 := by
  induction h with
  | refl => exact hname
  | step _ ih => exact (expansion_walkAt hT scope _).kept name ih

lemma visited_of_mem_walkAt (hS : S ∈ (walkAt (.ofUnit u) p scope T n).1) :
    S.binaryName ∈ (walkAt (.ofUnit u) p scope T n).2 := by
  cases n with
  | zero =>
    obtain rfl := List.mem_singleton.mp hS
    exact List.mem_singleton.mpr rfl
  | succ n => exact (expansion_walkAt hT scope n).recorded hS

/-- A visited name is that of a type that was found, or a class file that was found names it and
there is no such class. -/
lemma reason_visited {name : String} (h : name ∈ (walkAt (.ofUnit u) p scope T n).2) :
    (∃ m ≤ n, ∃ S ∈ (walkAt (.ofUnit u) p scope T m).1, S.binaryName = name) ∨
      ∃ m < n, ∃ c, stub c ∈ (walkAt (.ofUnit u) p scope T m).1 ∧ name ∈ c.supertypes ∧
        (Query.stubOfBinary name).value p = none := by
  induction n with
  | zero => exact .inl ⟨0, le_rfl, T, List.mem_singleton.mpr rfl, (List.mem_singleton.mp h).symm⟩
  | succ n ih =>
    rcases (expansion_walkAt hT scope n).reason name h with h | h | ⟨c, hc, hnamed⟩
    · rcases ih h with ⟨m, hm, hfound⟩ | ⟨m, hm, hmissing⟩
      · exact .inl ⟨m, by omega, hfound⟩
      · exact .inr ⟨m, by omega, hmissing⟩
    · obtain ⟨S, hS, hname⟩ := List.mem_map.mp h
      exact .inl ⟨n + 1, le_rfl, S, hS, hname⟩
    · exact .inr ⟨n, by omega, c, hc, hnamed⟩

/-- A type that a class file names is not found later than in the round after the class. -/
lemma le_of_named {c : ClassStub} (hc : stub c ∈ (walkAt (.ofUnit u) p scope T m).1)
    (hS : S ∈ (walkAt (.ofUnit u) p scope T n).1) (hname : S.binaryName ∈ c.supertypes) :
    n ≤ m + 1 := by
  by_contra hlate
  obtain ⟨k, rfl⟩ : ∃ k, n = k + 1 := ⟨n - 1, by omega⟩
  have hvisited := (expansion_walkAt hT scope m).named c hc S.binaryName hname
  exact (expansion_walkAt hT scope k).fresh S hS (visited_mono hT (by omega) hvisited)

section Apart

variable (hapart : ∀ name c, p.stub? name = some c → c.binaryName ∉ u.bodyNames)

include hapart

/-- The last edge of a shortest way starts at the distance before. -/
lemma AtDistance.exists_direct (h : AtDistance (.ofUnit u) p scope T (n + 1) S) :
    ∃ R, AtDistance (.ofUnit u) p scope T n R ∧ S ∈ R.direct (.ofUnit u) p scope := by
  obtain ⟨hpath, hshortest⟩ := h
  cases hpath with
  | @step _ R _ hR hdirect =>
    refine ⟨R, ⟨hR, fun m hm R' hR' hname => ?_⟩, hdirect⟩
    obtain rfl := (hR'.known hT).eq (hR.known hT) hapart hname
    exact hshortest (m + 1) (by omega) S (hR'.step hdirect) rfl

/-- If the classpath has no type of the file, and no class file names a type ahead of its time, then
a round finds just the types at its distance. -/
theorem mem_walkAt_iff (hahead : NoneAhead (.ofUnit u) p scope T n) :
    S ∈ (walkAt (.ofUnit u) p scope T n).1 ↔ AtDistance (.ofUnit u) p scope T n S := by
  induction n using Nat.strong_induction_on generalizing S with
  | _ n ih =>
    constructor
    · intro hS
      refine ⟨path_of_mem_walkAt hT hS, fun m hm S' hpath hname => ?_⟩
      -- a shorter way would have visited the name
      obtain ⟨k, hk, S'', hat, hname'⟩ := exists_atDistance hpath
      have hfound := (ih k (by omega) (hahead.mono (by omega))).mpr hat
      obtain ⟨l, rfl⟩ : ∃ l, n = l + 1 := ⟨n - 1, by omega⟩
      have hvisited := visited_mono hT (by omega : k ≤ l) (visited_of_mem_walkAt hT hfound)
      rw [hname'.trans hname] at hvisited
      exact (expansion_walkAt hT scope l).fresh S hS hvisited
    · intro hat
      cases n with
      | zero =>
        cases hat.1 with
        | refl => exact List.mem_singleton.mpr rfl
      | succ n =>
        obtain ⟨R, hatR, hdirect⟩ := hat.exists_direct hT hapart
        have hR := (ih n (by omega) (hahead.mono (by omega))).mpr hatR
        have hvisited := (expansion_walkAt hT scope n).complete R hR S hdirect
        have hS : S.Known (.ofUnit u) p := known_of_mem_direct hdirect
        -- the name was visited since the type was found, or since a class file names it
        rcases reason_visited hT hvisited with
          ⟨m, hm, S', hS', hname⟩ | ⟨m, hm, c, hc, hnamed, hmissing⟩
        · obtain rfl := (known_of_mem_walkAt hT hS').eq hS hapart hname
          rcases Nat.lt_or_eq_of_le hm with hm | rfl
          · exact absurd rfl (hat.2 m hm S' (path_of_mem_walkAt hT hS'))
          · exact hS'
        · -- then the file has the type, and the class file names it ahead of its time
          obtain ⟨node, header, rfl⟩ := hS.exists_source hmissing
          have hatc := (ih m hm (hahead.mono (by omega))).mp hc
          obtain ⟨i, hi, hearly⟩ := hahead m hm c hatc node header (n + 1) hat.1 hnamed
          exact absurd rfl (hat.2 i (by omega) _ hearly)

end Apart

end Rounds

end Supertype

/-! ## The walk -/

section Walk

variable {u : CompilationUnit} {p : Classpath} {scope : SymbolTable} {T : Supertype}

open Supertype

/-- After a round that finds nothing, no round finds anything. -/
lemma walkAt_add_of_nil {x : FileIndex} {n : Nat} (h : (walkAt x p scope T n).1 = []) (k : Nat) :
    (walkAt x p scope T (n + k)).1 = [] := by
  induction k with
  | zero => exact h
  | succ k ih =>
    rw [← Nat.add_assoc, walkAt, ih]
    rfl

lemma getD_walkFrom (x : FileIndex) (remaining n k : Nat) :
    (walkFrom x p scope remaining (walkAt x p scope T n).1 (walkAt x p scope T n).2).getD k [] =
      if k < remaining then (walkAt x p scope T (n + k)).1 else [] := by
  induction remaining generalizing n k with
  | zero => cases (walkAt x p scope T n).1 <;> rfl
  | succ remaining ih =>
    cases hfrontier : (walkAt x p scope T n).1 with
    | nil => simp [walkFrom, walkAt_add_of_nil hfrontier k]
    | cons s rest =>
      rw [walkFrom, ← hfrontier]
      cases k with
      | zero => simp
      | succ k =>
        have hnext := ih (n + 1) k
        rw [Nat.add_right_comm] at hnext
        simpa [walkAt] using hnext

lemma length_walkFrom_le (x : FileIndex) (remaining : Nat) (frontier : List Supertype)
    (visited : List String) : (walkFrom x p scope remaining frontier visited).length ≤ remaining := by
  induction remaining generalizing frontier visited with
  | zero => cases frontier <;> simp [walkFrom]
  | succ remaining ih =>
    cases frontier with
    | nil => simp [walkFrom]
    | cons s rest => simpa [walkFrom] using ih _ _

/-- The first round asks for the supertypes that a header names. -/
lemma value_supertypesOfSource (x : FileIndex) (node : NodeId) (header : TypeHeader) :
    (supertypesOfSource x scope header [header.binaryName]).value p =
      walkAt x p scope (.source node header) 1 := by
  rw [supertypesOfSource, Query.value_bind, Query.value_pure, Query.value_filterMap]
  simp [walkAt, expandAll, expand, direct, binaryName]

lemma supertypeWalk_eq (x : FileIndex) (config : Config) (node : NodeId) (header : TypeHeader) :
    supertypeWalk x p scope config header =
      walkFrom x p scope config.maxSupertypeDepth
        (walkAt x p scope (.source node header) 1).1 (walkAt x p scope (.source node header) 1).2 := by
  simp [supertypeWalk, walkAt, expandAll, expand, direct, binaryName]

/-- The walk has the types that a round finds at the distance of the round. -/
lemma getD_supertypeWalk (x : FileIndex) (config : Config) (node : NodeId) (header : TypeHeader)
    (k : Nat) :
    (supertypeWalk x p scope config header).getD k [] =
      if k < config.maxSupertypeDepth then (walkAt x p scope (.source node header) (k + 1)).1
      else [] := by
  rw [supertypeWalk_eq x config node header, getD_walkFrom, Nat.add_comm 1 k]

lemma path_of_mem_supertypeWalk {node : NodeId} {header : TypeHeader}
    (hT : (source node header).Known (.ofUnit u) p) {config : Config} {k : Nat} {S : Supertype}
    (hS : S ∈ (supertypeWalk (.ofUnit u) p scope config header).getD k []) :
    Path (.ofUnit u) p scope (source node header) (k + 1) S := by
  rw [getD_supertypeWalk _ config node] at hS
  split at hS
  · exact path_of_mem_walkAt hT hS
  · cases hS

/-- From a round on, the types of the rounds have different names, which were not visited before. -/
lemma nodup_walkFrom (hT : T.Known (.ofUnit u) p) (scope : SymbolTable) (remaining n : Nat) :
    let walk := walkFrom (.ofUnit u) p scope remaining (walkAt (.ofUnit u) p scope T (n + 1)).1
      (walkAt (.ofUnit u) p scope T (n + 1)).2
    (walk.flatten.map binaryName).Nodup ∧
      ∀ S ∈ walk.flatten, S.binaryName ∉ (walkAt (.ofUnit u) p scope T n).2 := by
  induction remaining generalizing n with
  | zero => cases (walkAt (.ofUnit u) p scope T (n + 1)).1 <;> simp [walkFrom]
  | succ remaining ih =>
    have hround := expansion_walkAt hT scope n
    cases hfrontier : (walkAt (.ofUnit u) p scope T (n + 1)).1 with
    | nil => simp [walkFrom]
    | cons s rest =>
      rw [walkFrom, ← hfrontier]
      obtain ⟨hnodup, hfresh⟩ := ih (n + 1)
      simp only [List.flatten_cons, List.map_append, List.mem_append]
      refine ⟨List.nodup_append'.mpr ⟨hround.nodup, hnodup, ?_⟩, ?_⟩
      · intro name hname hname'
        obtain ⟨S, hS, rfl⟩ := List.mem_map.mp hname
        obtain ⟨S', hS', hsame⟩ := List.mem_map.mp hname'
        exact hfresh S' hS' (hsame ▸ visited_of_mem_walkAt hT hS)
      · rintro S (hS | hS)
        · exact hround.fresh S hS
        · exact fun hvisited => hfresh S hS (hround.kept _ hvisited)

/-- A type, and then the types that each of `remaining` rounds finds. -/
def Supertype.rounds (x : FileIndex) (p : Classpath) (scope : SymbolTable) (T : Supertype)
    (remaining : Nat) : List (List Supertype) :=
  [T] :: walkFrom x p scope remaining (walkAt x p scope T 1).1 (walkAt x p scope T 1).2

lemma getD_rounds (x : FileIndex) (T : Supertype) (remaining k : Nat) :
    (rounds x p scope T remaining).getD k [] =
      if k ≤ remaining then (walkAt x p scope T k).1 else [] := by
  cases k with
  | zero => rfl
  | succ k =>
    rw [rounds, List.getD_cons_succ, getD_walkFrom, Nat.add_comm 1 k]
    rfl

/-- No round finds a type of a name that was found before. -/
lemma nodup_rounds (hT : T.Known (.ofUnit u) p) (scope : SymbolTable) (remaining : Nat) :
    ((rounds (.ofUnit u) p scope T remaining).flatten.map binaryName).Nodup := by
  obtain ⟨hnodup, hfresh⟩ := nodup_walkFrom hT scope remaining 0
  refine List.nodup_cons.mpr ⟨fun hmem => ?_, hnodup⟩
  obtain ⟨S, hS, hname⟩ := List.mem_map.mp hmem
  exact hfresh S hS (List.mem_singleton.mpr hname)

/-- A walk through the supertypes of the type `T`, to the distance `maxDepth` at most, gathers
types by their distance.  The types at the distance `k + 1` are those of its level `k`. -/
structure GathersByDistance (x : FileIndex) (p : Classpath) (scope : SymbolTable) (T : Supertype)
    (maxDepth : Nat) (walk : List (List Supertype)) : Prop where
  /-- The walk ends. -/
  bounded : walk.length ≤ maxDepth
  /-- It gathers each type once, and not the type it starts from. -/
  once : (T.binaryName :: walk.flatten.map binaryName).Nodup
  /-- What it gathers is reached by a way of this length. -/
  reached : ∀ k, ∀ S ∈ walk.getD k [], Path x p scope T (k + 1) S
  /-- A level has exactly the types at its distance, if no class file that is nearer names a type
  of the file ahead of its time. -/
  complete : ∀ k < maxDepth, NoneAhead x p scope T (k + 1) →
    ∀ S, S ∈ walk.getD k [] ↔ AtDistance x p scope T (k + 1) S
  /-- A type that a gathered class file names comes at the next level at the latest, or it is not
  gathered. -/
  named : ∀ m k c, stub c ∈ walk.getD m [] → ∀ S ∈ walk.getD k [],
    S.binaryName ∈ c.supertypes → k ≤ m + 1

theorem gathersByDistance {node : NodeId} {header : TypeHeader}
    (hT : (source node header).Known (.ofUnit u) p)
    (hapart : ∀ name c, p.stub? name = some c → c.binaryName ∉ u.bodyNames) (config : Config) :
    GathersByDistance (.ofUnit u) p scope (source node header) config.maxSupertypeDepth
      (supertypeWalk (.ofUnit u) p scope config header) where
  bounded := by
    rw [supertypeWalk_eq _ config node]
    exact length_walkFrom_le _ _ _ _
  once := by
    have hnodup := nodup_rounds hT scope config.maxSupertypeDepth
    rwa [rounds, ← supertypeWalk_eq] at hnodup
  reached := fun k S hS => path_of_mem_supertypeWalk hT hS
  complete := by
    intro k hk hahead S
    rw [getD_supertypeWalk _ config node, if_pos hk]
    exact mem_walkAt_iff hT hapart hahead
  named := by
    intro m k c hc S hS hname
    rw [getD_supertypeWalk _ config node] at hc hS
    split at hc
    · split at hS
      · exact Nat.le_of_succ_le_succ (le_of_named hT hc hS hname)
      · cases hS
    · cases hc

end Walk

end JavaScope
