/-
# Looking up dotted names

Which segments of a dotted name are packages and which are classes is found out by asking for one
candidate after the other.  A run asks in the order of the candidates and stops at the first that
has a stub; it asks for no other name (`resolveDotted_asksInTurn`).  A name without a class and a
class without a stub are passed over alike.

What counts is what the store gives for a name when the look-up begins: asking for one name does
not change what it gives for others (`entry_fst_entry`).
-/
import JavaScope.Proofs.Name.Candidates
import JavaScope.Proofs.Run.StoreHistory

namespace JavaScope

/-! ## The names that are asked for -/

namespace Store

variable {p : Classpath} {s : Store}

/-- The names that the answer to a query asks the store for, in order. -/
def asked {α : Type} (p : Classpath) : Query α → Store → List String
  | .done _, _ => []
  | .ask name next, s => name :: asked p (next (s.entry p name).1.stub?) (s.entry p name).2
  | .warn d next, s => asked p next { s with log := s.log.add d }

/-- The store after it was asked for these names, one after the other, and for nothing else. -/
def after (p : Classpath) (s : Store) (names : List String) : Store :=
  names.foldl (fun s name => (s.entry p name).2) s

lemma entry_fst (p : Classpath) (s : Store) (name : String) :
    (s.entry p name).1 = (s.entry? name).getD (p.entry name) := by
  rcases entry_cases p s name with ⟨e, hs, hsame⟩ | ⟨hs, hnew⟩
  · rw [hsame, hs, Option.getD_some]
  · rw [hnew, hs, Option.getD_none]

/-- Asking for one name does not change what a store gives for a name. -/
lemma entry_fst_entry (name other : String) :
    ((s.entry p name).2.entry p other).1 = (s.entry p other).1 := by
  rcases entry_cases p s name with ⟨e, -, hsame⟩ | ⟨hnone, hnew⟩
  · rw [hsame]
  · rw [hnew, entry_fst, entry_fst, lookup_commit]
    by_cases hother : other = name
    · rw [if_pos hother, hother, hnone, Option.getD_some, Option.getD_none]
    · rw [if_neg hother]
      rfl

/-- The stub that a store gives for a name. -/
def stubAt (p : Classpath) (s : Store) (name : String) : Option ClassStub :=
  (s.entry p name).1.stub?

lemma stubAt_entry (name : String) : stubAt p (s.entry p name).2 = stubAt p s :=
  funext fun other => congrArg StubEntry.stub? (entry_fst_entry name other)

/-! ### The first of several names -/

/-- The first name that has a stub decides. -/
lemma run_firstStub_fst (names : List String) :
    (run p (Query.firstStub names) s).1 = names.findSome? (s.stubAt p) := by
  induction names generalizing s with
  | nil => rfl
  | cons name names ih =>
    rw [List.findSome?_cons]
    simp only [Query.firstStub, Query.stub, bind, Query.bind, run]
    cases hstub : s.stubAt p name with
    | some c => rw [show (s.entry p name).1.stub? = some c from hstub]; rfl
    | none =>
      rw [show (s.entry p name).1.stub? = none from hstub, ← stubAt_entry name]
      exact ih

/-- Nothing happens but that names are asked for. -/
lemma run_firstStub_snd (names : List String) :
    (run p (Query.firstStub names) s).2 = s.after p (asked p (Query.firstStub names) s) := by
  induction names generalizing s with
  | nil => rfl
  | cons name names ih =>
    simp only [Query.firstStub, Query.stub, bind, Query.bind, run, asked]
    cases (s.entry p name).1.stub? with
    | some c => rfl
    | none => exact ih

lemma asked_firstStub_of_none {name : String} (h : s.stubAt p name = none) (names : List String) :
    asked p (Query.firstStub (name :: names)) s =
      name :: asked p (Query.firstStub names) (s.entry p name).2 := by
  simp only [Query.firstStub, Query.stub, bind, Query.bind, asked]
  rw [show (s.entry p name).1.stub? = none from h]

lemma asked_firstStub_of_some {name : String} {c : ClassStub} (h : s.stubAt p name = some c)
    (names : List String) : asked p (Query.firstStub (name :: names)) s = [name] := by
  simp only [Query.firstStub, Query.stub, bind, Query.bind, asked]
  rw [show (s.entry p name).1.stub? = some c from h]
  rfl

/-- If none of the names has a stub, all are asked for. -/
lemma asked_firstStub_none {names : List String} (h : ∀ name ∈ names, s.stubAt p name = none) :
    asked p (Query.firstStub names) s = names := by
  induction names generalizing s with
  | nil => rfl
  | cons name names ih =>
    rw [asked_firstStub_of_none (h name List.mem_cons_self), ih]
    rw [stubAt_entry]
    exact fun n hn => h n (List.mem_cons_of_mem _ hn)

/-- The first name that has a stub is the last that is asked for. -/
lemma asked_firstStub_some {before rest : List String} {name : String} {c : ClassStub}
    (hbefore : ∀ n ∈ before, s.stubAt p n = none) (hname : s.stubAt p name = some c) :
    asked p (Query.firstStub (before ++ name :: rest)) s = before ++ [name] := by
  induction before generalizing s with
  | nil => exact asked_firstStub_of_some hname rest
  | cons n before ih =>
    rw [List.cons_append, asked_firstStub_of_none (hbefore n List.mem_cons_self), ih]
    · rfl
    · rw [stubAt_entry]
      exact fun m hm => hbefore m (List.mem_cons_of_mem _ hm)
    · rw [stubAt_entry, hname]

end Store

lemma StubEntry.stub?_eq_some_iff {e : StubEntry} {c : ClassStub} :
    e.stub? = some c ↔ e = .resolved c := by
  cases e <;> simp [stub?]

lemma StubEntry.stub?_eq_none_iff {e : StubEntry} :
    e.stub? = none ↔ ∀ c, e ≠ .resolved c := by
  cases e <;> simp [stub?]

/-! ## The candidates in turn -/

/-- The candidates with less than `k` levels of nesting come before the one with `k`. -/
lemma Name.exists_candidates_eq {dotted : String} {k : Nat} (hk : k < (parts dotted).length) :
    ∃ rest, candidates dotted =
      (List.range k).map (candidate dotted) ++ candidate dotted k :: rest := by
  obtain ⟨m, hm⟩ := Nat.exists_eq_add_of_lt hk
  refine ⟨((List.range m).map (k + 1 + ·)).map (candidate dotted), ?_⟩
  rw [candidates_eq, hm, show k + m + 1 = k + 1 + m by omega, List.range_add, List.map_append,
    List.range_succ, List.map_append, List.append_assoc]
  rfl

namespace Analysis

/-- The names that the answer to a query asks for, in order. -/
def asked {α : Type} (a : Analysis) (q : Query α) : List String :=
  Store.asked a.classpath q a.store

/-- Whatever a run did before, it looks up a dotted name by asking for the candidates of the name in
their order: first all segments but the last for the package, and then one more segment for a nested
class each time.  They are what comes of turning the last `/` of a name into a `$` as long as there
is one, which comes to an end.  The first that has a stub is the last that is asked for; the stub is
that of the class with this internal name, and it is the result.  There is no result exactly if no
candidate has a stub, and all candidates are asked for then.  The store is asked for nothing
else. -/
theorem resolveDotted_asksInTurn {config : Config} {p : Classpath} {a : Analysis}
    (hreach : Reaches ⟨config, p, {}⟩ a) (dotted : String) :
    let n := (Name.parts dotted).length
    let entry (k : Nat) := (a.entry (Name.candidate dotted k)).1
    let asked := a.asked (Query.resolveDotted dotted)
    let answer := a.answer (Query.resolveDotted dotted)
    (Name.turns (Name.toInternal dotted).toList).map String.ofList =
        (List.range n).map (Name.candidate dotted) ∧
      (∀ k < n, ∀ c, entry k = .resolved c → (∀ j < k, ∀ d, entry j ≠ .resolved d) →
        answer.1 = some c ∧ c.internalName = Name.candidate dotted k ∧
          asked = (List.range (k + 1)).map (Name.candidate dotted)) ∧
      ((∀ k < n, ∀ c, entry k ≠ .resolved c) →
        answer.1 = none ∧ asked = (List.range n).map (Name.candidate dotted)) ∧
      (answer.1 = none ↔ ∀ k < n, ∀ c, entry k ≠ .resolved c) ∧
      answer.2 = { a with store := a.store.after a.classpath asked } := by
  intro n entry asked answer
  have hsound := (sound_fresh config p).reaches hreach
  have hstubs : (∀ name ∈ Name.candidates dotted, a.store.stubAt a.classpath name = none) ↔
      ∀ k < n, ∀ c, entry k ≠ .resolved c := by
    rw [Name.candidates_eq]
    simp only [List.mem_map, List.mem_range, forall_exists_index, and_imp, forall_apply_eq_imp_iff₂]
    exact forall₂_congr fun k _ => StubEntry.stub?_eq_none_iff
  have hresult : answer.1 =
      (Name.candidates dotted).findSome? (a.store.stubAt a.classpath) :=
    Store.run_firstStub_fst _
  refine ⟨Name.turns_toInternal dotted, fun k hk c hc hbefore => ?_, fun h => ⟨?_, ?_⟩, ?_, ?_⟩
  · obtain ⟨rest, hcandidates⟩ := Name.exists_candidates_eq hk
    have hstub : a.store.stubAt a.classpath (Name.candidate dotted k) = some c :=
      StubEntry.stub?_eq_some_iff.mpr hc
    have hnone : ∀ name ∈ (List.range k).map (Name.candidate dotted),
        a.store.stubAt a.classpath name = none := by
      intro name hname
      obtain ⟨j, hj, rfl⟩ := List.mem_map.mp hname
      exact StubEntry.stub?_eq_none_iff.mpr (hbefore j (List.mem_range.mp hj))
    refine ⟨?_, ?_, ?_⟩
    · rw [hresult, hcandidates]
      exact List.findSome?_eq_some_iff.mpr ⟨_, _, _, rfl, hstub, hnone⟩
    · obtain rfl := hsound.classpath
      exact Classpath.internalName_of_entry ((hsound.store.entry _).1.symm.trans hc)
    · rw [List.range_succ, List.map_append]
      show Store.asked _ (Query.firstStub (Name.candidates dotted)) _ = _
      rw [hcandidates]
      exact Store.asked_firstStub_some hnone hstub
  · rw [hresult]
    exact List.findSome?_eq_none_iff.mpr (hstubs.mpr h)
  · rw [← Name.candidates_eq]
    exact Store.asked_firstStub_none (hstubs.mpr h)
  · rw [hresult, List.findSome?_eq_none_iff, hstubs]
  · exact congrArg (fun store => { a with store }) (Store.run_firstStub_snd _)

/-- A class `C` in a class `B`, whose name as a class of a package `a.B` has a broken class file. -/
def nestedClass : MemoryClasspath where
  classes :=
    [("a/B/C", [0xCA]),
      ("a/B$C", [0xCA, 0xFE, 0xBA, 0xBE, 0, 0, 0, 52,
        0, 3, 7, 0, 2, 1, 0, 5, 97, 47, 66, 36, 67, 0, 33, 0, 1, 0, 0, 0, 0, 0, 0, 0, 0, 0, 0])]

/-- The broken class file was asked for before.  It is asked for again, and passed over; the name of
a class in a class `a` is not asked for. -/
theorem resolveDotted_asksInTurn_nestedClass :
    let p := nestedClass.toClasspath
    let a : Analysis := ⟨{}, p, {}⟩
    let b := (a.entry "a/B/C").2
    let q := Query.resolveDotted "a.B.C"
    a.Reaches b ∧ (b.entry "a/B/C").1.isResolved = false ∧
      ∃ c, (b.entry "a/B$C").1 = .resolved c ∧ (b.answer q).1 = some c ∧
        c.internalName = "a/B$C" ∧ b.asked q = ["a/B/C", "a/B$C"] ∧
        (b.answer q).2.store.requests = ["a/B$C", "a/B/C"] := by
  intro p a b q
  have hreach : a.Reaches b := .entry "a/B/C" .refl
  have hbroken : (b.entry "a/B/C").1.isResolved = false := by decide +kernel
  have hfound : (b.entry "a/B$C").1.stub?.isSome = true := by decide +kernel
  obtain ⟨c, hc⟩ := Option.isSome_iff_exists.mp hfound
  have hc := StubEntry.stub?_eq_some_iff.mp hc
  have hpackage : Name.candidate "a.B.C" 0 = "a/B/C" := by decide
  have hnested : Name.candidate "a.B.C" 1 = "a/B$C" := by decide
  obtain ⟨-, hsome, -, -, hafter⟩ := resolveDotted_asksInTurn hreach "a.B.C"
  obtain ⟨hresult, hname, hasked⟩ := hsome 1 (by decide) c (by simp only [hnested, hc]) <| by
    intro j hj d hd
    obtain rfl : j = 0 := by omega
    simp only [hpackage] at hd
    rw [hd] at hbroken
    cases hbroken
  have hasked : b.asked q = ["a/B/C", "a/B$C"] := by
    rw [hasked, List.range_succ, List.range_one, ← hpackage, ← hnested]
    rfl
  refine ⟨hreach, hbroken, c, hc, hresult, hname.trans hnested, hasked, ?_⟩
  rw [hafter, hasked]
  rfl

end Analysis

end JavaScope
