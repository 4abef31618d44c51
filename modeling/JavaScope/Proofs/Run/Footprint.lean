/-
# What a run asks of its classpath

A store keeps the names that the classpath was asked for.  On no other names does a run depend:
against a classpath that gives rise to the same entries under these names it goes on in the same
way, with the same answers, tables, entries and diagnostics (`run_against_of_agreeOn`).  And on each
of them it does depend, as it keeps the entry (`run_against_eq_iff`).
-/
import JavaScope.Proofs.Run.StoreHistory

namespace JavaScope

/-! ## Queries -/

/-- The classpaths give rise to the same entries under these names. -/
def Classpath.AgreeOn (names : List String) (p p' : Classpath) : Prop :=
  ∀ name ∈ names, p.entry name = p'.entry name

namespace Store

variable {α : Type} {p p' : Classpath} {s : Store}

/-- Asking for a class forgets no name that was asked for. -/
lemma requests_subset_entry (name : String) : s.requests ⊆ (s.entry p name).2.requests := by
  rcases entry_cases p s name with ⟨e, -, hsame⟩ | ⟨-, hnew⟩
  · rw [hsame]
    exact List.Subset.refl _
  · rw [hnew]
    exact List.subset_cons_self _ _

lemma requests_subset_run (q : Query α) : s.requests ⊆ (run p q s).2.requests := by
  induction q generalizing s with
  | done a => exact List.Subset.refl _
  | ask name next ih => exact List.Subset.trans (requests_subset_entry name) (ih _)
  | warn d next ih => exact ih (s := { s with log := s.log.add d })

/-- The classpath is only asked for a name that is on record afterwards. -/
lemma entry_of_agreeOn {name : String} (h : p.AgreeOn (s.entry p name).2.requests p') :
    s.entry p' name = s.entry p name := by
  rcases entry_cases p s name with ⟨e, hkept, hsame⟩ | ⟨hnone, hnew⟩
  · rw [hsame, entry, hkept]
  · rw [hnew] at h ⊢
    have hentry : p.entry name = p'.entry name := h name List.mem_cons_self
    rw [hentry, entry, hnone]

/-- A query is answered in the same way against a classpath that agrees on the names on record. -/
lemma run_of_agreeOn {q : Query α} (h : p.AgreeOn (run p q s).2.requests p') :
    run p' q s = run p q s := by
  induction q generalizing s with
  | done a => rfl
  | ask name next ih =>
    have hasked : p.AgreeOn (s.entry p name).2.requests p' :=
      fun n hn => h n (requests_subset_run (next (s.entry p name).1.stub?) hn)
    rw [run, run, entry_of_agreeOn hasked]
    exact ih _ h
  | warn d next ih => exact ih h

end Store

/-! ## Runs -/

/-- The same run from here on against another classpath. -/
def Analysis.against (a : Analysis) (p : Classpath) : Analysis := { a with classpath := p }

namespace Session

/-- The same run from here on against another classpath. -/
def against (s : Session) (p : Classpath) : Session := { s with analysis := s.analysis.against p }

variable {s : Session} {p' : Classpath}

lemma answer_against {α : Type} {a : Analysis} {q : Query α}
    (h : a.classpath.AgreeOn (a.answer q).2.store.requests p') :
    (a.against p').answer q = ((a.answer q).1, (a.answer q).2.against p') := by
  have hrun : Store.run p' q a.store = Store.run a.classpath q a.store := Store.run_of_agreeOn h
  simp only [Analysis.answer, Analysis.against, hrun]

lemma after_against {α : Type} {q : Query α}
    (h : s.analysis.classpath.AgreeOn (s.after q).analysis.store.requests p') :
    (s.against p').after q = (s.after q).against p' := by
  simp only [after, against, answer_against h]

/-- A request is met in the same way against a classpath that agrees on the names on record. -/
lemma step_against {r : Request}
    (h : s.analysis.classpath.AgreeOn (s.step r).analysis.store.requests p') :
    (s.against p').step r = (s.step r).against p' := by
  cases r with
  | entry internal =>
    have hentry : s.analysis.store.entry p' internal =
        s.analysis.store.entry s.analysis.classpath internal := Store.entry_of_agreeOn h
    simp only [step, against, Analysis.against, Analysis.entry, hentry]
  | stub internal => exact after_against h
  | stubOfBinary binary => exact after_against h
  | resolveDotted dotted => exact after_against h
  | build u =>
    have hanswer := answer_against (q := buildTables s.analysis.config u) h
    simp only [step, against, Analysis.buildTables]
    rw [show (s.analysis.against p').config = s.analysis.config from rfl, hanswer]
  | lookUp file scope name =>
    have htable : (s.against p').table? file scope = s.table? file scope := rfl
    simp only [step, htable] at h ⊢
    cases hfound : s.table? file scope with
    | none => rfl
    | some t =>
      rw [hfound] at h
      exact after_against h

lemma classpath_step (s : Session) (r : Request) :
    (s.step r).analysis.classpath = s.analysis.classpath := by
  cases r with
  | lookUp file scope name =>
    simp only [step]
    cases s.table? file scope <;> rfl
  | _ => rfl

lemma requests_subset_step (s : Session) (r : Request) :
    s.analysis.store.requests ⊆ (s.step r).analysis.store.requests := by
  cases r with
  | entry internal => exact Store.requests_subset_entry internal
  | stub internal => exact Store.requests_subset_run (Query.stub internal)
  | stubOfBinary binary => exact Store.requests_subset_run (Query.stubOfBinary binary)
  | resolveDotted dotted => exact Store.requests_subset_run (Query.resolveDotted dotted)
  | build u => exact Store.requests_subset_run (buildTables s.analysis.config u)
  | lookUp file scope name =>
    simp only [step]
    cases s.table? file scope with
    | none => exact List.Subset.refl _
    | some t => exact Store.requests_subset_run (t.resolveType name)

lemma requests_subset_run (s : Session) (requests : List Request) :
    s.analysis.store.requests ⊆ (s.run requests).analysis.store.requests := by
  induction requests generalizing s with
  | nil => exact List.Subset.refl _
  | cons r requests ih => exact List.Subset.trans (s.requests_subset_step r) (ih (s.step r))

/-- A run depends on its classpath only through the entries of the names that are on record as asked
for: against a classpath that agrees on them it is the same run. -/
theorem run_against_of_agreeOn {requests : List Request}
    (h : s.analysis.classpath.AgreeOn (s.run requests).analysis.store.requests p') :
    (s.against p').run requests = (s.run requests).against p' := by
  induction requests generalizing s with
  | nil => rfl
  | cons r requests ih =>
    have hstep : (s.against p').step r = (s.step r).against p' :=
      step_against fun n hn => h n ((s.step r).requests_subset_run requests hn)
    show ((s.against p').step r).run requests = ((s.step r).run requests).against p'
    rw [hstep]
    exact ih (s.classpath_step r ▸ h)

/-- A new run is the same against another classpath exactly if the classpaths agree on the names
that are on record as asked for. -/
theorem run_against_eq_iff {config : Config} {p p' : Classpath} {a : Analysis}
    (hnew : Analysis.new config p = .ok a) (requests : List Request) :
    let s : Session := ⟨a, []⟩
    (s.against p').run requests = (s.run requests).against p' ↔
      p.AgreeOn (s.run requests).analysis.store.requests p' := by
  intro s
  obtain rfl := Analysis.eq_of_new hnew
  refine ⟨fun hsame name hname => ?_, fun h => run_against_of_agreeOn h⟩
  have hsound := (sound_start config p).run requests
  have hsound' := (sound_start config p').run requests
  -- both runs keep an entry of the name, and it is the same one
  obtain ⟨e, he⟩ := (hsound.asked.mem_requests name).mp hname
  have he' : Store.entry? ((s.against p').run requests).analysis.store name = some e := by
    rw [hsame]
    exact he
  rw [← hsound.analysis.store.entries name e he]
  exact hsound'.analysis.store.entries name e he'

end Session

end JavaScope
