/-
# The history of a store

A run asks its store for classes again and again: directly, while it builds tables, and when types
are looked up in tables that were built before (`Request`).  Whatever it asks, an entry once made
stays as it is, the classpath is asked for each name once, and a stub is kept under the name of its
class.  If no name was asked for with a dot in it, then each class without a stub is on record with
one report, and no other class is (`run_keepsStore`).

The last needs that names without dots have different binary spellings, so that no report of one
class keeps that of another from being recorded.
-/
import JavaScope.Proofs.Run.Isolation
import JavaScope.Proofs.Run.Records

namespace JavaScope

/-! ## Requests -/

/-- What a run is asked for. -/
inductive Request
  /-- The entry of a class, by its internal name. -/
  | entry (internal : String)
  /-- The stub of a class, by its internal name. -/
  | stub (internal : String)
  /-- The stub of a class, by its binary name. -/
  | stubOfBinary (binary : String)
  /-- The stub of the class that a dotted source name stands for. -/
  | resolveDotted (dotted : String)
  /-- The tables of a file. -/
  | build (u : CompilationUnit)
  /-- A type of this name, in the table of a scope of a file: both are given by their places among
  the files built so far and among the scopes of the file.  Values and methods are told by the
  tables alone, so that nothing is asked for. -/
  | lookUp (file scope : Nat) (name : String)

/-- The request gives an internal name without dots, if it gives one at all. -/
def Request.Dotless : Request → Prop
  | entry internal | stub internal => JavaScope.Dotless internal
  | _ => True

/-- A run, with the tables of the files built so far, the first file first. -/
structure Session where
  analysis : Analysis
  built : List ScopeTables := []

namespace Session

/-- The table of a scope of a file built before. -/
def table? (s : Session) (file scope : Nat) : Option SymbolTable :=
  (s.built[file]?.bind fun t => t.entries[scope]?).map (·.table)

/-- The run after a query. -/
def after {α : Type} (s : Session) (q : Query α) : Session :=
  { s with analysis := (s.analysis.answer q).2 }

/-- The run after one request. -/
def step (s : Session) : Request → Session
  | .entry internal => { s with analysis := (s.analysis.entry internal).2 }
  | .stub internal => s.after (Query.stub internal)
  | .stubOfBinary binary => s.after (Query.stubOfBinary binary)
  | .resolveDotted dotted => s.after (Query.resolveDotted dotted)
  | .build u =>
    let (tables, analysis) := s.analysis.buildTables u
    ⟨analysis, s.built ++ [tables]⟩
  | .lookUp file scope name =>
    match s.table? file scope with
    | some t => s.after (t.resolveType name)
    | none => s

/-- The run after some requests, one after the other. -/
def run (s : Session) (requests : List Request) : Session := requests.foldl step s

end Session

/-! ## Entries and requests of a store -/

namespace Store

/-- The names that the classpath was asked for are those with entries, each asked for once. -/
structure AskedOnce (s : Store) : Prop where
  requests : s.requests = s.entries.map (·.1)
  nodup : s.requests.Nodup

lemma askedOnce_empty : AskedOnce {} where
  requests := rfl
  nodup := List.nodup_nil

variable {p : Classpath} {s : Store} {α : Type}

lemma AskedOnce.mem_requests (h : AskedOnce s) (name : String) :
    name ∈ s.requests ↔ ∃ e, s.entry? name = some e := by
  rw [h.requests, entry?]
  constructor
  · intro hmem
    obtain ⟨⟨n, e⟩, he, rfl⟩ := List.mem_map.mp hmem
    cases hlookup : s.entries.lookup n with
    | none => simpa using List.lookup_eq_none_iff.mp hlookup _ he
    | some e' => exact ⟨e', rfl⟩
  · rintro ⟨e, he⟩
    obtain ⟨before, later, hentries, -⟩ := List.lookup_eq_some_iff.mp he
    rw [hentries]
    simp

lemma AskedOnce.entry (h : AskedOnce s) (name : String) : AskedOnce (s.entry p name).2 := by
  rcases entry_cases p s name with ⟨e, -, hsame⟩ | ⟨hnone, hnew⟩
  · rwa [hsame]
  · rw [hnew]
    have hunasked : name ∉ s.requests := by
      rw [h.mem_requests, hnone]
      simp
    refine ⟨?_, List.nodup_cons.mpr ⟨hunasked, h.nodup⟩⟩
    simp only [commit, List.map_cons, h.requests]

lemma AskedOnce.run (h : AskedOnce s) (q : Query α) : AskedOnce (Store.run p q s).2 := by
  induction q generalizing s with
  | done a => exact h
  | ask name next ih => exact ih _ (h.entry name)
  | warn d next ih => exact ih ⟨h.requests, h.nodup⟩

/-- An entry stays as it is when a class is asked for. -/
lemma kept_entry {name : String} {e : StubEntry} (h : s.entry? name = some e) (other : String) :
    Store.entry? (s.entry p other).2 name = some e := by
  rcases entry_cases p s other with ⟨e', -, hsame⟩ | ⟨hnone, hnew⟩
  · rwa [hsame]
  · rw [hnew, lookup_commit]
    split
    · next hname =>
      rw [hname, hnone] at h
      cases h
    · exact h

/-- An entry stays as it is when a query is answered. -/
lemma kept_run {name : String} {e : StubEntry} (h : s.entry? name = some e) (q : Query α) :
    Store.entry? (Store.run p q s).2 name = some e := by
  induction q generalizing s with
  | done a => exact h
  | ask other next ih => exact ih _ (kept_entry h other)
  | warn d next ih => exact ih h

end Store

/-- A resolved entry has the stub of the class that was asked for. -/
lemma Classpath.internalName_of_entry {p : Classpath} {name : String} {c : ClassStub}
    (h : p.entry name = .resolved c) : c.internalName = name := by
  unfold Classpath.entry at h
  split at h
  · cases h
  · cases h
  · split at h
    · cases h
    · split at h
      · next hname =>
        cases h
        exact hname
      · cases h

/-! ## Reports -/

namespace DiagnosticLog

variable {l : DiagnosticLog}

/-- The reports on the class file of the class with this binary name. -/
def reportsOn (binaryName : String) (l : DiagnosticLog) : List Diagnostic :=
  l.diagnostics.filter (·.isReportOn binaryName)

lemma reportsOn_add_of_not {binaryName : String} {d : Diagnostic}
    (hd : d.isReportOn binaryName = false) :
    (l.add d).reportsOn binaryName = l.reportsOn binaryName := by
  by_cases hseen : d.key ∈ l.seen
  · rw [add_of_mem hseen]
  · rw [add_of_not_mem hseen, reportsOn, reportsOn, List.filter_append]
    simp [hd]

/-- The first report on a class is recorded. -/
lemma Complete.reportsOn_add (h : l.Complete) {binaryName : String} {d : Diagnostic}
    (hd : d.isReportOn binaryName = true) (hnone : l.reportsOn binaryName = []) :
    (l.add d).reportsOn binaryName = [d] := by
  have hnew : d.key ∉ l.seen := by
    intro hmem
    obtain ⟨e, he, hkey⟩ := h.exists_of_mem_seen hmem
    have hreport : e.isReportOn binaryName = true := by
      rw [Diagnostic.isReportOn_of_key hkey, hd]
    have hmem : e ∈ l.reportsOn binaryName := List.mem_filter.mpr ⟨he, hreport⟩
    rw [hnone] at hmem
    cases hmem
  rw [add_of_not_mem hnew, reportsOn, List.filter_append]
  rw [reportsOn] at hnone
  simp [hnone, hd]

end DiagnosticLog

/-- The reports that an entry of this name calls for: one if the class has no stub although it has
bytes, and else none. -/
def StubEntry.reports (internal : String) (e : StubEntry) : List Diagnostic :=
  (e.error?.map (·.report internal)).toList

namespace Store

/-- The reports that the entry of this name calls for. -/
def reports (s : Store) (name : String) : List Diagnostic :=
  match s.entry? name with
  | some e => e.reports name
  | none => []

lemma reports_commit (s : Store) (name other : String) (e : StubEntry) :
    (s.commit name e).reports other = if other = name then e.reports name else s.reports other := by
  rw [reports, lookup_commit]
  by_cases hname : other = name
  · rw [if_pos hname, if_pos hname, hname]
  · rw [if_neg hname, if_neg hname, reports]

/-- All names asked for have no dots, and on each such name the log has exactly the reports that
its entry calls for. -/
structure ReportsOnce (s : Store) : Prop where
  complete : s.log.Complete
  dotless : ∀ name e, s.entry? name = some e → Dotless name
  reports : ∀ name, Dotless name → s.log.reportsOn (Name.toBinary name) = s.reports name

lemma reportsOnce_empty : ReportsOnce {} where
  complete := DiagnosticLog.complete_empty
  dotless := by rintro name e ⟨⟩
  reports _ _ := rfl

variable {p : Classpath} {s : Store}

/-- Other diagnostics make no difference. -/
lemma ReportsOnce.warn (h : ReportsOnce s) {d : Diagnostic} (hd : ∀ X, d.isReportOn X = false) :
    ReportsOnce { s with log := s.log.add d } where
  complete := h.complete.add d
  dotless := h.dotless
  reports name hname := (DiagnosticLog.reportsOn_add_of_not (hd _)).trans (h.reports name hname)

lemma isReportOn_report_of_ne {e : ClassError} {name other : String} (hname : Dotless name)
    (hother : Dotless other) (hne : other ≠ name) :
    (e.report name).isReportOn (Name.toBinary other) = false := by
  have hsubject : (e.report name).subject ≠ Name.toBinary other :=
    fun h => hne (toBinary_injective hother hname h.symm)
  simp [Diagnostic.isReportOn, hsubject]

/-- A class that is asked for the first time is reported if it has no stub. -/
lemma ReportsOnce.entry (h : ReportsOnce s) {name : String} (hname : Dotless name) :
    ReportsOnce (s.entry p name).2 := by
  rcases entry_cases p s name with ⟨e, -, hsame⟩ | ⟨hnone, hnew⟩
  · rwa [hsame]
  have hunreported : s.log.reportsOn (Name.toBinary name) = [] := by
    rw [h.reports name hname, Store.reports, hnone]
  rw [hnew]
  refine ⟨?_, fun other e he => ?_, fun other hother => ?_⟩
  · simp only [commit]
    cases (p.entry name).error? with
    | none => exact h.complete
    | some x => exact h.complete.add _
  · rw [lookup_commit] at he
    split at he
    · next hsame => rwa [hsame]
    · exact h.dotless other e he
  · rw [reports_commit]
    by_cases hsame : other = name
    · -- this very class
      subst hsame
      rw [if_pos rfl, StubEntry.reports]
      simp only [commit]
      cases herror : (p.entry other).error? with
      | none => exact hunreported
      | some x => exact h.complete.reportsOn_add (x.isReportOn_report other) hunreported
    · rw [if_neg hsame]
      refine Eq.trans ?_ (h.reports other hother)
      simp only [commit]
      cases (p.entry name).error? with
      | none => rfl
      | some x =>
        exact DiagnosticLog.reportsOn_add_of_not (isReportOn_report_of_ne hname hother hsame)

/-- A query that asks for names without dots, and warns of other things than class files, leaves
one report on each class without a stub; and its result is as it ensures. -/
lemma ReportsOnce.run {α : Type} {W : Diagnostic → Prop} {Q : α → Prop}
    (hW : ∀ d, W d → ∀ X, d.isReportOn X = false) {q : Query α} (hq : q.Ensures W Q)
    (h : ReportsOnce s) : ReportsOnce (Store.run p q s).2 := by
  induction hq generalizing s with
  | done _ => exact h
  | ask hname _ ih => exact ih _ (h.entry hname)
  | warn hd _ ih => exact ih (h.warn (hW _ hd))

end Store

/-- Warnings about imports and distant supertypes are not about class files. -/
lemma TableWarning.isReportOn_eq_false {config : Config} {d : Diagnostic}
    (h : TableWarning config d) (X : String) : d.isReportOn X = false := by
  rcases h with ⟨file, name, rfl⟩ | ⟨file, name, rfl⟩
  · simp [Diagnostic.isReportOn, importWarning, Diagnostic.classFileCodes,
      Diagnostic.unresolvedImport, Diagnostic.malformedClass, Diagnostic.unsupportedClassVersion,
      Diagnostic.classNameMismatch, Diagnostic.classpathUnreadable, Diagnostic.inconsistency]
  · simp [Diagnostic.isReportOn, depthWarning, Diagnostic.classFileCodes,
      Diagnostic.supertypeDepthExceeded, Diagnostic.malformedClass,
      Diagnostic.unsupportedClassVersion, Diagnostic.classNameMismatch,
      Diagnostic.classpathUnreadable, Diagnostic.inconsistency]

/-- What a query ensures of its result holds in every run. -/
lemma Query.Ensures.run {α : Type} {W : Diagnostic → Prop} {Q : α → Prop} {q : Query α}
    (hq : q.Ensures W Q) (p : Classpath) (s : Store) : Q (Store.run p q s).1 := by
  induction hq generalizing s with
  | done ha => exact ha
  | ask _ _ ih => exact ih _ _
  | warn _ _ ih => exact ih _

/-! ## Runs -/

namespace Session

open Analysis (importing)

/-- The run is sound, its store has asked for each class once, and all tables ask for names without
dots. -/
structure Sound (config : Config) (p : Classpath) (s : Session) : Prop where
  analysis : s.analysis.Sound config p
  asked : s.analysis.store.AskedOnce
  built : ∀ t ∈ s.built, ∀ e ∈ t.entries, e.table.Dotless

variable {config : Config} {p : Classpath} {s : Session}

lemma sound_start (config : Config) (p : Classpath) : Sound config p ⟨⟨config, p, {}⟩, []⟩ where
  analysis := Analysis.sound_fresh config p
  asked := Store.askedOnce_empty
  built := by rintro t ⟨⟩

lemma dotless_table? (hbuilt : ∀ t ∈ s.built, ∀ e ∈ t.entries, e.table.Dotless)
    {file scope : Nat} {t : SymbolTable} (ht : s.table? file scope = some t) : t.Dotless := by
  obtain ⟨e, he, rfl⟩ := Option.map_eq_some_iff.mp ht
  obtain ⟨tables, htables, he⟩ := Option.bind_eq_some_iff.mp he
  exact hbuilt tables (List.mem_of_getElem? htables) e (List.mem_of_getElem? he)

/-- A request comes down to one query.  If no internal name is given with a dot in it, then none
is asked for, and the only warnings are those of tables. -/
lemma exists_query (hbuilt : ∀ t ∈ s.built, ∀ e ∈ t.entries, e.table.Dotless) (r : Request) :
    ∃ (α : Type) (q : Query α), (s.step r).analysis = (s.analysis.answer q).2 ∧
      (r.Dotless → ∃ Q, q.Ensures (TableWarning s.analysis.config) Q) := by
  cases r with
  | entry internal => exact ⟨_, .stub internal, rfl, fun h => ⟨_, Query.decent_stub h⟩⟩
  | stub internal => exact ⟨_, .stub internal, rfl, fun h => ⟨_, Query.decent_stub h⟩⟩
  | stubOfBinary binary =>
    exact ⟨_, .stubOfBinary binary, rfl, fun _ => ⟨_, Query.decent_stubOfBinary binary⟩⟩
  | resolveDotted dotted =>
    exact ⟨_, .resolveDotted dotted, rfl, fun _ => ⟨_, Query.decent_resolveDotted dotted⟩⟩
  | build u => exact ⟨_, buildTables _ u, rfl, fun _ => ⟨_, ensures_buildTables _ u⟩⟩
  | lookUp file scope name =>
    simp only [Session.step]
    cases htable : s.table? file scope with
    | none => exact ⟨Unit, pure (), rfl, fun _ => ⟨fun _ => True, Query.ensures_pure trivial⟩⟩
    | some t =>
      have ht := dotless_table? hbuilt htable
      exact ⟨_, t.resolveType name, rfl, fun _ => ⟨_, ht.resolveType name⟩⟩

/-- New tables ask for names without dots. -/
lemma dotless_built_step (hbuilt : ∀ t ∈ s.built, ∀ e ∈ t.entries, e.table.Dotless) (r : Request) :
    ∀ t ∈ (s.step r).built, ∀ e ∈ t.entries, e.table.Dotless := by
  cases r with
  | build u =>
    intro t ht
    rcases List.mem_append.mp ht with ht | ht
    · exact hbuilt t ht
    · obtain rfl := List.mem_singleton.mp ht
      exact (ensures_buildTables s.analysis.config u).run s.analysis.classpath s.analysis.store
  | lookUp file scope name =>
    simp only [Session.step]
    cases s.table? file scope with
    | none => exact hbuilt
    | some t => exact hbuilt
  | _ => exact hbuilt

lemma Sound.step (h : Sound config p s) (r : Request) : Sound config p (s.step r) := by
  obtain ⟨α, q, hquery, -⟩ := exists_query h.built r
  refine ⟨?_, ?_, dotless_built_step h.built r⟩
  · rw [hquery]
    exact (h.analysis.answer q).2.1
  · rw [hquery]
    exact h.asked.run q

lemma Sound.run (h : Sound config p s) (requests : List Request) :
    Sound config p (s.run requests) := by
  induction requests generalizing s with
  | nil => exact h
  | cons r requests ih => exact ih (h.step r)

/-- An entry stays as it is. -/
lemma Sound.kept_run (h : Sound config p s) {name : String} {e : StubEntry}
    (he : s.analysis.store.entry? name = some e) (requests : List Request) :
    Store.entry? (s.run requests).analysis.store name = some e := by
  induction requests generalizing s with
  | nil => exact he
  | cons r requests ih =>
    obtain ⟨α, q, hquery, -⟩ := exists_query h.built r
    refine ih (h.step r) ?_
    rw [hquery]
    exact Store.kept_run he q

/-- Requests without dots leave one report on each class without a stub. -/
lemma Sound.reportsOnce_run (h : Sound config p s) (hs : s.analysis.store.ReportsOnce)
    {requests : List Request} (hdotless : ∀ r ∈ requests, r.Dotless) :
    (s.run requests).analysis.store.ReportsOnce := by
  induction requests generalizing s with
  | nil => exact hs
  | cons r requests ih =>
    obtain ⟨α, q, hquery, hasks⟩ := exists_query h.built r
    obtain ⟨Q, hq⟩ := hasks (hdotless r (by simp))
    refine ih (h.step r) ?_ fun r' hr' => hdotless r' (by simp [hr'])
    rw [hquery]
    exact hs.run (fun d hd => hd.isReportOn_eq_false) hq

/-- Take any run.  An entry of its store is never changed or removed, and every later request for
the name gets it.  The names that the classpath was asked for are those with an entry, and it was
asked for each of them once.  A stub is kept under the internal name of its class.  If no internal
name was given with a dot in it, then on a class that has bytes but no stub there is exactly one
report on record, with the reason, and on a class that is missing or has a stub there is none. -/
theorem run_keepsStore {config : Config} {p : Classpath} {a : Analysis}
    (hnew : Analysis.new config p = .ok a) (requests : List Request) :
    let s := Session.run ⟨a, []⟩ requests
    let store := s.analysis.store
    (∀ later name e, store.entry? name = some e →
      Store.entry? (s.run later).analysis.store name = some e ∧
        ((s.run later).analysis.entry name).1 = e) ∧
      (store.requests.Nodup ∧ ∀ name, name ∈ store.requests ↔ ∃ e, store.entry? name = some e) ∧
      (∀ name c, store.entry? name = some (.resolved c) → c.internalName = name) ∧
      ((∀ r ∈ requests, r.Dotless) → ∀ name e, store.entry? name = some e →
        store.log.reportsOn (Name.toBinary name) =
          match e with
          | .failed x => [x.report name]
          | .missing | .resolved _ => []) := by
  intro s store
  obtain rfl := Analysis.eq_of_new hnew
  have hsound := (sound_start config p).run requests
  refine ⟨fun later name e he => ?_, ⟨hsound.asked.nodup, hsound.asked.mem_requests⟩,
    fun name c he => ?_, fun hdotless name e he => ?_⟩
  · have hlater := (hsound.run later).analysis
    refine ⟨hsound.kept_run he later, ?_⟩
    rw [Analysis.entry, hlater.classpath, (hlater.store.entry name).1]
    exact (hsound.analysis.store.entries name e he).symm
  · exact Classpath.internalName_of_entry (hsound.analysis.store.entries name _ he).symm
  · have hreports := (sound_start config p).reportsOnce_run Store.reportsOnce_empty hdotless
    rw [hreports.reports name (hreports.dotless name e he), Store.reports, he]
    cases e <;> rfl

/-- A class file with one byte is asked for, then a file that imports its class is built, and a name
is looked up in it: the entry stays, and one report is on record. -/
theorem run_keepsStore_truncatedClass :
    let p := MemoryClasspath.toClasspath ⟨[("a/A", [0xCA])]⟩
    let requests : List Request :=
      [.stub "a/A", .build (importing ⟨0⟩ "a.A"), .lookUp 0 0 "A", .stubOfBinary "a.A"]
    let s := Session.run ⟨⟨{}, p, {}⟩, []⟩ requests
    Analysis.new {} p = .ok ⟨{}, p, {}⟩ ∧ (∀ r ∈ requests, r.Dotless) ∧
      s.analysis.store.requests.Nodup ∧ "a/A" ∈ s.analysis.store.requests ∧
      ∃ x, (s.analysis.entry "a/A").1 = .failed x ∧
        s.analysis.store.log.reportsOn "a.A" = [x.report "a/A"] := by
  intro p requests
  have hnew : Analysis.new {} p = .ok ⟨{}, p, {}⟩ := rfl
  have hdotless : ∀ r ∈ requests, r.Dotless := by
    simp [requests, Request.Dotless, Dotless]
  have hrun := run_keepsStore hnew requests
  -- the first request makes the entry, and no later one changes it
  obtain ⟨x, hfailed⟩ : ∃ x, p.entry "a/A" = .failed x := by
    have herror : (p.entry "a/A").error? = some (.malformed 0 (.endOfInput 4 1)) := by
      decide +kernel
    generalize p.entry "a/A" = e at herror
    cases e with
    | failed x => exact ⟨x, rfl⟩
    | _ => cases herror
  have hstub : Store.entry? (Session.step ⟨⟨{}, p, {}⟩, []⟩ (.stub "a/A")).analysis.store "a/A" =
      some (p.entry "a/A") := (Store.lookup_commit _ _ _ _).trans (if_pos rfl)
  have hentry : Store.entry? (Session.run ⟨⟨{}, p, {}⟩, []⟩ requests).analysis.store "a/A" =
      some (.failed x) := by
    rw [← hfailed]
    exact ((sound_start {} p).step _).kept_run hstub _
  -- from here on it does not matter what the run is
  generalize Session.run ⟨⟨{}, p, {}⟩, []⟩ requests = s at hrun hentry ⊢
  obtain ⟨hkept, ⟨hnodup, hasked⟩, -, hreports⟩ := hrun
  have hmem : "a/A" ∈ s.analysis.store.requests := (hasked "a/A").mpr ⟨_, hentry⟩
  have hreport : s.analysis.store.log.reportsOn (Name.toBinary "a/A") = [x.report "a/A"] :=
    hreports hdotless _ _ hentry
  have htext : Name.toBinary "a/A" = "a.A" := by decide +kernel
  rw [htext] at hreport
  exact ⟨hnew, hdotless, hnodup, hmem, x, (hkept [] _ _ hentry).2, hreport⟩

end Session

end JavaScope
