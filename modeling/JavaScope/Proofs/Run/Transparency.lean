/-
# Runs see through their stores

A store is *faithful* to a classpath if every entry in it is the one that the classpath gives
rise to, and every failed entry in it is on record in the log.  Runs keep stores faithful.
The answer of a query is then its value against the classpath (`run_fst`), whatever was asked
before; and to the log a query adds what it raises on its own, as far as that is new
(`run_log`).
-/
import Mathlib.Tactic.Lemma
import JavaScope.Analysis

namespace JavaScope

/-! ## Queries against a classpath -/

/-- The stub of a class on a classpath. -/
def Classpath.stub? (p : Classpath) (internal : String) : Option ClassStub :=
  (p.entry internal).stub?

/-- What is reported about a class when it is asked for. -/
def Classpath.reports (p : Classpath) (internal : String) : List Diagnostic :=
  match (p.entry internal).error? with
  | some e => [e.report internal]
  | none => []

namespace Query

variable {α β : Type}

/-- The value of a query against a classpath. -/
def value (p : Classpath) (q : Query α) : α := (q.eval p.stub?).1

/-- The diagnostics that a query raises on its own: reports of the classes that it asks for,
and warnings. -/
def raised (p : Classpath) : Query α → List Diagnostic
  | done _ => []
  | ask name next => p.reports name ++ (next (p.stub? name)).raised p
  | warn d next => d :: next.raised p

lemma bind_eq (q : Query α) (f : α → Query β) : q >>= f = q.bind f := rfl

lemma bind_assoc {γ : Type} (q : Query α) (f : α → Query β) (g : β → Query γ) :
    (q.bind f).bind g = q.bind fun a => (f a).bind g := by
  induction q with
  | done a => rfl
  | ask name next ih => exact congrArg (ask name) (funext fun stub => ih stub)
  | warn d next ih => exact congrArg (warn d) ih

lemma bind_done (q : Query α) : q.bind done = q := by
  induction q with
  | done a => rfl
  | ask name next ih => exact congrArg (ask name) (funext fun stub => ih stub)
  | warn d next ih => exact congrArg (warn d) ih

instance : LawfulMonad Query :=
  LawfulMonad.mk' Query bind_done (fun _ _ => rfl) bind_assoc

lemma value_bind (p : Classpath) (q : Query α) (f : α → Query β) :
    (q >>= f).value p = (f (q.value p)).value p := by
  rw [bind_eq]
  induction q with
  | done a => rfl
  | ask name next ih => exact ih (p.stub? name)
  | warn d next ih => exact ih

@[simp] lemma value_pure (p : Classpath) (a : α) : (pure a : Query α).value p = a := rfl

lemma value_map (p : Classpath) (f : α → β) (q : Query α) : (f <$> q).value p = f (q.value p) := by
  rw [map_eq_pure_bind, value_bind, value_pure]

end Query

/-! ## Logs -/

namespace DiagnosticLog

/-- Adds diagnostics one by one. -/
def addAll (l : DiagnosticLog) (ds : List Diagnostic) : DiagnosticLog := ds.foldl add l

lemma add_of_mem {l : DiagnosticLog} {d : Diagnostic} (h : d.key ∈ l.seen) : l.add d = l := by
  rw [add, if_pos (by simpa [contains] using h)]

lemma add_of_not_mem {l : DiagnosticLog} {d : Diagnostic} (h : d.key ∉ l.seen) :
    l.add d = ⟨d.key :: l.seen, l.diagnostics ++ [d]⟩ := by
  rw [add, if_neg (by simpa [contains] using h)]

lemma key_mem_add (l : DiagnosticLog) (d : Diagnostic) : d.key ∈ (l.add d).seen := by
  by_cases h : d.key ∈ l.seen
  · rwa [add_of_mem h]
  · rw [add_of_not_mem h]
    exact List.mem_cons_self

lemma mem_add_of_mem {l : DiagnosticLog} {k : Option String × String} (d : Diagnostic)
    (h : k ∈ l.seen) : k ∈ (l.add d).seen := by
  by_cases hd : d.key ∈ l.seen
  · rwa [add_of_mem hd]
  · rw [add_of_not_mem hd]
    exact List.mem_cons_of_mem _ h

lemma mem_addAll_of_mem {l : DiagnosticLog} {k : Option String × String} (ds : List Diagnostic)
    (h : k ∈ l.seen) : k ∈ (l.addAll ds).seen := by
  induction ds generalizing l with
  | nil => exact h
  | cons d ds ih => exact ih (mem_add_of_mem d h)

lemma addAll_of_recorded {l : DiagnosticLog} {ds : List Diagnostic}
    (h : ∀ d ∈ ds, d.key ∈ l.seen) : l.addAll ds = l := by
  induction ds with
  | nil => rfl
  | cons d ds ih =>
    show (l.add d).addAll ds = l
    rw [add_of_mem (h d (by simp))]
    exact ih fun e he => h e (by simp [he])

lemma addAll_append (l : DiagnosticLog) (ds es : List Diagnostic) :
    l.addAll (ds ++ es) = (l.addAll ds).addAll es := List.foldl_append

lemma key_mem_addAll {l : DiagnosticLog} {ds : List Diagnostic} {d : Diagnostic} (h : d ∈ ds) :
    d.key ∈ (l.addAll ds).seen := by
  induction ds generalizing l with
  | nil => cases h
  | cons e ds ih =>
    rcases List.mem_cons.mp h with rfl | h
    · exact mem_addAll_of_mem ds (key_mem_add l d)
    · exact ih h

end DiagnosticLog

/-! ## Faithful stores -/

namespace Store

/-- The entries are those of the classpath, and the failed ones are on record. -/
structure Faithful (p : Classpath) (s : Store) : Prop where
  entries : ∀ name e, s.entry? name = some e → e = p.entry name
  recorded : ∀ name e, s.entry? name = some e → ∀ d ∈ p.reports name, d.key ∈ s.log.seen

lemma faithful_empty (p : Classpath) : Faithful p {} where
  entries := by rintro name e ⟨⟩
  recorded := by rintro name e ⟨⟩

variable {p : Classpath} {s : Store}

lemma Faithful.warn (h : Faithful p s) (d : Diagnostic) :
    Faithful p { s with log := s.log.add d } where
  entries := h.entries
  recorded := fun name e he d' hd' => DiagnosticLog.mem_add_of_mem d (h.recorded name e he d' hd')

lemma commit_log (s : Store) (name : String) :
    (s.commit name (p.entry name)).log = s.log.addAll (p.reports name) := by
  unfold commit Classpath.reports
  cases (p.entry name).error? <;> rfl

lemma lookup_commit (s : Store) (name other : String) (e : StubEntry) :
    Store.entry? (s.commit name e) other = if other = name then some e else s.entry? other := by
  simp only [commit, entry?, List.lookup_cons]
  split <;> simp_all

/-- Asking for a class finds its entry, or makes one. -/
lemma entry_cases (p : Classpath) (s : Store) (name : String) :
    (∃ e, s.entry? name = some e ∧ s.entry p name = (e, s)) ∨
      (s.entry? name = none ∧ s.entry p name =
        (p.entry name, { s with requests := name :: s.requests }.commit name (p.entry name))) := by
  cases hs : s.entry? name with
  | some e => exact .inl ⟨e, rfl, by simp only [entry, hs]⟩
  | none => exact .inr ⟨rfl, by simp only [entry, hs]⟩

/-- Asking for a class gives the entry of the classpath and adds its report, if that is new. -/
lemma Faithful.entry (h : Faithful p s) (name : String) :
    (s.entry p name).1 = p.entry name ∧ Faithful p (s.entry p name).2 ∧
      (s.entry p name).2.log = s.log.addAll (p.reports name) := by
  rcases entry_cases p s name with ⟨e, hs, hsame⟩ | ⟨-, hnew⟩
  · rw [hsame]
    have hlog := DiagnosticLog.addAll_of_recorded (h.recorded name e hs)
    exact ⟨h.entries name e hs, h, hlog.symm⟩
  · -- the classpath is asked, and what it gives is committed
    rw [hnew]
    have hlog := commit_log (p := p) { s with requests := name :: s.requests } name
    refine ⟨rfl, ⟨fun other e he => ?_, fun other e he d hd => ?_⟩, hlog⟩
    · rw [lookup_commit] at he
      split at he
      · next hother => rw [← Option.some.inj he, hother]
      · exact h.entries other e he
    · rw [lookup_commit] at he
      rw [hlog]
      split at he
      · next hother =>
        subst hother
        exact DiagnosticLog.key_mem_addAll hd
      · exact DiagnosticLog.mem_addAll_of_mem _ (h.recorded other e he d hd)

/-- A run gives a query its value, adds what the query raises, and stays faithful. -/
theorem Faithful.run {α : Type} (h : Faithful p s) (q : Query α) :
    (Store.run p q s).1 = q.value p ∧ Faithful p (Store.run p q s).2 ∧
      (Store.run p q s).2.log = s.log.addAll (q.raised p) := by
  induction q generalizing s with
  | done a => exact ⟨rfl, h, rfl⟩
  | ask name next ih =>
    obtain ⟨hentry, hfaithful, hlog⟩ := h.entry name
    have hrest := ih (s.entry p name).1.stub? hfaithful
    rw [hentry, hlog, ← DiagnosticLog.addAll_append] at hrest
    simp only [Store.run]
    rw [hentry]
    exact hrest
  | warn d next ih => exact ih (h.warn d)

end Store

/-! ## Runs -/

namespace Analysis

/-- What an analysis becomes when it is used: queries are answered, classes are asked for,
files are analysed, and diagnostics are taken away. -/
inductive Reaches : Analysis → Analysis → Prop
  | refl {a : Analysis} : Reaches a a
  | answer {a b : Analysis} {α : Type} (q : Query α) : Reaches a b → Reaches a (b.answer q).2
  | entry {a b : Analysis} (internal : String) : Reaches a b → Reaches a (b.entry internal).2
  | analyzeFiles {a b : Analysis} (units : List CompilationUnit) :
      Reaches a b → Reaches a (b.analyzeFiles units).2
  | takeDiagnostics {a b : Analysis} : Reaches a b → Reaches a b.takeDiagnostics.2

/-- The analysis has its settings and a store that is faithful to its classpath. -/
structure Sound (config : Config) (p : Classpath) (a : Analysis) : Prop where
  config : a.config = config
  classpath : a.classpath = p
  store : a.store.Faithful p

variable {config : Config} {p : Classpath} {a b : Analysis}

lemma eq_of_new (h : Analysis.new config p = .ok a) : a = ⟨config, p, {}⟩ := by
  unfold Analysis.new at h
  cases hcheck : config.check with
  | error e =>
    rw [hcheck] at h
    cases h
  | ok _ =>
    rw [hcheck] at h
    exact (Except.ok.inj h).symm

lemma sound_fresh (config : Config) (p : Classpath) : Sound config p ⟨config, p, {}⟩ :=
  ⟨rfl, rfl, Store.faithful_empty p⟩

lemma sound_new (h : Analysis.new config p = .ok a) : a.Sound config p := by
  rw [eq_of_new h]
  exact sound_fresh config p

/-- Any query gets its value against the classpath. -/
lemma Sound.answer {α : Type} (h : a.Sound config p) (q : Query α) :
    (a.answer q).1 = q.value p ∧ (a.answer q).2.Sound config p ∧
      (a.answer q).2.store.log = a.store.log.addAll (q.raised p) := by
  obtain rfl := h.classpath
  obtain ⟨hvalue, hfaithful, hlog⟩ := h.store.run q
  exact ⟨hvalue, ⟨h.config, rfl, hfaithful⟩, hlog⟩

/-- A file gets the value of its tables. -/
lemma Sound.buildTables (h : a.Sound config p) (u : CompilationUnit) :
    (a.buildTables u).1 = (JavaScope.buildTables config u).value p ∧
      (a.buildTables u).2.Sound config p ∧
      (a.buildTables u).2.store.log =
        a.store.log.addAll ((JavaScope.buildTables config u).raised p) := by
  obtain rfl := h.config
  exact h.answer (JavaScope.buildTables a.config u)

/-- Files are analysed to the values of their tables. -/
lemma Sound.analyzeFiles (h : a.Sound config p) (units : List CompilationUnit) :
    (a.analyzeFiles units).1 = units.map (fun u => (JavaScope.buildTables config u).value p) ∧
      (a.analyzeFiles units).2.Sound config p ∧
      (a.analyzeFiles units).2.store.log =
        a.store.log.addAll (units.flatMap fun u => (JavaScope.buildTables config u).raised p) := by
  induction units generalizing a with
  | nil => exact ⟨rfl, h, rfl⟩
  | cons u units ih =>
    obtain ⟨hvalue, hsound, hlog⟩ := h.buildTables u
    obtain ⟨hvalues, hsound', hlogs⟩ := ih hsound
    refine ⟨?_, hsound', ?_⟩
    · rw [List.map_cons, ← hvalues, ← hvalue]
      rfl
    · rw [List.flatMap_cons, DiagnosticLog.addAll_append, ← hlog]
      exact hlogs

lemma Sound.reaches (h : a.Sound config p) (hreach : a.Reaches b) : b.Sound config p := by
  induction hreach with
  | refl => exact h
  | answer q _ ih => exact (ih.answer q).2.1
  | entry internal _ ih =>
    obtain rfl := ih.classpath
    exact ⟨ih.config, rfl, (ih.store.entry internal).2.1⟩
  | analyzeFiles units _ ih => exact (ih.analyzeFiles units).2.1
  | takeDiagnostics _ ih =>
    exact ⟨ih.config, ih.classpath, ih.store.entries, ih.store.recorded⟩

/-- A new analysis that was used in any way gives a file the value of its tables. -/
lemma Reaches.buildTables_value (hreach : Reaches ⟨config, p, {}⟩ a) (u : CompilationUnit) :
    (a.buildTables u).1 = (JavaScope.buildTables config u).value p := by
  exact (((sound_fresh config p).reaches hreach).buildTables u).1

end Analysis

end JavaScope
