/-
# Files do not influence each other

Whatever an analysis did before, it gives every file the tables that the file gets alone, and
these answer look-ups alike ever after; and the diagnostics on record do not depend on the
order of the files but for the files that they name (`analyzeFiles_independent`).  The first is
due to faithful stores.  The second is due to the fact that the code and the subject of a
diagnostic that comes up while tables are built tell all the rest of it.
-/
import JavaScope.Proofs.Run.Requests
import JavaScope.Proofs.Run.Transparency

namespace JavaScope

/-! ## Diagnostics told by their keys -/

/-- The diagnostic without the file that met the problem first. -/
def Diagnostic.withoutFile (d : Diagnostic) : Diagnostic := { d with file := none }

/-- The diagnostics that may come up while tables are built: warnings, and reports of classes
whose names have no dots. -/
def TableDiagnostic (config : Config) (p : Classpath) (d : Diagnostic) : Prop :=
  TableWarning config d ∨ ∃ name, Dotless name ∧ d ∈ p.reports name

/-- What a query raises is a warning of its sort, or the report of a class that it asks for. -/
lemma Query.Ensures.raised {α : Type} {W : Diagnostic → Prop} {q : Query α} {Q : α → Prop}
    (h : q.Ensures W Q) (p : Classpath) :
    ∀ d ∈ q.raised p, W d ∨ ∃ name, Dotless name ∧ d ∈ p.reports name := by
  induction h with
  | done _ => simp [Query.raised]
  | @ask name next hname _ ih =>
    intro d hd
    rcases List.mem_append.mp hd with hd | hd
    · exact .inr ⟨name, hname, hd⟩
    · exact ih (p.stub? name) d hd
  | warn hwarning _ ih =>
    intro d hd
    rcases List.mem_cons.mp hd with rfl | hd
    · exact .inl hwarning
    · exact ih d hd

lemma replace_injective {cs ds : List Char} (hcs : '.' ∉ cs) (hds : '.' ∉ ds)
    (h : Name.replace '/' '.' cs = Name.replace '/' '.' ds) : cs = ds := by
  induction cs generalizing ds with
  | nil => simpa [Name.replace] using h.symm
  | cons c cs ih =>
    cases ds with
    | nil => cases h
    | cons d ds =>
      simp only [Name.replace, List.map_cons] at h
      obtain ⟨hhead, htail⟩ := List.cons.inj h
      simp only [List.mem_cons, not_or] at hcs hds
      have hrest := ih hcs.2 hds.2 htail
      by_cases hc : c = '/'
      · by_cases hd : d = '/'
        · rw [hc, hd, hrest]
        · rw [if_pos hc, if_neg hd] at hhead
          exact absurd hhead hds.1
      · by_cases hd : d = '/'
        · rw [if_neg hc, if_pos hd] at hhead
          exact absurd hhead.symm hcs.1
        · rw [if_neg hc, if_neg hd] at hhead
          rw [hhead, hrest]

/-- Names without dots are told by their binary spellings. -/
lemma toBinary_injective {a b : String} (ha : Dotless a) (hb : Dotless b)
    (h : Name.toBinary a = Name.toBinary b) : a = b := by
  have hlist : Name.replace '/' '.' a.toList = Name.replace '/' '.' b.toList := by
    simpa [Name.toBinary] using congrArg String.toList h
  exact String.toList_inj.mp (replace_injective ha hb hlist)

lemma mem_reports {p : Classpath} {name : String} {d : Diagnostic} (h : d ∈ p.reports name) :
    ∃ e, (p.entry name).error? = some e ∧ d = e.report name := by
  unfold Classpath.reports at h
  split at h
  · next e he => exact ⟨e, he, List.mem_singleton.mp h⟩
  · cases h

lemma code_ne (e : ClassError) :
    e.code ≠ Diagnostic.unresolvedImport ∧ e.code ≠ Diagnostic.supertypeDepthExceeded := by
  cases e <;> simp [ClassError.code, Diagnostic.unresolvedImport,
    Diagnostic.supertypeDepthExceeded, Diagnostic.malformedClass,
    Diagnostic.unsupportedClassVersion, Diagnostic.classNameMismatch,
    Diagnostic.classpathUnreadable, Diagnostic.inconsistency]

lemma TableWarning.code_ne {config : Config} {d : Diagnostic} (h : TableWarning config d)
    (e : ClassError) (name : String) : d.code ≠ (e.report name).code := by
  rcases h with ⟨file, subject, rfl⟩ | ⟨file, subject, rfl⟩
  · exact fun h => (JavaScope.code_ne e).1 (Option.some.inj h).symm
  · exact fun h => (JavaScope.code_ne e).2 (Option.some.inj h).symm

lemma TableWarning.withoutFile_eq {config : Config} {d e : Diagnostic} (hd : TableWarning config d)
    (he : TableWarning config e) (hcode : d.code = e.code) (hsubject : d.subject = e.subject) :
    d.withoutFile = e.withoutFile := by
  have hne : Diagnostic.unresolvedImport ≠ Diagnostic.supertypeDepthExceeded := by decide
  rcases hd with ⟨file, subject, rfl⟩ | ⟨file, subject, rfl⟩ <;>
    rcases he with ⟨file', subject', rfl⟩ | ⟨file', subject', rfl⟩
  · obtain rfl : subject = subject' := hsubject
    rfl
  · exact absurd (Option.some.inj hcode) hne
  · exact absurd (Option.some.inj hcode).symm hne
  · obtain rfl : subject = subject' := hsubject
    rfl

/-- Two such diagnostics with one code and one subject are the same but for their files. -/
lemma TableDiagnostic.withoutFile_eq {config : Config} {p : Classpath} {d e : Diagnostic}
    (hd : TableDiagnostic config p d) (he : TableDiagnostic config p e) (h : d.key = e.key) :
    d.withoutFile = e.withoutFile := by
  obtain ⟨hcode, hsubject⟩ := Prod.mk.inj h
  rcases hd with hd | ⟨a, ha, hd⟩
  · rcases he with he | ⟨b, hb, he⟩
    · exact hd.withoutFile_eq he hcode hsubject
    · obtain ⟨x, -, rfl⟩ := mem_reports he
      exact absurd hcode (hd.code_ne x b)
  · obtain ⟨x, hx, rfl⟩ := mem_reports hd
    rcases he with he | ⟨b, hb, he⟩
    · exact absurd hcode.symm (he.code_ne x a)
    · -- one class, so one entry of the classpath
      obtain ⟨y, hy, rfl⟩ := mem_reports he
      obtain rfl := toBinary_injective ha hb hsubject
      rw [hx] at hy
      rw [Option.some.inj hy]

/-! ## Logs up to files -/

namespace DiagnosticLog

/-- Added diagnostics are on record if their keys are new.  If keys tell diagnostics up to
files, it does not matter which one of a key came first. -/
lemma mem_addAll {l : DiagnosticLog} {ds : List Diagnostic}
    (hkeys : ∀ d ∈ ds, ∀ e ∈ ds, d.key = e.key → d.withoutFile = e.withoutFile) (x : Diagnostic) :
    x ∈ (l.addAll ds).diagnostics.map (·.withoutFile) ↔
      x ∈ l.diagnostics.map (·.withoutFile) ∨
        ∃ d ∈ ds, d.key ∉ l.seen ∧ d.withoutFile = x := by
  induction ds generalizing l with
  | nil => simp [addAll]
  | cons d ds ih =>
    have hrest := ih (l := l.add d) fun a ha b hb => hkeys a (by simp [ha]) b (by simp [hb])
    show x ∈ ((l.add d).addAll ds).diagnostics.map (·.withoutFile) ↔ _
    rw [hrest]
    by_cases hd : d.key ∈ l.seen
    · rw [add_of_mem hd]
      have hnot : ¬(d.key ∉ l.seen ∧ d.withoutFile = x) := fun h => h.1 hd
      simp only [List.mem_cons, exists_eq_or_imp, hnot, false_or]
    · rw [add_of_not_mem hd]
      simp only [List.map_append, List.map_cons, List.map_nil, List.mem_append, List.mem_cons,
        List.not_mem_nil, or_false, not_or, exists_eq_or_imp]
      constructor
      · rintro ((h | rfl) | ⟨e, he, hnew, rfl⟩)
        · exact .inl h
        · exact .inr (.inl ⟨hd, rfl⟩)
        · exact .inr (.inr ⟨e, he, hnew.2, rfl⟩)
      · rintro (h | ⟨-, rfl⟩ | ⟨e, he, hnew, rfl⟩)
        · exact .inl (.inl h)
        · exact .inl (.inr rfl)
        · -- a later diagnostic with the key of this one is the same up to its file
          by_cases hkey : e.key = d.key
          · exact .inl (.inr (hkeys e (by simp [he]) d (by simp) hkey))
          · exact .inr ⟨e, he, ⟨hkey, hnew⟩, rfl⟩

end DiagnosticLog

namespace Analysis

/-- The diagnostics on record, without files. -/
def recorded (a : Analysis) : List Diagnostic := a.store.log.diagnostics.map (·.withoutFile)

lemma raised_keys (config : Config) (p : Classpath) (units : List CompilationUnit) :
    ∀ d ∈ units.flatMap (fun u => (JavaScope.buildTables config u).raised p),
      ∀ e ∈ units.flatMap (fun u => (JavaScope.buildTables config u).raised p),
        d.key = e.key → d.withoutFile = e.withoutFile := by
  intro d hd e he hkey
  obtain ⟨u, -, hd⟩ := List.mem_flatMap.mp hd
  obtain ⟨v, -, he⟩ := List.mem_flatMap.mp he
  have hd : TableDiagnostic config p d := (ensures_buildTables config u).raised p d hd
  exact hd.withoutFile_eq ((ensures_buildTables config v).raised p e he) hkey

/-- An analysis gives every file the tables that the file gets from a fresh one, whatever it
did before.  Types looked up in them at any later time are the same, and so are values and
methods, which the tables tell alone.  Any order of the files leaves the same diagnostics on
record, but for the files in them. -/
theorem analyzeFiles_independent {config : Config} {p : Classpath} {fresh a : Analysis}
    (hnew : Analysis.new config p = .ok fresh) (hreach : fresh.Reaches a)
    (units : List CompilationUnit) :
    (a.analyzeFiles units).1 = units.map (fun u => (fresh.buildTables u).1) ∧
      (∀ u ∈ units, ∀ later alone, (a.analyzeFiles units).2.Reaches later →
        (fresh.buildTables u).2.Reaches alone → ∀ e ∈ (fresh.buildTables u).1.entries, ∀ name,
          (later.answer (e.table.resolveType name)).1 =
            (alone.answer (e.table.resolveType name)).1) ∧
      ∀ units', units.Perm units' → ∀ d,
        d ∈ (a.analyzeFiles units).2.recorded ↔ d ∈ (a.analyzeFiles units').2.recorded := by
  have hfresh := sound_new hnew
  have ha := hfresh.reaches hreach
  obtain ⟨htables, hafter, hlog⟩ := ha.analyzeFiles units
  refine ⟨?_, fun u hu later alone hlater halone e he name => ?_, fun units' hperm d => ?_⟩
  · rw [htables]
    refine List.map_congr_left fun u _ => ?_
    exact (hfresh.buildTables u).1.symm
  · have hq := (hafter.reaches hlater).answer (e.table.resolveType name)
    have hq' := ((hfresh.buildTables u).2.1.reaches halone).answer (e.table.resolveType name)
    rw [hq.1, hq'.1]
  · obtain ⟨-, -, hlog'⟩ := ha.analyzeFiles units'
    have hkeys := fun us => raised_keys config p us
    rw [recorded, recorded, hlog, hlog', DiagnosticLog.mem_addAll (hkeys units),
      DiagnosticLog.mem_addAll (hkeys units')]
    have hmem : ∀ e, e ∈ units.flatMap (fun u => (JavaScope.buildTables config u).raised p) ↔
        e ∈ units'.flatMap (fun u => (JavaScope.buildTables config u).raised p) := by
      intro e
      simp only [List.mem_flatMap, hperm.mem_iff]
    simp only [hmem]

/-- A file that imports a type and declares nothing. -/
def importing (file : FileId) (name : String) : CompilationUnit where
  file := file
  package := none
  imports := [⟨⟨0⟩, name, false, false⟩]
  root := .node ⟨⟨0⟩, .compilationUnit, ⟨0, 1⟩, []⟩ []

/-- The class that two files import was asked for before and is missing.  Each file gets the tables
that it gets alone, and either order leaves the same on record. -/
theorem analyzeFiles_independent_missingImport :
    let p := MemoryClasspath.toClasspath {}
    let fresh : Analysis := ⟨{}, p, {}⟩
    let a := (fresh.entry "a/A").2
    let u := importing ⟨0⟩ "a.A"
    let v := importing ⟨1⟩ "a.A"
    Analysis.new {} p = .ok fresh ∧ fresh.Reaches a ∧
      (a.analyzeFiles [u, v]).1 = [(fresh.buildTables u).1, (fresh.buildTables v).1] ∧
      ∀ d, d ∈ (a.analyzeFiles [u, v]).2.recorded ↔ d ∈ (a.analyzeFiles [v, u]).2.recorded := by
  intro p fresh a u v
  have hnew : Analysis.new {} p = .ok fresh := rfl
  have hreach : fresh.Reaches a := .entry "a/A" .refl
  obtain ⟨htables, -, hrecorded⟩ := analyzeFiles_independent hnew hreach [u, v]
  exact ⟨hnew, hreach, htables, hrecorded [v, u] (.swap v u [])⟩

end Analysis

end JavaScope
