/-
# Broken classes are isolated

A class file from which no stub can be built is to a run as if there were no such class: it gets
the same tables, and every look-up in them has the same outcome at any time
(`isolates_brokenClass`).  Only reports about the class itself tell the two runs apart.  The reason
is that queries are answered by stubs, and that a broken class has none.
-/
import JavaScope.Proofs.Run.Independence
import JavaScope.Proofs.Stub.Safety

namespace JavaScope

/-! ## Reports about one class -/

/-- The codes of diagnostics about class files. -/
def Diagnostic.classFileCodes : List String :=
  [malformedClass, unsupportedClassVersion, classNameMismatch, classpathUnreadable, inconsistency]

/-- The diagnostic is about the class file of the class with this binary name. -/
def Diagnostic.isReportOn (binaryName : String) (d : Diagnostic) : Bool :=
  d.subject = binaryName && d.code.any fun code => classFileCodes.contains code

lemma ClassError.isReportOn_report (e : ClassError) (internal : String) :
    (e.report internal).isReportOn (Name.toBinary internal) = true := by
  cases e <;> simp [Diagnostic.isReportOn, Diagnostic.classFileCodes, report, code]

lemma Diagnostic.isReportOn_of_key {binaryName : String} {d e : Diagnostic} (h : d.key = e.key) :
    d.isReportOn binaryName = e.isReportOn binaryName := by
  obtain ⟨hcode, hsubject⟩ := Prod.mk.inj h
  rw [isReportOn, isReportOn, hcode, hsubject]

/-! ## Logs -/

namespace DiagnosticLog

/-- The diagnostics that are not about the class file of this class, the oldest first. -/
def others (binaryName : String) (l : DiagnosticLog) : List Diagnostic :=
  l.diagnostics.filter fun d => !d.isReportOn binaryName

/-- But for reports on one class, the logs hold the same diagnostics in the same order, and
suppress the same ones. -/
structure AgreeBut (binaryName : String) (l l' : DiagnosticLog) : Prop where
  others : l.others binaryName = l'.others binaryName
  seen : ∀ d : Diagnostic, d.isReportOn binaryName = false → (d.key ∈ l.seen ↔ d.key ∈ l'.seen)

variable {X : String} {l l' : DiagnosticLog}

lemma AgreeBut.rfl : AgreeBut X l l := ⟨Eq.refl _, fun _ _ => Iff.rfl⟩

lemma AgreeBut.symm (h : AgreeBut X l l') : AgreeBut X l' l :=
  ⟨h.others.symm, fun d hd => (h.seen d hd).symm⟩

/-- A report on the class makes no difference. -/
lemma AgreeBut.add_report (h : AgreeBut X l l') {d : Diagnostic} (hd : d.isReportOn X = true) :
    AgreeBut X l (l'.add d) := by
  by_cases hseen : d.key ∈ l'.seen
  · rwa [add_of_mem hseen]
  · rw [add_of_not_mem hseen]
    refine ⟨?_, ?_⟩
    · rw [h.others]
      simp [DiagnosticLog.others, hd]
    · intro e he
      have hne : e.key ≠ d.key := by
        intro hkey
        rw [Diagnostic.isReportOn_of_key hkey, hd] at he
        cases he
      rw [h.seen e he]
      simp [hne]

/-- Both logs take one more diagnostic alike. -/
lemma AgreeBut.add (h : AgreeBut X l l') (d : Diagnostic) : AgreeBut X (l.add d) (l'.add d) := by
  cases hd : d.isReportOn X with
  | true => exact ((h.add_report hd).symm.add_report hd).symm
  | false =>
    by_cases hseen : d.key ∈ l.seen
    · rw [add_of_mem hseen, add_of_mem ((h.seen d hd).mp hseen)]
      exact h
    · have hseen' : d.key ∉ l'.seen := fun hmem => hseen ((h.seen d hd).mpr hmem)
      rw [add_of_not_mem hseen, add_of_not_mem hseen']
      refine ⟨?_, ?_⟩
      · have hothers := h.others
        simp only [DiagnosticLog.others] at hothers ⊢
        rw [List.filter_append, List.filter_append, hothers]
      · intro e he
        simp only [List.mem_cons, h.seen e he]

lemma AgreeBut.addAll (h : AgreeBut X l l') (ds : List Diagnostic) :
    AgreeBut X (l.addAll ds) (l'.addAll ds) := by
  induction ds generalizing l l' with
  | nil => exact h
  | cons d ds ih => exact ih (h.add d)

lemma AgreeBut.take (h : AgreeBut X l l') : AgreeBut X l.take.2 l'.take.2 := ⟨by rfl, h.seen⟩

end DiagnosticLog

/-! ## Classpaths with a broken class -/

/-- The classpaths agree on all classes but one, which `p` does not have; `q` answers its name
with bytes from which no stub of this name can be built, or fails to read it. -/
structure Classpath.BrokenIn (X : String) (p q : Classpath) : Prop where
  elsewhere : ∀ name, name ≠ X → p.classBytes name = q.classBytes name
  absent : p.classBytes X = .ok none
  broken : (∃ e, q.classBytes X = .error e) ∨
    ∃ bytes, q.classBytes X = .ok (some bytes) ∧
      ∀ c, ClassStub.ofBytes bytes = .ok c → c.internalName ≠ X

namespace Classpath.BrokenIn

variable {X : String} {p q : Classpath}

lemma entry_of_ne (h : BrokenIn X p q) {name : String} (hne : name ≠ X) :
    p.entry name = q.entry name := by
  rw [Classpath.entry, Classpath.entry, h.elsewhere name hne]

lemma entry_absent (h : BrokenIn X p q) : p.entry X = .missing := by
  rw [Classpath.entry, h.absent]

lemma entry_broken (h : BrokenIn X p q) : ∃ e, q.entry X = .failed e := by
  rcases h.broken with ⟨e, he⟩ | ⟨bytes, hbytes, hnone⟩
  · exact ⟨.unreadable e, by rw [Classpath.entry, he]⟩
  · cases hstub : ClassStub.ofBytes bytes with
    | error e => exact ⟨e, by simp only [Classpath.entry, hbytes, hstub]⟩
    | ok c =>
      refine ⟨.nameMismatch X c.internalName, ?_⟩
      simp only [Classpath.entry, hbytes, hstub, if_neg (hnone c hstub)]

/-- Both classpaths have the same stubs. -/
lemma stub?_eq (h : BrokenIn X p q) : p.stub? = q.stub? := by
  funext name
  by_cases hname : name = X
  · obtain ⟨e, he⟩ := h.entry_broken
    rw [hname, Classpath.stub?, Classpath.stub?, h.entry_absent, he]
    rfl
  · rw [Classpath.stub?, Classpath.stub?, h.entry_of_ne hname]

lemma value_eq (h : BrokenIn X p q) {α : Type} (x : Query α) : x.value p = x.value q := by
  rw [Query.value, Query.value, h.stub?_eq]

/-- Asking for any class leaves logs in agreement. -/
lemma agree_reports (h : BrokenIn X p q) {l l' : DiagnosticLog}
    (hl : l.AgreeBut (Name.toBinary X) l') (name : String) :
    (l.addAll (p.reports name)).AgreeBut (Name.toBinary X) (l'.addAll (q.reports name)) := by
  by_cases hname : name = X
  · obtain ⟨e, he⟩ := h.entry_broken
    have habsent : p.reports name = [] := by simp [Classpath.reports, hname, h.entry_absent,
      StubEntry.error?]
    have hbroken : q.reports name = [e.report X] := by simp [Classpath.reports, hname, he,
      StubEntry.error?]
    rw [habsent, hbroken]
    exact hl.add_report (e.isReportOn_report X)
  · rw [Classpath.reports, Classpath.reports, h.entry_of_ne hname]
    exact hl.addAll _

/-- What a query raises leaves logs in agreement. -/
lemma agree_raised (h : BrokenIn X p q) {α : Type} (x : Query α) {l l' : DiagnosticLog}
    (hl : l.AgreeBut (Name.toBinary X) l') :
    (l.addAll (x.raised p)).AgreeBut (Name.toBinary X) (l'.addAll (x.raised q)) := by
  induction x generalizing l l' with
  | done a => exact hl
  | ask name next ih =>
    have hasked := h.agree_reports hl name
    simp only [Query.raised, DiagnosticLog.addAll_append, h.stub?_eq]
    exact ih (q.stub? name) hasked
  | warn d next ih => exact ih (hl.add d)

lemma agree_raisedAll (h : BrokenIn X p q) {α β : Type} (x : β → Query α) (bs : List β)
    {l l' : DiagnosticLog} (hl : l.AgreeBut (Name.toBinary X) l') :
    (l.addAll (bs.flatMap fun b => (x b).raised p)).AgreeBut (Name.toBinary X)
      (l'.addAll (bs.flatMap fun b => (x b).raised q)) := by
  induction bs generalizing l l' with
  | nil => exact hl
  | cons b bs ih =>
    simp only [List.flatMap_cons, DiagnosticLog.addAll_append]
    exact ih (h.agree_raised (x b) hl)

end Classpath.BrokenIn

/-- Reading a class file does not fail for inconsistencies of the reader. -/
lemma Classpath.isInternal_of_entry {p : Classpath} {name : String} {e : ClassError}
    (h : p.entry name = .failed e) : e.isInternal = false := by
  unfold Classpath.entry at h
  split at h
  · cases h
    rfl
  · cases h
  · next bytes _ =>
    split at h
    · next error herror =>
      cases h
      have hrun := StubDraft.leads_classFile (Cursor.start bytes) .awaitingClass rfl
      simp only [ClassStub.ofBytes, scanClass] at herror
      rcases hscan : Scan.classFile StubDraft.visitor (Cursor.start bytes) .awaitingClass with
        ⟨x | r, d⟩
      · rw [hscan] at hrun herror
        obtain rfl := Except.error.inj herror
        cases x <;> first | rfl | exact absurd hrun id
      · rw [hscan] at hrun herror
        obtain ⟨stub, rfl⟩ := hrun
        cases herror
    · split at h
      · cases h
      · cases h
        rfl

/-! ## Runs side by side -/

namespace Analysis

/-- The analyses `a` and `b` become these when both are used in the same way: the same queries are
answered, the same files analysed, and diagnostics are taken away from both. -/
inductive UsedAlike (a b : Analysis) : Analysis → Analysis → Prop
  | refl : UsedAlike a b a b
  | answer {a' b' : Analysis} {α : Type} (x : Query α) :
      UsedAlike a b a' b' → UsedAlike a b (a'.answer x).2 (b'.answer x).2
  | analyzeFiles {a' b' : Analysis} (units : List CompilationUnit) :
      UsedAlike a b a' b' → UsedAlike a b (a'.analyzeFiles units).2 (b'.analyzeFiles units).2
  | takeDiagnostics {a' b' : Analysis} :
      UsedAlike a b a' b' → UsedAlike a b a'.takeDiagnostics.2 b'.takeDiagnostics.2

lemma UsedAlike.reaches {a b a' b' : Analysis} (h : UsedAlike a b a' b') :
    a.Reaches a' ∧ b.Reaches b' := by
  induction h with
  | refl => exact ⟨.refl, .refl⟩
  | answer x _ ih => exact ⟨.answer x ih.1, .answer x ih.2⟩
  | analyzeFiles units _ ih => exact ⟨.analyzeFiles units ih.1, .analyzeFiles units ih.2⟩
  | takeDiagnostics _ ih => exact ⟨.takeDiagnostics ih.1, .takeDiagnostics ih.2⟩

/-- Two runs that are used alike keep logs that agree but for reports on the broken class. -/
lemma UsedAlike.agreeBut {config : Config} {X : String} {p q : Classpath} {a b a' b' : Analysis}
    (h : UsedAlike a b a' b') (hbroken : p.BrokenIn X q) (ha : a.Sound config p)
    (hb : b.Sound config q) (hlogs : a.store.log.AgreeBut (Name.toBinary X) b.store.log) :
    a'.store.log.AgreeBut (Name.toBinary X) b'.store.log := by
  induction h with
  | refl => exact hlogs
  | answer x hused ih =>
    obtain ⟨-, -, hlog⟩ := (ha.reaches hused.reaches.1).answer x
    obtain ⟨-, -, hlog'⟩ := (hb.reaches hused.reaches.2).answer x
    rw [hlog, hlog']
    exact hbroken.agree_raised x ih
  | analyzeFiles units hused ih =>
    obtain ⟨-, -, hlog⟩ := (ha.reaches hused.reaches.1).analyzeFiles units
    obtain ⟨-, -, hlog'⟩ := (hb.reaches hused.reaches.2).analyzeFiles units
    rw [hlog, hlog']
    exact hbroken.agree_raisedAll _ units ih
  | takeDiagnostics _ ih => exact ih.take

/-- Take two runs with the same settings over classpaths that differ in one class only: the one
does not have it, and the other has it in a form that gives no stub of its name.  However both are
used alike, they give files the same tables, from then on any type looked up in any table is the
same (values and methods are told by the tables alone), and they have the same diagnostics on
record in the same order, but for reports on the class file of that class.  No class file of
either makes the reader inconsistent, at which a run might end. -/
theorem isolates_brokenClass {config : Config} {X : String} {p q : Classpath} {a₀ b₀ a b : Analysis}
    (hbroken : p.BrokenIn X q) (hp : Analysis.new config p = .ok a₀)
    (hq : Analysis.new config q = .ok b₀) (hused : UsedAlike a₀ b₀ a b) :
    (∀ units, (a.analyzeFiles units).1 = (b.analyzeFiles units).1) ∧
      (∀ (t : SymbolTable) (name : String),
        (a.answer (t.resolveType name)).1 = (b.answer (t.resolveType name)).1) ∧
      a.store.log.others (Name.toBinary X) = b.store.log.others (Name.toBinary X) ∧
      ∀ name e, p.entry name = .failed e ∨ q.entry name = .failed e → e.isInternal = false := by
  have ha := sound_new hp
  have hb := sound_new hq
  have hasound := ha.reaches hused.reaches.1
  have hbsound := hb.reaches hused.reaches.2
  refine ⟨fun units => ?_, fun t name => ?_, ?_, fun name e he => ?_⟩
  · rw [(hasound.analyzeFiles units).1, (hbsound.analyzeFiles units).1]
    exact List.map_congr_left fun u _ => hbroken.value_eq _
  · rw [(hasound.answer _).1, (hbsound.answer _).1]
    exact hbroken.value_eq _
  · -- both logs are empty at first
    have hlogs : a₀.store.log.AgreeBut (Name.toBinary X) b₀.store.log := by
      rw [eq_of_new hp, eq_of_new hq]
      exact .rfl
    exact (hused.agreeBut hbroken ha hb hlogs).others
  · exact he.elim Classpath.isInternal_of_entry Classpath.isInternal_of_entry

/-- The class that two files import is missing on the one classpath and has one byte on the other.
The logs differ, but not in what they have about other classes. -/
theorem isolates_brokenClass_truncatedClass :
    let p := MemoryClasspath.toClasspath {}
    let q := MemoryClasspath.toClasspath ⟨[("a/A", [0xCA])]⟩
    let units := [importing ⟨0⟩ "a.A", importing ⟨1⟩ "a.A"]
    let a := ((⟨{}, p, {}⟩ : Analysis).analyzeFiles units).2
    let b := ((⟨{}, q, {}⟩ : Analysis).analyzeFiles units).2
    p.BrokenIn "a/A" q ∧ a.store.log.diagnostics ≠ b.store.log.diagnostics ∧
      (a.analyzeFiles units).1 = (b.analyzeFiles units).1 ∧
      a.store.log.others "a.A" = b.store.log.others "a.A" := by
  intro p q units a b
  have hbroken : p.BrokenIn "a/A" q := by
    refine ⟨fun name hne => ?_, rfl, .inr ⟨[0xCA], rfl, fun c hc => ?_⟩⟩
    · simp [p, q, MemoryClasspath.toClasspath, MemoryClasspath.get?, List.lookup_cons,
        beq_false_of_ne hne]
    · cases hc
  have hp : Analysis.new {} p = .ok ⟨{}, p, {}⟩ := rfl
  have hq : Analysis.new {} q = .ok ⟨{}, q, {}⟩ := rfl
  have hused : UsedAlike ⟨{}, p, {}⟩ ⟨{}, q, {}⟩ a b := .analyzeFiles units .refl
  obtain ⟨htables, -, hothers, -⟩ := isolates_brokenClass hbroken hp hq hused
  have hlength : a.store.log.diagnostics.length = 1 ∧ b.store.log.diagnostics.length = 2 :=
    ⟨rfl, rfl⟩
  refine ⟨hbroken, fun h => ?_, htables units, hothers⟩
  have hsame := congrArg List.length h
  omega

end Analysis

end JavaScope
