/-
# Turns of workers

A worker that takes a turn gets on with its query or stays where it is, and the query has the same
value and brings about the same as before (`Worker.Advances`).  What it gets past is seen in the
store, or another worker asked for the same class and is about to report on it.

What queries bring about in a store is told as a list of effects: a class is asked for, or there is
a warning.
-/
import JavaScope.Proofs.Run.Transparency
import JavaScope.Workers

namespace JavaScope

/-! ## What queries bring about -/

namespace Query

variable {α : Type}

/-- What a query brings about in a store: a class is asked for, or there is a warning. -/
inductive Effect
  | asked (internal : String)
  | warned (d : Diagnostic)

/-- The diagnostics that come with an effect. -/
def Effect.diagnostics (p : Classpath) : Effect → List Diagnostic
  | asked name => p.reports name
  | warned d => [d]

/-- The store has the entry of a class that was asked for, and all diagnostics were added. -/
def Effect.ShowsIn (p : Classpath) (s : Store) (x : Effect) : Prop :=
  (∀ name, x = asked name → ∃ e, s.entry? name = some e) ∧
    ∀ d ∈ x.diagnostics p, d.key ∈ s.log.seen

/-- What a query brings about against a classpath, in order. -/
def effects (p : Classpath) : Query α → List Effect
  | done _ => []
  | ask name next => .asked name :: (next (p.stub? name)).effects p
  | warn d next => .warned d :: next.effects p

lemma raised_eq_flatMap (p : Classpath) (q : Query α) :
    q.raised p = (q.effects p).flatMap (·.diagnostics p) := by
  induction q with
  | done a => rfl
  | ask name next ih => rw [raised, effects, List.flatMap_cons, ih]; rfl
  | warn d next ih => rw [raised, effects, List.flatMap_cons, ih]; rfl

/-- The number of turns in which a worker has the result of a query, at most: to look for an entry,
to keep one and to report on its class are three. -/
def turns (p : Classpath) : Query α → Nat
  | done _ => 0
  | ask name next => (next (p.stub? name)).turns p + 3
  | warn _ next => next.turns p + 1

end Query

open Query (Effect)

/-! ## Stores -/

namespace Store

variable {p : Classpath} {s s' : Store}

/-- The store has the entries that the other has, and suppresses what it suppresses. -/
structure Extends (s s' : Store) : Prop where
  entries : ∀ name e, s.entry? name = some e → s'.entry? name = some e
  seen : s.log.seen ⊆ s'.log.seen

lemma Extends.showsIn (h : Extends s s') {x : Effect} (hx : x.ShowsIn p s) : x.ShowsIn p s' := by
  refine ⟨fun name hname => ?_, fun d hd => h.seen (hx.2 d hd)⟩
  obtain ⟨e, he⟩ := hx.1 name hname
  exact ⟨e, h.entries name e he⟩

lemma lookup_keep (s : Store) (name other : String) (e : StubEntry) :
    Store.entry? (s.keep name e) other = if other = name then some e else s.entry? other :=
  lookup_commit s name other e

/-- A new entry is kept first and then reported. -/
lemma report_keep (s : Store) (name : String) (e : StubEntry) :
    (s.keep name e).report name e = s.commit name e := by
  unfold report commit keep
  cases e.error? <;> rfl

lemma entry?_report (s : Store) (name : String) (e : StubEntry) :
    Store.entry? (s.report name e) = s.entry? := by
  unfold report
  cases e.error? <;> rfl

lemma log_report (s : Store) (name : String) :
    (s.report name (p.entry name)).log = s.log.addAll (p.reports name) := by
  unfold report Classpath.reports
  cases (p.entry name).error? <;> rfl

end Store

/-! ## One turn of one worker -/

namespace Worker

variable {α : Type} {p : Classpath} {s s' : Store} {w w' : Worker α} {name : String}

/-- What is ahead of a worker, as a query. -/
def query : Worker α → Query α
  | running q => q
  | keeping name _ next | reporting name _ next => .ask name next

/-- The worker kept an entry of this name and is to report on its class. -/
def Reports (name : String) : Worker α → Prop
  | reporting kept _ _ => kept = name
  | _ => False

lemma Reports.mem_effects (h : w.Reports name) : .asked name ∈ w.query.effects p := by
  cases w with
  | reporting kept e next =>
    obtain rfl : kept = name := h
    exact List.mem_cons_self
  | _ => cases h

/-- An entry in the hands of a worker is that of the classpath, and the store has it if it is only
to be reported. -/
def Holds (p : Classpath) (s : Store) : Worker α → Prop
  | running _ => True
  | keeping name e _ => e = p.entry name
  | reporting name e _ => e = p.entry name ∧ s.entry? name = some e

lemma Holds.extends (h : w.Holds p s) (hs : s.Extends s') : w.Holds p s' := by
  cases w with
  | reporting name e next => exact ⟨h.1, hs.entries name e h.2⟩
  | _ => exact h

/-- The number of turns after which a worker is done, at most. -/
def turnsLeft (p : Classpath) : Worker α → Nat
  | running q => q.turns p
  | keeping name _ next => (next (p.stub? name)).turns p + 2
  | reporting name _ next => (next (p.stub? name)).turns p + 1

lemma exists_result_of_turnsLeft (h : w.turnsLeft p = 0) : ∃ a, w = running (.done a) := by
  cases w with
  | running q =>
    cases q with
    | done a => exact ⟨a, rfl⟩
    | _ => cases h
  | _ => cases h

lemma result?_eq_some {a : α} : w.result? = some a ↔ w = running (.done a) := by
  constructor
  · intro h
    unfold result? at h
    split at h
    · rw [Option.some.inj h]
    · cases h
  · rintro rfl
    rfl

/-- What a turn does to the store and to the worker.  It gets the worker on with its query, or
leaves it there; and what the query brings about on the way is then seen in the store, or is what
another worker asked for. -/
structure Advances (p : Classpath) (s s' : Store) (w w' : Worker α) : Prop where
  value : w'.query.value p = w.query.value p
  holds : w'.Holds p s'
  turns : w'.turnsLeft p ≤ w.turnsLeft p - 1
  keeps : ∀ name e, s.entry? name = some e → s'.entry? name = some e
  makes : ∀ name e, s'.entry? name = some e → s.entry? name = some e ∨
    e = p.entry name ∧ w'.Reports name
  log : ∃ ds, s'.log = s.log.addAll ds ∧ ∀ d ∈ ds, ∃ x ∈ w.query.effects p, d ∈ x.diagnostics p
  effects : w'.query.effects p ⊆ w.query.effects p
  passes : ∀ x ∈ w.query.effects p, x ∈ w'.query.effects p ∨ x.ShowsIn p s' ∨
    ∃ name e, x = .asked name ∧ s.entry? name = some e
  reports : ∀ name, w.Reports name → Effect.ShowsIn p s' (.asked name)

lemma Advances.extends (h : Advances p s s' w w') : s.Extends s' where
  entries := h.keeps
  seen := by
    obtain ⟨ds, hlog, -⟩ := h.log
    rw [hlog]
    exact fun k hk => DiagnosticLog.mem_addAll_of_mem ds hk

/-- The worker makes no difference to the entries and to the log. -/
lemma Advances.of_same (hentries : s'.entries = s.entries) (hlog : s'.log = s.log)
    (hvalue : w'.query.value p = w.query.value p) (hholds : w'.Holds p s')
    (hturns : w'.turnsLeft p ≤ w.turnsLeft p - 1)
    (heffects : w'.query.effects p ⊆ w.query.effects p)
    (hpasses : ∀ x ∈ w.query.effects p, x ∈ w'.query.effects p ∨
      ∃ name e, x = .asked name ∧ s.entry? name = some e)
    (hreports : ∀ name, ¬ w.Reports name) : Advances p s s' w w' where
  value := hvalue
  holds := hholds
  turns := hturns
  keeps name e he := by rwa [ Store.entry?, hentries]
  makes name e he := .inl (by rwa [ Store.entry?, hentries] at he)
  log := ⟨[], hlog, nofun⟩
  effects := heffects
  passes x hx := (hpasses x hx).imp_right .inr
  reports name h := absurd h (hreports name)

/-- The worker takes an entry that the store has. -/
lemma Advances.of_entry {next : Option ClassStub → Query α} (hquery : w.query = .ask name next)
    (hentry : s.entry? name = some (p.entry name))
    (hturns : ((next (p.stub? name)).turns p) ≤ w.turnsLeft p - 1)
    (hreports : ∀ name, ¬ w.Reports name) :
    Advances p s s w (running (next (p.entry name).stub?)) := by
  refine .of_same rfl rfl ?_ trivial hturns ?_ (fun x hx => ?_) hreports
  · rw [hquery]
    rfl
  · rw [hquery]
    exact List.subset_cons_self _ _
  · rw [hquery] at hx
    rcases List.mem_cons.mp hx with rfl | hx
    · exact .inr ⟨name, _, rfl, hentry⟩
    · exact .inl hx

/-- The worker raises a warning. -/
lemma advances_warn (s : Store) (d : Diagnostic) (next : Query α) :
    Advances p s { s with log := s.log.add d } (running (.warn d next)) (running next) where
  value := rfl
  holds := trivial
  turns := by simp [turnsLeft, Query.turns]
  keeps _ _ he := he
  makes _ _ he := .inl he
  log := ⟨[d], rfl, fun _ hd => ⟨.warned d, List.mem_cons_self, hd⟩⟩
  effects := List.subset_cons_self _ _
  passes x hx := by
    rcases List.mem_cons.mp hx with rfl | hx
    · refine .inr (.inl ⟨nofun, fun d' hd' => ?_⟩)
      obtain rfl := List.mem_singleton.mp hd'
      exact DiagnosticLog.key_mem_add _ _
    · exact .inl hx
  reports := nofun

/-- The worker keeps the first entry of a class. -/
lemma advances_keep (hnone : s.entry? name = none) (next : Option ClassStub → Query α) :
    Advances p s (s.keep name (p.entry name)) (keeping name (p.entry name) next)
      (reporting name (p.entry name) next) where
  value := rfl
  holds := ⟨rfl, by rw [Store.lookup_keep, if_pos rfl]⟩
  turns := by simp [turnsLeft]
  keeps other e he := by
    have hne : other ≠ name := by
      rintro rfl
      rw [hnone] at he
      cases he
    rwa [Store.lookup_keep, if_neg hne]
  makes other e he := by
    rw [Store.lookup_keep] at he
    split at he
    · next hsame =>
      subst hsame
      exact .inr ⟨(Option.some.inj he).symm, rfl⟩
    · exact .inl he
  log := ⟨[], rfl, nofun⟩
  effects := List.Subset.refl _
  passes _ hx := .inl hx
  reports := nofun

/-- The worker reports on the class of an entry that it kept. -/
lemma advances_report (hentry : s.entry? name = some (p.entry name))
    (next : Option ClassStub → Query α) :
    Advances p s (s.report name (p.entry name)) (reporting name (p.entry name) next)
      (running (next (p.entry name).stub?)) := by
  have hentries := s.entry?_report name (p.entry name)
  have hlog := s.log_report (p := p) name
  have hshows : Effect.ShowsIn p (s.report name (p.entry name)) (.asked name) := by
    refine ⟨fun other hother => ?_, fun d hd => ?_⟩
    · obtain rfl := Effect.asked.inj hother
      exact ⟨_, hentries ▸ hentry⟩
    · rw [hlog]
      exact DiagnosticLog.key_mem_addAll hd
  refine
    { value := rfl
      holds := trivial
      turns := Nat.le_refl _
      keeps := fun other e he => by rwa [hentries]
      makes := fun other e he => .inl (by rwa [hentries] at he)
      log := ⟨p.reports name, hlog, fun d hd => ⟨.asked name, List.mem_cons_self, hd⟩⟩
      effects := List.subset_cons_self _ _
      passes := fun x hx => ?passes
      reports := fun other hother => ?reports }
  case passes =>
    rcases List.mem_cons.mp hx with rfl | hx
    · exact .inr (.inl hshows)
    · exact .inl hx
  case reports =>
    obtain rfl : name = other := hother
    exact hshows

/-- In each turn a worker advances. -/
lemma advances_turn (hs : ∀ name e, s.entry? name = some e → e = p.entry name)
    (hw : w.Holds p s) : Advances p s (w.turn p s).2 w (w.turn p s).1 := by
  cases w with
  | running q =>
    cases q with
    | done a =>
      exact .of_same rfl rfl rfl trivial (Nat.zero_le _) (List.Subset.refl _) nofun (fun _ => id)
    | ask name next =>
      rw [turn]
      cases hentry : s.entry? name with
      | some e =>
        obtain rfl := hs name e hentry
        exact .of_entry rfl hentry (by simp only [turnsLeft, Query.turns]; omega) fun _ => id
      | none =>
        refine .of_same rfl rfl rfl rfl ?_ (List.Subset.refl _) (fun x hx => .inl hx) fun _ => id
        simp only [turnsLeft, Query.turns]
        omega
    | warn d next => exact advances_warn s d next
  | keeping name e next =>
    obtain rfl : e = p.entry name := hw
    rw [turn]
    cases hentry : s.entry? name with
    | some kept =>
      obtain rfl := hs name kept hentry
      exact .of_entry rfl hentry (by simp only [turnsLeft]; omega) fun _ => id
    | none => exact advances_keep hentry next
  | reporting name e next =>
    obtain ⟨rfl, hentry⟩ := hw
    exact advances_report hentry next

end Worker

end JavaScope
