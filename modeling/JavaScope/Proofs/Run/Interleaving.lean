/-
# Files analysed at the same time

However the workers of a run take turns, each gets the tables that its file gets alone, after a
number of its own turns that the others cannot change; and when all are done, the store has the
entries, and but for the files the diagnostics, that it has after the files were analysed one after
the other (`crew_independent`).  To do the latter is one of the ways to take turns
(`exists_schedule_inOrder`).

While workers are at it, a class without a stub may have an entry and no report yet: the worker that
kept the entry reports on the class in its next turn.  The invariant is therefore that whatever the
queries bring about either shows in the store or is still ahead of some worker (`Crew.OnCourse`).
-/
import JavaScope.Proofs.Run.Records
import JavaScope.Proofs.Run.Turns

namespace JavaScope

open Query (Effect)

/-! ## Logs -/

namespace DiagnosticLog

/-- Two ways of adding diagnostics record the same but for files, if each has the keys of all. -/
lemma mem_addAll_of_seen {l : DiagnosticLog} {ds all : List Diagnostic} (hds : ∀ d ∈ ds, d ∈ all)
    (hseen : ∀ d ∈ all, d.key ∈ (l.addAll ds).seen)
    (hkeys : ∀ d ∈ all, ∀ e ∈ all, d.key = e.key → d.withoutFile = e.withoutFile)
    (x : Diagnostic) :
    x ∈ (l.addAll ds).diagnostics.map (·.withoutFile) ↔
      x ∈ (l.addAll all).diagnostics.map (·.withoutFile) := by
  rw [mem_addAll hkeys, mem_addAll fun d hd e he => hkeys d (hds d hd) e (hds e he)]
  refine or_congr_right ⟨fun ⟨d, hd, hnew⟩ => ⟨d, hds d hd, hnew⟩, fun ⟨d, hd, hnew, hx⟩ => ?_⟩
  -- another diagnostic with the key of this one may have come first
  obtain ⟨e, he, hkey⟩ := (mem_seen_addAll.mp (hseen d hd)).resolve_left hnew
  exact ⟨e, he, hkey ▸ hnew, (hkeys e (hds e he) d hd hkey).trans hx⟩

end DiagnosticLog

/-! ## Turns of a crew -/

namespace Crew

variable {α : Type} {p : Classpath} {c : Crew α} {s s₀ : Store} {qs : List (Query α)}
  {k : Nat}

lemma turn_at (before after : List (Worker α)) (w : Worker α) :
    (⟨p, s, before ++ w :: after⟩ : Crew α).turn before.length =
      ⟨p, (w.turn p s).2, before ++ (w.turn p s).1 :: after⟩ := by
  simp [turn]

lemma run_cons (c : Crew α) (place : Nat) (schedule : List Nat) :
    c.run (place :: schedule) = (c.turn place).run schedule := rfl

/-- A turn changes the store and one worker, if there is one at its place. -/
lemma turn_cases (c : Crew α) (place : Nat) :
    c.workers[place]? = none ∧ c.turn place = c ∨
      ∃ before w after, before.length = place ∧ c.workers = before ++ w :: after ∧
        c.turn place = ⟨c.classpath, (w.turn c.classpath c.store).2,
          before ++ (w.turn c.classpath c.store).1 :: after⟩ := by
  obtain ⟨p, s, workers⟩ := c
  cases hw : workers[place]? with
  | none => exact .inl ⟨rfl, by simp only [turn, hw]⟩
  | some w =>
    obtain ⟨hplace, rfl⟩ := List.getElem?_eq_some_iff.mp hw
    have hlength : (workers.take place).length = place :=
      List.length_take_of_le (Nat.le_of_lt hplace)
    have hworkers : workers = workers.take place ++ workers[place] :: workers.drop (place + 1) := by
      rw [List.getElem_cons_drop, List.take_append_drop]
    have hturn := turn_at (p := p) (s := s) (workers.take place) (workers.drop (place + 1))
      workers[place]
    rw [← hworkers, hlength] at hturn
    exact .inr ⟨_, _, _, hlength, hworkers, hturn⟩

/-- The workers of a crew are at these queries, and began with this store: they are to get the
values of the queries, the store has made its entries and diagnostics for the queries, and what the
queries bring about shows in it or is ahead of a worker. -/
structure OnCourse (p : Classpath) (s₀ : Store) (qs : List (Query α)) (c : Crew α) : Prop where
  classpath : c.classpath = p
  values : c.workers.map (·.query.value p) = qs.map (·.value p)
  entries : ∀ name e, c.store.entry? name = some e → e = p.entry name
  holds : ∀ w ∈ c.workers, w.Holds p c.store
  keeps : ∀ name e, s₀.entry? name = some e → c.store.entry? name = some e
  makes : ∀ name e, c.store.entry? name = some e →
    s₀.entry? name = some e ∨ .asked name ∈ qs.flatMap (·.effects p)
  log : ∃ ds, c.store.log = s₀.log.addAll ds ∧
    ∀ d ∈ ds, ∃ x ∈ qs.flatMap (·.effects p), d ∈ x.diagnostics p
  ahead : ∀ w ∈ c.workers, w.query.effects p ⊆ qs.flatMap (·.effects p)
  shows : ∀ x ∈ qs.flatMap (·.effects p), x.ShowsIn p c.store ∨
    ∃ w ∈ c.workers, x ∈ w.query.effects p
  reports : ∀ name e, c.store.entry? name = some e →
    Effect.ShowsIn p c.store (.asked name) ∨ ∃ w ∈ c.workers, w.Reports name

lemma onCourse_start (hs : s₀.Faithful p) (qs : List (Query α)) :
    OnCourse p s₀ qs ⟨p, s₀, qs.map .running⟩ where
  classpath := rfl
  values := by
    rw [List.map_map]
    rfl
  entries := hs.entries
  holds w hw := by
    obtain ⟨q, -, rfl⟩ := List.mem_map.mp hw
    trivial
  keeps name e he := he
  makes name e he := .inl he
  log := ⟨[], rfl, nofun⟩
  ahead w hw x hx := by
    obtain ⟨q, hq, rfl⟩ := List.mem_map.mp hw
    exact List.mem_flatMap.mpr ⟨q, hq, hx⟩
  shows x hx := by
    obtain ⟨q, hq, hx⟩ := List.mem_flatMap.mp hx
    exact .inr ⟨.running q, List.mem_map_of_mem hq, hx⟩
  reports name e he := by
    refine .inl ⟨fun other hother => ?_, hs.recorded name e he⟩
    obtain rfl := Effect.asked.inj hother
    exact ⟨e, he⟩

namespace OnCourse

/-- One worker gets on, and the others are those that they were. -/
lemma replace {before after : List (Worker α)} {w w' : Worker α} {s' : Store}
    (h : OnCourse p s₀ qs ⟨p, s, before ++ w :: after⟩) (hadvances : w.Advances p s s' w') :
    OnCourse p s₀ qs ⟨p, s', before ++ w' :: after⟩ := by
  have hextends : s.Extends s' := hadvances.extends
  have hmem : w ∈ before ++ w :: after := List.mem_append_right _ List.mem_cons_self
  have hself : w' ∈ before ++ w' :: after := List.mem_append_right _ List.mem_cons_self
  have hothers {v : Worker α} (hv : v ∈ before ++ w :: after) :
      v = w ∨ v ∈ before ++ w' :: after := by
    simp only [List.mem_append, List.mem_cons] at hv ⊢
    tauto
  have hafter {v : Worker α} (hv : v ∈ before ++ w' :: after) :
      v = w' ∨ v ∈ before ++ w :: after := by
    simp only [List.mem_append, List.mem_cons] at hv ⊢
    tauto
  have hreported {name : String} (hold : Effect.ShowsIn p s (.asked name) ∨
      ∃ v ∈ before ++ w :: after, v.Reports name) :
      Effect.ShowsIn p s' (.asked name) ∨ ∃ v ∈ before ++ w' :: after, v.Reports name := by
    rcases hold with hshows | ⟨v, hv, hreports⟩
    · exact .inl (hextends.showsIn hshows)
    rcases hothers hv with rfl | hv
    · exact .inl (hadvances.reports name hreports)
    · exact .inr ⟨v, hv, hreports⟩
  refine
    { classpath := rfl
      values := ?values
      entries := fun name e he => ?entries
      holds := fun v hv => ?holds
      keeps := fun name e he => hadvances.keeps name e (h.keeps name e he)
      makes := fun name e he => ?makes
      log := ?log
      ahead := fun v hv => ?ahead
      shows := fun x hx => ?shows
      reports := fun name e he => ?reports }
  case values =>
    have hvalues := h.values
    rw [List.map_append, List.map_cons] at hvalues
    rw [List.map_append, List.map_cons, hadvances.value, hvalues]
  case entries =>
    rcases hadvances.makes name e he with he | ⟨he, -⟩
    · exact h.entries name e he
    · exact he
  case holds =>
    rcases hafter hv with rfl | hv
    · exact hadvances.holds
    · exact (h.holds v hv).extends hextends
  case makes =>
    rcases hadvances.makes name e he with he | ⟨-, hreports⟩
    · exact h.makes name e he
    · exact .inr (h.ahead w hmem (hadvances.effects hreports.mem_effects))
  case log =>
    obtain ⟨ds, hlog, hds⟩ := h.log
    obtain ⟨es, hmore, hes⟩ := hadvances.log
    refine ⟨ds ++ es, ?_, fun d hd => ?_⟩
    · rw [DiagnosticLog.addAll_append, ← hlog]
      exact hmore
    · rcases List.mem_append.mp hd with hd | hd
      · exact hds d hd
      · obtain ⟨x, hx, hdx⟩ := hes d hd
        exact ⟨x, h.ahead w hmem hx, hdx⟩
  case ahead =>
    rcases hafter hv with rfl | hv
    · exact List.Subset.trans hadvances.effects (h.ahead w hmem)
    · exact h.ahead v hv
  case shows =>
    rcases h.shows x hx with hshows | ⟨v, hv, hxv⟩
    · exact .inl (hextends.showsIn hshows)
    rcases hothers hv with rfl | hv
    · rcases hadvances.passes x hxv with hx | hx | ⟨name, e, rfl, he⟩
      · exact .inr ⟨w', hself, hx⟩
      · exact .inl hx
      · -- the entry was there: it is on record, or another worker is to report on its class
        exact (hreported (h.reports name e he)).imp_right fun ⟨u, hu, hreports⟩ =>
          ⟨u, hu, hreports.mem_effects⟩
    · exact .inr ⟨v, hv, hxv⟩
  case reports =>
    rcases hadvances.makes name e he with he | ⟨-, hreports⟩
    · exact hreported (h.reports name e he)
    · exact .inr ⟨w', hself, hreports⟩

lemma turn (h : c.OnCourse p s₀ qs) (place : Nat) : (c.turn place).OnCourse p s₀ qs := by
  rcases c.turn_cases place with ⟨-, hsame⟩ | ⟨before, w, after, -, hworkers, hturn⟩
  · rwa [hsame]
  · obtain ⟨classpath, s, workers⟩ := c
    obtain rfl : classpath = p := h.classpath
    obtain rfl : workers = before ++ w :: after := hworkers
    have hmem : w ∈ before ++ w :: after := List.mem_append_right _ List.mem_cons_self
    rw [hturn]
    exact h.replace (w.advances_turn h.entries (h.holds w hmem))

lemma run (h : c.OnCourse p s₀ qs) (schedule : List Nat) : (c.run schedule).OnCourse p s₀ qs := by
  induction schedule generalizing c with
  | nil => exact h
  | cons place schedule ih => exact ih (h.turn place)

/-- Two workers look for a class at the same time.  Both ask the classpath; one entry is kept. -/
example :
    let q : Query Bool := .ask "a/A" fun stub => .done stub.isSome
    let c : Crew Bool := ⟨MemoryClasspath.toClasspath {}, {}, [.running q, .running q]⟩
    let c := c.run [0, 1, 1, 0, 1]
    c.results = [some false, some false] ∧ c.store.requests = ["a/A", "a/A"] ∧ c.store.size = 1 :=
  ⟨rfl, rfl, rfl⟩

/-- A turn gets the worker at its place on, and leaves the others where they are. -/
lemma turnsLeft_turn (h : c.OnCourse p s₀ qs) (place : Nat) {w : Worker α}
    (hw : c.workers[k]? = some w) :
    ∃ w', (c.turn place).workers[k]? = some w' ∧
      w'.turnsLeft p ≤ w.turnsLeft p - if place = k then 1 else 0 := by
  unfold Crew.turn
  cases hplace : c.workers[place]? with
  | none =>
    have hne : place ≠ k := by
      rintro rfl
      rw [hplace] at hw
      cases hw
    rw [if_neg hne]
    exact ⟨w, hw, Nat.le_refl _⟩
  | some v =>
    simp only [List.getElem?_set]
    split
    · next hk =>
      obtain rfl : v = w := Option.some.inj (hplace.symm.trans (hk ▸ hw))
      have hmem := List.mem_of_getElem? hw
      have hadvances := v.advances_turn h.entries (h.holds v hmem)
      rw [← h.classpath] at hadvances ⊢
      rw [if_pos (List.getElem?_eq_some_iff.mp hplace).1]
      exact ⟨_, rfl, hadvances.turns⟩
    · exact ⟨w, hw, Nat.le_refl _⟩

lemma turnsLeft_run (h : c.OnCourse p s₀ qs) (schedule : List Nat) {w : Worker α}
    (hw : c.workers[k]? = some w) :
    ∃ w', (c.run schedule).workers[k]? = some w' ∧
      w'.turnsLeft p ≤ w.turnsLeft p - schedule.count k := by
  induction schedule generalizing c w with
  | nil => exact ⟨w, hw, Nat.le_refl _⟩
  | cons place schedule ih =>
    obtain ⟨v, hv, hturn⟩ := h.turnsLeft_turn place hw
    obtain ⟨w', hw', hrun⟩ := ih (h.turn place) hv
    refine ⟨w', hw', ?_⟩
    rw [List.count_cons]
    simp only [beq_iff_eq]
    omega

/-- A worker that is done has the value of its query. -/
lemma getElem?_of_results (h : c.OnCourse p s₀ qs) {a : α} (hk : c.results[k]? = some (some a)) :
    (qs.map (·.value p))[k]? = some a := by
  rw [results, List.getElem?_map] at hk
  obtain ⟨w, hw, hresult⟩ := Option.map_eq_some_iff.mp hk
  rw [← h.values, List.getElem?_map, hw, Worker.result?_eq_some.mp hresult]
  rfl

/-- A worker is done after as many turns as it has left. -/
lemma result_of_count (h : c.OnCourse p s₀ qs) {schedule : List Nat} {w : Worker α}
    (hw : c.workers[k]? = some w) (hturns : w.turnsLeft p ≤ schedule.count k) :
    (c.run schedule).results[k]? = some (some (w.query.value p)) := by
  obtain ⟨w', hw', hleft⟩ := h.turnsLeft_run schedule hw
  have hnone : w'.turnsLeft p = 0 := by omega
  obtain ⟨a, rfl⟩ := Worker.exists_result_of_turnsLeft hnone
  have hresult : (c.run schedule).results[k]? = some (some a) := by
    rw [results, List.getElem?_map, hw']
    rfl
  have hvalue := (h.run schedule).getElem?_of_results hresult
  rw [← h.values, List.getElem?_map, hw] at hvalue
  rw [hresult, ← hvalue]
  rfl

/-! ### All workers are done -/

section Done

variable {rs : List α} (h : c.OnCourse p s₀ qs) (hdone : c.results = rs.map some)

include hdone in
lemma exists_result {w : Worker α} (hw : w ∈ c.workers) : ∃ a, w = .running (.done a) := by
  have hresult : w.result? ∈ rs.map some := hdone ▸ List.mem_map_of_mem hw
  obtain ⟨a, -, ha⟩ := List.mem_map.mp hresult
  exact ⟨a, Worker.result?_eq_some.mp ha.symm⟩

include h hdone

lemma results_eq : rs = qs.map (·.value p) := by
  have hresults : c.results = (c.workers.map (·.query.value p)).map some := by
    rw [results, List.map_map]
    refine List.map_congr_left fun w hw => ?_
    obtain ⟨a, rfl⟩ := exists_result hdone hw
    rfl
  rw [hdone, h.values] at hresults
  exact (List.map_inj_right fun _ _ => Option.some.inj).mp hresults

/-- Nothing is ahead, so all that the queries bring about shows. -/
lemma showsIn {x : Effect} (hx : x ∈ qs.flatMap (·.effects p)) : x.ShowsIn p c.store := by
  refine (h.shows x hx).resolve_right ?_
  rintro ⟨w, hw, hxw⟩
  obtain ⟨a, rfl⟩ := exists_result hdone hw
  cases hxw

lemma faithful : c.store.Faithful p where
  entries := h.entries
  recorded name e he := by
    refine And.right <| (h.reports name e he).resolve_right ?_
    rintro ⟨w, hw, hreports⟩
    obtain ⟨a, rfl⟩ := exists_result hdone hw
    cases hreports

/-- A crew has no entry that another one of its kind has not when it is done. -/
lemma entry_of_onCourse {c' : Crew α} (h' : c'.OnCourse p s₀ qs) {name : String} {e : StubEntry}
    (he : c'.store.entry? name = some e) : c.store.entry? name = some e := by
  rcases h'.makes name e he with he | hasked
  · exact h.keeps name e he
  · obtain ⟨kept, hkept⟩ := (h.showsIn hdone hasked).1 name rfl
    rw [hkept, h.entries name kept hkept, h'.entries name e he]

lemma entry?_eq {c' : Crew α} {rs' : List α} (h' : c'.OnCourse p s₀ qs)
    (hdone' : c'.results = rs'.map some) (name : String) :
    c.store.entry? name = c'.store.entry? name :=
  Option.ext fun _ => ⟨h'.entry_of_onCourse hdone' h, h.entry_of_onCourse hdone h'⟩

/-- The log has the diagnostics that come from one query after the other, but for their files. -/
lemma mem_diagnostics
    (hkeys : ∀ d ∈ qs.flatMap (·.raised p), ∀ e ∈ qs.flatMap (·.raised p),
      d.key = e.key → d.withoutFile = e.withoutFile) (x : Diagnostic) :
    x ∈ c.store.log.diagnostics.map (·.withoutFile) ↔
      x ∈ (s₀.log.addAll (qs.flatMap (·.raised p))).diagnostics.map (·.withoutFile) := by
  have hraised {d : Diagnostic} : d ∈ qs.flatMap (·.raised p) ↔
      ∃ x ∈ qs.flatMap (·.effects p), d ∈ x.diagnostics p := by
    simp only [Query.raised_eq_flatMap, List.mem_flatMap]
    tauto
  obtain ⟨ds, hlog, hds⟩ := h.log
  have hseen : ∀ d ∈ qs.flatMap (·.raised p), d.key ∈ c.store.log.seen := by
    intro d hd
    obtain ⟨x, hx, hdx⟩ := hraised.mp hd
    exact (h.showsIn hdone hx).2 d hdx
  rw [hlog] at hseen ⊢
  exact DiagnosticLog.mem_addAll_of_seen (fun d hd => hraised.mpr (hds d hd)) hseen hkeys x

end Done

end OnCourse

/-! ## One file after the other -/

lemma run_append (c : Crew α) (schedule more : List Nat) :
    c.run (schedule ++ more) = (c.run schedule).run more := List.foldl_append

/-- A worker that takes turns alone answers its query as a run does. -/
lemma exists_run_alone (p : Classpath) (s : Store) (q : Query α) (before after : List (Worker α)) :
    ∃ n, (⟨p, s, before ++ .running q :: after⟩ : Crew α).run (.replicate n before.length) =
      ⟨p, (Store.run p q s).2, before ++ .running (.done (Store.run p q s).1) :: after⟩ := by
  induction q generalizing s with
  | done a => exact ⟨0, rfl⟩
  | ask name next ih =>
    rcases Store.entry_cases p s name with ⟨e, hentry, hsame⟩ | ⟨hnone, hnew⟩
    · obtain ⟨n, hn⟩ := ih e.stub? s
      refine ⟨n + 1, ?_⟩
      have hturn : (Worker.running (.ask name next)).turn p s = (.running (next e.stub?), s) := by
        simp only [Worker.turn, hentry]
      rw [List.replicate_succ, run_cons, turn_at, hturn, hn]
      simp only [Store.run, hsame]
    · -- the worker asks the classpath, keeps the entry and reports on the class
      let asked : Store := { s with requests := name :: s.requests }
      have hasks : (Worker.running (.ask name next)).turn p s =
          (.keeping name (p.entry name) next, asked) := by
        simp only [Worker.turn, hnone]
        rfl
      have hkeeps : (Worker.keeping name (p.entry name) next).turn p asked =
          (.reporting name (p.entry name) next, asked.keep name (p.entry name)) := by
        have hnone : asked.entry? name = none := hnone
        simp only [Worker.turn, hnone]
      have hreports : (Worker.reporting name (p.entry name) next).turn p
            (asked.keep name (p.entry name)) =
          (.running (next (p.entry name).stub?), asked.commit name (p.entry name)) := by
        rw [Worker.turn, Store.report_keep]
      obtain ⟨n, hn⟩ := ih (p.entry name).stub? (asked.commit name (p.entry name))
      refine ⟨n + 3, ?_⟩
      rw [List.replicate_succ, List.replicate_succ, List.replicate_succ, run_cons, turn_at, hasks,
        run_cons, turn_at, hkeeps, run_cons, turn_at, hreports, hn]
      simp only [Store.run, hnew, asked]
  | warn d next ih =>
    obtain ⟨n, hn⟩ := ih { s with log := s.log.add d }
    refine ⟨n + 1, ?_⟩
    rw [List.replicate_succ, run_cons, turn_at]
    exact hn

end Crew

namespace Analysis

lemma exists_schedule_after (a : Analysis) (units : List CompilationUnit)
    (before : List (Worker ScopeTables)) :
    ∃ schedule,
      Crew.run ⟨a.classpath, a.store, before ++ (a.crew units).workers⟩ schedule =
        ⟨a.classpath, (a.analyzeFiles units).2.store,
          before ++ (a.analyzeFiles units).1.map fun t => .running (.done t)⟩ := by
  induction units generalizing a before with
  | nil => exact ⟨[], rfl⟩
  | cons u units ih =>
    obtain ⟨n, hn⟩ := Crew.exists_run_alone a.classpath a.store (JavaScope.buildTables a.config u)
      before (a.crew units).workers
    obtain ⟨schedule, hrest⟩ := ih (a.buildTables u).2
      (before ++ [.running (.done (a.buildTables u).1)])
    rw [List.append_assoc, List.append_assoc] at hrest
    refine ⟨.replicate n before.length ++ schedule, ?_⟩
    rw [Crew.run_append]
    exact (congrArg (Crew.run · schedule) hn).trans hrest

lemma Sound.onCourse_crew {config : Config} {p : Classpath} {a : Analysis} (h : a.Sound config p)
    (units : List CompilationUnit) :
    (a.crew units).OnCourse p a.store (units.map fun u => JavaScope.buildTables config u) := by
  have hstart := Crew.onCourse_start h.store (units.map fun u => JavaScope.buildTables config u)
  obtain rfl := h.config
  obtain rfl := h.classpath
  rwa [List.map_map] at hstart

/-- Workers may take turns so that the files are analysed one after the other. -/
theorem exists_schedule_inOrder (a : Analysis) (units : List CompilationUnit) :
    ∃ schedule, (a.crew units).run schedule =
      ⟨a.classpath, (a.analyzeFiles units).2.store,
        (a.analyzeFiles units).1.map fun t => .running (.done t)⟩ :=
  a.exists_schedule_after units []

/-- Files may be analysed at the same time.  However the workers take turns, each gets the tables
that its file gets from a fresh analysis, as soon as it had its turns; and when all are done, the
analysis answers every query, has the entries and, but for the files in them, has the diagnostics
on record that it has when the files were analysed one after the other. -/
theorem crew_independent {config : Config} {p : Classpath} {fresh a : Analysis}
    (hnew : Analysis.new config p = .ok fresh) (hreach : fresh.Reaches a)
    (units : List CompilationUnit) (schedule : List Nat) :
    let c := (a.crew units).run schedule
    (∀ (k : Nat) (u : CompilationUnit), units[k]? = some u →
        (JavaScope.buildTables config u).turns p ≤ schedule.count k →
        c.results[k]? = some (some (fresh.buildTables u).1)) ∧
      (∀ (k : Nat) (t : ScopeTables), c.results[k]? = some (some t) →
        (a.analyzeFiles units).1[k]? = some t) ∧
      ∀ tables : List ScopeTables, c.results = tables.map some →
        let together : Analysis := { a with store := c.store }
        tables = (a.analyzeFiles units).1 ∧
          (∀ name, together.store.entry? name = Store.entry? (a.analyzeFiles units).2.store name) ∧
          (∀ d, d ∈ together.recorded ↔ d ∈ (a.analyzeFiles units).2.recorded) ∧
          ∀ later, together.Reaches later → ∀ (α : Type) (q : Query α),
            (later.answer q).1 = ((a.analyzeFiles units).2.answer q).1 := by
  intro c
  have hfresh := sound_new hnew
  have ha := hfresh.reaches hreach
  obtain ⟨htables, hafter, hlog⟩ := ha.analyzeFiles units
  have hstart := ha.onCourse_crew units
  have hc : c.OnCourse p a.store (units.map fun u => JavaScope.buildTables config u) :=
    hstart.run schedule
  refine ⟨fun k u hu hturns => ?_, fun k t hk => ?_, fun tables hdone => ?_⟩
  · have hw : (a.crew units).workers[k]? = some (.running (JavaScope.buildTables config u)) := by
      rw [crew, List.getElem?_map, hu, ← ha.config]
      rfl
    rw [(hfresh.buildTables u).1]
    exact hstart.result_of_count hw hturns
  · rw [htables, ← hc.getElem?_of_results hk, List.map_map]
    rfl
  · intro together
    have hsound : together.Sound config p := ⟨ha.config, ha.classpath, hc.faithful hdone⟩
    refine ⟨?_, fun name => ?_, fun d => ?_, fun later hlater α q => ?_⟩
    · rw [htables, hc.results_eq hdone, List.map_map]
      rfl
    · -- to analyse one file after the other is a way to take turns
      obtain ⟨inOrder, hinOrder⟩ := a.exists_schedule_inOrder units
      have horder := hstart.run inOrder
      rw [hinOrder] at horder
      have hdone' : Crew.results ⟨a.classpath, (a.analyzeFiles units).2.store,
          (a.analyzeFiles units).1.map fun t => .running (.done t)⟩ =
            (a.analyzeFiles units).1.map some := by
        rw [Crew.results, List.map_map]
        rfl
      exact hc.entry?_eq hdone horder hdone' name
    · have hraised : (units.map fun u => JavaScope.buildTables config u).flatMap (·.raised p) =
          units.flatMap fun u => (JavaScope.buildTables config u).raised p := List.flatMap_map ..
      rw [recorded, recorded, hlog, ← hraised]
      exact hc.mem_diagnostics hdone (hraised ▸ raised_keys config p units) d
    · rw [((hsound.reaches hlater).answer q).1, (hafter.answer q).1]

end Analysis

end JavaScope
