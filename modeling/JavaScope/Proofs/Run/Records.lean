/-
# What is on record

What a query raises is told step by step, like its value (`raised_bind`).  A log that started
empty has what was raised, each key once (`Complete`).
-/
import Mathlib.Data.List.Nodup
import JavaScope.Proofs.Run.Independence

namespace JavaScope

/-! ## What queries raise -/

namespace Query

variable {α β : Type} (p : Classpath)

lemma raised_bind (q : Query α) (f : α → Query β) :
    (q >>= f).raised p = q.raised p ++ (f (q.value p)).raised p := by
  rw [bind_eq]
  induction q with
  | done a => rfl
  | ask name next ih =>
    rw [bind, raised, raised, ih, List.append_assoc]
    rfl
  | warn d next ih =>
    rw [bind, raised, raised, ih, List.cons_append]
    rfl

@[simp] lemma raised_pure (a : α) : (pure a : Query α).raised p = [] := rfl

lemma Ensures.value {W : Diagnostic → Prop} {Q : α → Prop} {q : Query α} (h : q.Ensures W Q) :
    Q (q.value p) := by
  induction h with
  | done ha => exact ha
  | ask _ _ ih => exact ih _
  | warn _ _ ih => exact ih

/-- What is no report of a class is raised by queries only that may warn of it. -/
lemma not_mem_raised {w : Diagnostic} (hw : ∀ e : ClassError, w.code ≠ some e.code)
    {W : Diagnostic → Prop} {Q : α → Prop} {q : Query α} (h : q.Ensures W Q) (hW : ¬W w) :
    w ∉ q.raised p := by
  intro hmem
  rcases h.raised p w hmem with hd | ⟨name, -, hd⟩
  · exact hW hd
  · obtain ⟨e, -, rfl⟩ := mem_reports hd
    exact hw e rfl

lemma not_mem_raised_of_silent {w : Diagnostic} (hw : ∀ e : ClassError, w.code ≠ some e.code)
    {q : Query α} (h : q.Decent fun _ => False) : w ∉ q.raised p := not_mem_raised p hw h id

end Query

/-! ## Logs -/

namespace DiagnosticLog

variable {l : DiagnosticLog}

/-- The keys on record after adding diagnostics. -/
lemma mem_seen_addAll {ds : List Diagnostic} {k : Option String × String} :
    k ∈ (l.addAll ds).seen ↔ k ∈ l.seen ∨ ∃ d ∈ ds, d.key = k := by
  induction ds generalizing l with
  | nil => simp [addAll]
  | cons d ds ih =>
    have hadd : k ∈ (l.add d).seen ↔ k ∈ l.seen ∨ d.key = k := by
      by_cases hd : d.key ∈ l.seen
      · rw [add_of_mem hd]
        constructor
        · exact .inl
        · rintro (h | rfl)
          · exact h
          · exact hd
      · rw [add_of_not_mem hd, List.mem_cons, eq_comm, or_comm]
    show k ∈ ((l.add d).addAll ds).seen ↔ _
    rw [ih, hadd, or_assoc]
    simp only [List.mem_cons, exists_eq_or_imp]

/-- What is on record was there or was added. -/
lemma mem_of_mem_addAll {ds : List Diagnostic} {d : Diagnostic}
    (h : d ∈ (l.addAll ds).diagnostics) :
    d ∈ l.diagnostics ∨ d ∈ ds := by
  induction ds generalizing l with
  | nil => exact .inl h
  | cons e ds ih =>
    rcases ih h with hd | hd
    · by_cases he : e.key ∈ l.seen
      · rw [add_of_mem he] at hd
        exact .inl hd
      · rw [add_of_not_mem he] at hd
        rcases List.mem_append.mp hd with hd | hd
        · exact .inl hd
        · exact .inr (List.mem_singleton.mp hd ▸ List.mem_cons_self)
    · exact .inr (List.mem_cons_of_mem _ hd)

/-- The log suppresses the diagnostics that it has, and each key is on record once. -/
structure Complete (l : DiagnosticLog) : Prop where
  seen : l.seen = (l.diagnostics.map (·.key)).reverse
  nodup : l.seen.Nodup

lemma complete_empty : Complete {} := ⟨rfl, List.nodup_nil⟩

lemma Complete.add (h : l.Complete) (d : Diagnostic) : (l.add d).Complete := by
  by_cases hd : d.key ∈ l.seen
  · rwa [add_of_mem hd]
  · rw [add_of_not_mem hd]
    refine ⟨?_, List.nodup_cons.mpr ⟨hd, h.nodup⟩⟩
    simp [h.seen]

lemma Complete.addAll (h : l.Complete) (ds : List Diagnostic) : (l.addAll ds).Complete := by
  induction ds generalizing l with
  | nil => exact h
  | cons d ds ih => exact ih (h.add d)

lemma Complete.exists_of_mem_seen (h : l.Complete) {k : Option String × String} (hk : k ∈ l.seen) :
    ∃ d ∈ l.diagnostics, d.key = k := by
  rw [h.seen, List.mem_reverse] at hk
  exact List.mem_map.mp hk

lemma Complete.nodup_diagnostics (h : l.Complete) : l.diagnostics.Nodup := by
  have hkeys := h.nodup
  rw [h.seen, List.nodup_reverse] at hkeys
  exact hkeys.of_map

/-- What is added is on record, if nothing else has its key. -/
lemma Complete.mem_addAll (h : l.Complete) {ds : List Diagnostic} {d : Diagnostic} (hd : d ∈ ds)
    (hkey : ∀ e, e ∈ l.diagnostics ∨ e ∈ ds → e.key = d.key → e = d) :
    d ∈ (l.addAll ds).diagnostics := by
  obtain ⟨e, he, hsame⟩ := (h.addAll ds).exists_of_mem_seen (key_mem_addAll hd)
  rwa [← hkey e (mem_of_mem_addAll he) hsame]

end DiagnosticLog

end JavaScope
