/-
# The history of a log

A log of diagnostics is asked to take one more, to show those that it has, all of them or those
about a subject, or to hand them out (`DiagnosticLog.Request`).  Handing out empties the list of a
log but not its memory, so what the log answers depends on all that it was ever asked.  Over every
history, a diagnostic is accepted exactly if its code and its subject are new together, and the
diagnostics handed out and those still shown are the accepted ones, in order (`reportsOnce`).

A history is told from its end: each request is answered by the log that the requests before it
leave (`transcript_concat`), and the invariant relates that log to their answers (`Recounts`).
-/
import Mathlib.Data.List.Induction
import Mathlib.Data.List.Nodup
import JavaScope.Proofs.Run.Transparency

namespace JavaScope

namespace DiagnosticLog

/-! ## Requests and answers -/

/-- What a log is asked. -/
inductive Request
  /-- To take one more diagnostic. -/
  | add (d : Diagnostic)
  /-- For the diagnostics that it has. -/
  | snapshot
  /-- To hand out the diagnostics that it has. -/
  | take
  /-- For the diagnostics about a subject. -/
  | forSubject (subject : String)
deriving DecidableEq

/-- What a log answers. -/
inductive Answer
  /-- Whether the diagnostic is new. -/
  | added (isNew : Bool)
  | listed (ds : List Diagnostic)
deriving DecidableEq

/-- The answer of a log to a request, and the log after it. -/
def perform (l : DiagnosticLog) : Request → Answer × DiagnosticLog
  | .add d => (.added (!l.contains d), l.add d)
  | .snapshot => (.listed l.diagnostics, l)
  | .take => (.listed l.take.1, l.take.2)
  | .forSubject subject => (.listed (l.forSubject subject), l)

/-- The log after some requests, one after the other. -/
def after (l : DiagnosticLog) (rs : List Request) : DiagnosticLog :=
  rs.foldl (fun l r => (l.perform r).2) l

/-- Some requests, one after the other, with their answers. -/
def transcript (l : DiagnosticLog) : List Request → List (Request × Answer)
  | [] => []
  | r :: rs => (r, (l.perform r).1) :: (l.perform r).2.transcript rs

/-- The diagnostic that a log accepted in an exchange, if it did. -/
def acceptedIn : Request × Answer → Option Diagnostic
  | (.add d, .added true) => some d
  | _ => none

/-- The diagnostics that were handed out in an exchange. -/
def takenIn : Request × Answer → List Diagnostic
  | (.take, .listed ds) => ds
  | _ => []

/-- The accepted diagnostics, the oldest first. -/
def accepted (exchanges : List (Request × Answer)) : List Diagnostic :=
  exchanges.filterMap acceptedIn

/-- What was handed out, the oldest first. -/
def taken (exchanges : List (Request × Answer)) : List Diagnostic := exchanges.flatMap takenIn

/-! ## One more request -/

variable {l : DiagnosticLog} {rs : List Request} {exchanges : List (Request × Answer)}

lemma after_concat (l : DiagnosticLog) (rs : List Request) (r : Request) :
    l.after (rs ++ [r]) = ((l.after rs).perform r).2 := by
  rw [after, List.foldl_append]
  rfl

lemma transcript_concat (l : DiagnosticLog) (rs : List Request) (r : Request) :
    l.transcript (rs ++ [r]) = l.transcript rs ++ [(r, ((l.after rs).perform r).1)] := by
  induction rs generalizing l with
  | nil => rfl
  | cons q rs ih => exact congrArg _ (ih (l.perform q).2)

lemma accepted_concat (x : Request × Answer) :
    accepted (exchanges ++ [x]) = accepted exchanges ++ (acceptedIn x).toList := by
  rw [accepted, List.filterMap_append]
  cases h : acceptedIn x <;> simp [accepted, h]

lemma taken_concat (x : Request × Answer) :
    taken (exchanges ++ [x]) = taken exchanges ++ takenIn x := by
  rw [taken, List.flatMap_append, List.flatMap_singleton]
  rfl

lemma exists_added_concat {d : Diagnostic} {k : Option String × String} :
    (∃ e, .add e ∈ rs ++ [.add d] ∧ e.key = k) ↔ (∃ e, .add e ∈ rs ∧ e.key = k) ∨ d.key = k := by
  simp [or_and_right, exists_or]

lemma perform_add (l : DiagnosticLog) (d : Diagnostic) :
    (l.perform (.add d)).1 = .added true ↔ d.key ∉ l.seen := by
  simp [perform, contains]

/-! ## The invariant -/

/-- The log has answered these requests in this way: it remembers the keys of all diagnostics that
it was given, each once, and it has accepted one for each of them; of these it has handed out the
first and shows the others. -/
structure Recounts (rs : List Request) (exchanges : List (Request × Answer))
    (l : DiagnosticLog) : Prop where
  seen : ∀ k, k ∈ l.seen ↔ ∃ d, .add d ∈ rs ∧ d.key = k
  keys : l.seen = ((accepted exchanges).map (·.key)).reverse
  nodup : l.seen.Nodup
  kept : taken exchanges ++ l.diagnostics = accepted exchanges

lemma recounts_empty : Recounts [] [] empty where
  seen k := by simp [empty]
  keys := rfl
  nodup := List.nodup_nil
  kept := rfl

/-- A request that adds nothing. -/
lemma Recounts.of_not_add (h : Recounts rs exchanges l) {r : Request} {a : Answer}
    {l' : DiagnosticLog} (hr : ∀ d, r ≠ .add d) (hseen : l'.seen = l.seen)
    (hkept : takenIn (r, a) ++ l'.diagnostics = l.diagnostics) :
    Recounts (rs ++ [r]) (exchanges ++ [(r, a)]) l' := by
  have haccepted : acceptedIn (r, a) = none := by
    cases r with
    | add d => exact absurd rfl (hr d)
    | _ => rfl
  have hall : accepted (exchanges ++ [(r, a)]) = accepted exchanges := by
    rw [accepted_concat, haccepted, Option.toList_none, List.append_nil]
  refine ⟨fun k => ?_, by rw [hseen, hall, h.keys], by rw [hseen]; exact h.nodup, ?_⟩
  · rw [hseen, h.seen]
    have hadd : ∀ d, .add d ∈ rs ++ [r] ↔ .add d ∈ rs := by
      intro d
      rw [List.mem_append, List.mem_singleton, or_iff_left (hr d).symm]
    simp only [hadd]
  · rw [taken_concat, hall, List.append_assoc, hkept, h.kept]

/-- A diagnostic that is not new is dropped. -/
lemma Recounts.add_seen (h : Recounts rs exchanges l) {d : Diagnostic} (hd : d.key ∈ l.seen) :
    Recounts (rs ++ [.add d]) (exchanges ++ [(.add d, .added false)]) l := by
  have hall : accepted (exchanges ++ [(.add d, .added false)]) = accepted exchanges := by
    rw [accepted_concat]
    exact List.append_nil _
  refine ⟨fun k => ?_, by rw [hall, h.keys], h.nodup, ?_⟩
  · rw [exists_added_concat, ← h.seen, or_iff_left_of_imp]
    rintro rfl
    exact hd
  · rw [taken_concat, hall]
    exact (congrArg (· ++ l.diagnostics) (List.append_nil _)).trans h.kept

/-- A new diagnostic is remembered, and shown behind the others. -/
lemma Recounts.add_new (h : Recounts rs exchanges l) {d : Diagnostic} (hd : d.key ∉ l.seen) :
    Recounts (rs ++ [.add d]) (exchanges ++ [(.add d, .added true)])
      ⟨d.key :: l.seen, l.diagnostics ++ [d]⟩ := by
  have hall : accepted (exchanges ++ [(.add d, .added true)]) = accepted exchanges ++ [d] :=
    accepted_concat _
  refine ⟨fun k => ?_, ?_, List.nodup_cons.mpr ⟨hd, h.nodup⟩, ?_⟩
  · rw [exists_added_concat, ← h.seen, List.mem_cons, or_comm, eq_comm]
  · rw [hall, List.map_append, List.reverse_append, ← h.keys]
    rfl
  · rw [taken_concat, hall, ← h.kept, ← List.append_assoc]
    exact congrArg (· ++ l.diagnostics ++ [d]) (List.append_nil _)

lemma Recounts.perform (h : Recounts rs exchanges l) (r : Request) :
    Recounts (rs ++ [r]) (exchanges ++ [(r, (l.perform r).1)]) (l.perform r).2 := by
  cases r with
  | add d =>
    by_cases hd : d.key ∈ l.seen
    · have hanswer : l.perform (.add d) = (.added false, l) := by
        simp [DiagnosticLog.perform, contains, hd, add_of_mem hd]
      rw [hanswer]
      exact h.add_seen hd
    · have hanswer : l.perform (.add d) =
          (.added true, ⟨d.key :: l.seen, l.diagnostics ++ [d]⟩) := by
        simp [DiagnosticLog.perform, contains, hd, add_of_not_mem hd]
      rw [hanswer]
      exact h.add_new hd
  | snapshot => exact h.of_not_add (by simp) rfl rfl
  | take => exact h.of_not_add (by simp) rfl (List.append_nil _)
  | forSubject subject => exact h.of_not_add (by simp) rfl rfl

/-- Every history that starts with an empty log. -/
lemma recounts_after (rs : List Request) :
    Recounts rs (empty.transcript rs) (empty.after rs) := by
  induction rs using List.reverseRecOn with
  | nil => exact recounts_empty
  | append_singleton rs r ih =>
    rw [transcript_concat, after_concat]
    exact ih.perform r

/-! ## The law of histories -/

/-- After any history of a log, whatever was handed out in it, one more diagnostic is accepted
exactly if no diagnostic with its code and its subject was ever added before.  The diagnostics that
were handed out, in order, and those that are shown now are the accepted ones in the order in which
they were added; no two of them have the same code and subject.  What is shown about a subject are
those of the diagnostics shown now that have it. -/
theorem reportsOnce (rs : List Request) :
    (∀ d, ((empty.after rs).perform (.add d)).1 = .added true ↔
        ∀ e, .add e ∈ rs → ¬(e.code = d.code ∧ e.subject = d.subject)) ∧
      (∃ shown, ((empty.after rs).perform .snapshot).1 = .listed shown ∧
        ((empty.after rs).perform .take).1 = .listed shown ∧
        taken (empty.transcript rs) ++ shown = accepted (empty.transcript rs) ∧
        ∀ subject, ((empty.after rs).perform (.forSubject subject)).1 =
          .listed (shown.filter (·.subject = subject))) ∧
      (accepted (empty.transcript rs)).Pairwise
        fun d e => ¬(d.code = e.code ∧ d.subject = e.subject) := by
  have h := recounts_after rs
  refine ⟨fun d => ?_, ⟨_, rfl, rfl, h.kept, fun subject => rfl⟩, ?_⟩
  · rw [perform_add, h.seen]
    simp only [Diagnostic.key, Prod.mk.injEq, not_exists, not_and]
  · have hkeys := h.nodup
    rw [h.keys, List.nodup_reverse, List.Nodup, List.pairwise_map] at hkeys
    exact hkeys.imp fun hne => by simpa [Diagnostic.key] using hne

/-- What was handed out stays suppressed. -/
example (d : Diagnostic) :
    (empty.transcript [.add d, .take, .add d, .snapshot]).map (·.2) =
      [.added true, .listed [d], .added false, .listed []] := by
  simp [transcript, perform, add, contains, DiagnosticLog.take, empty]

end DiagnosticLog

end JavaScope
