/-
# Refused events

After a draft of a stub has refused an event, and likewise after it has accepted the last event of
a class, it refuses all others, and what it has for a stub does not change any more
(`StubDraft.refuses_after`).  So no part of a class that was drafted before a refusal shows up
later.
-/
import Mathlib.Data.List.Induction
import JavaScope.Proofs.Stub.Building

namespace JavaScope

namespace StubDraft

/-- The draft after some events, each of them accepted or refused. -/
def after (d : StubDraft) (events : List ClassEvent) : StubDraft :=
  events.foldl (fun d e => (visitor.visit e d).2) d

/-- The draft accepts the event. -/
def Accepts (d : StubDraft) (e : ClassEvent) : Prop := (visitor.visit e d).1 = .ok ()

variable {d : StubDraft} {e : ClassEvent}

lemma after_append (d : StubDraft) (es fs : List ClassEvent) :
    d.after (es ++ fs) = (d.after es).after fs := List.foldl_append

/-! ## Closed drafts -/

lemma visit_closed (stub : Option ClassStub) (e : ClassEvent) :
    visitor.visit e (closed stub) =
      (.error (.inconsistent (.unexpected e.label .afterClass)), closed stub) := rfl

lemma after_closed (stub : Option ClassStub) (es : List ClassEvent) :
    (closed stub).after es = closed stub := by
  induction es with
  | nil => rfl
  | cons e es ih => exact ih

lemma accepts_iff : d.Accepts e ↔ ∃ d', d.step e = .ok d' ∧ (visitor.visit e d).2 = d' := by
  simp only [Accepts, visitor]
  cases d.step e <;> simp

/-- A refusal closes the draft, with the stub that it has by then. -/
lemma visit_of_not_accepts (h : ¬ d.Accepts e) : (visitor.visit e d).2 = d.abandon := by
  simp only [Accepts, visitor] at h ⊢
  cases hstep : d.step e with
  | error x => rfl
  | ok d' => simp [hstep] at h

/-- The last event of a class is accepted by the draft of a class only, and finishes its stub. -/
lemma visit_classEnd (h : d.Accepts .classEnd) :
    ∃ stub, (visitor.visit .classEnd d).2 = closed (some stub) := by
  obtain ⟨d', hstep, hvisit⟩ := accepts_iff.mp h
  rw [hvisit]
  cases d with
  | inClass c => exact ⟨c.build, (Except.ok.inj hstep).symm⟩
  | _ => cases hstep

lemma exists_closed_of_visit (h : ¬ d.Accepts e ∨ e = .classEnd) :
    ∃ stub, (visitor.visit e d).2 = closed stub := by
  by_cases haccepted : d.Accepts e
  · obtain rfl : e = .classEnd := h.resolve_left (not_not.mpr haccepted)
    obtain ⟨stub, hclosed⟩ := visit_classEnd haccepted
    exact ⟨some stub, hclosed⟩
  · rw [visit_of_not_accepts haccepted]
    cases d <;> exact ⟨_, rfl⟩

/-! ## Stubs -/

/-- After an accepted end of a class the stub stays. -/
lemma after_of_classEnd {start : List ClassEvent} (h : (d.after start).Accepts .classEnd)
    (rest : List ClassEvent) :
    ∃ stub, d.after (start ++ [.classEnd]) = closed (some stub) ∧
      d.after (start ++ .classEnd :: rest) = closed (some stub) := by
  obtain ⟨stub, hclosed⟩ := visit_classEnd h
  have hend : d.after (start ++ [.classEnd]) = closed (some stub) := by
    rw [after_append]
    exact hclosed
  refine ⟨stub, hend, ?_⟩
  rw [List.append_cons, after_append, hend, after_closed]

/-- There is a stub only if the end of a class was accepted. -/
lemma exists_classEnd_of_finish {events : List ClassEvent} {stub : ClassStub}
    (h : (awaitingClass.after events).finish = .ok stub) :
    ∃ start rest, events = start ++ .classEnd :: rest ∧
      (awaitingClass.after start).Accepts .classEnd := by
  induction events using List.reverseRecOn with
  | nil => cases h
  | append_singleton events e ih =>
    have hclosed := eq_closed_of_finish h
    rw [after_append] at hclosed
    by_cases haccepted : (awaitingClass.after events).Accepts e
    · obtain ⟨d', hstep, hvisit⟩ := accepts_iff.mp haccepted
      obtain rfl : d' = closed (some stub) := hvisit.symm.trans hclosed
      obtain ⟨-, rfl, -⟩ := closed_of_step hstep
      exact ⟨events, [], rfl, haccepted⟩
    · -- a refusal keeps a stub that was there before
      have habandon := (visit_of_not_accepts haccepted).symm.trans hclosed
      have hbefore : awaitingClass.after events = closed (some stub) := by
        cases hd : awaitingClass.after events <;> rw [hd] at habandon <;> cases habandon
        rfl
      obtain ⟨start, rest, rfl, hstart⟩ := ih (by rw [hbefore]; rfl)
      exact ⟨start, rest ++ [e], by simp, hstart⟩

/-- When an event was refused, or the end of a class was accepted, whatever came before, then every
later event is refused as one that is not expected any more, whatever comes in between, and the
draft is finished.  There is no stub if no end of a class had been accepted by then; if one had, the
stub is the one that there was at that end. -/
theorem refuses_after (before later : List ClassEvent) (e f : ClassEvent)
    (h : ¬ (awaitingClass.after before).Accepts e ∨ e = .classEnd) :
    let d := awaitingClass.after (before ++ e :: later)
    visitor.visit f d = (.error (.inconsistent (.unexpected f.label .afterClass)), d) ∧
      d.state = .finished ∧
      ((∀ start rest, before ++ [e] = start ++ .classEnd :: rest →
          ¬ (awaitingClass.after start).Accepts .classEnd) →
        d.finish = .error (.inconsistent .noStub)) ∧
      ∀ start rest, before ++ [e] = start ++ .classEnd :: rest →
        (awaitingClass.after start).Accepts .classEnd →
        ∃ stub, (awaitingClass.after (start ++ [.classEnd])).finish = .ok stub ∧
          d.finish = .ok stub := by
  intro d
  obtain ⟨stub, hvisit⟩ := exists_closed_of_visit h
  have hclosed : awaitingClass.after (before ++ [e]) = closed stub := by
    rw [after_append]
    exact hvisit
  have hd : d = closed stub := by
    show awaitingClass.after (before ++ e :: later) = _
    rw [List.append_cons, after_append, hclosed, after_closed]
  rw [hd]
  refine ⟨visit_closed stub f, rfl, fun hnone => ?_, fun start rest heq haccepted => ?_⟩
  · cases stub with
    | none => rfl
    | some stub =>
      have hfinish : (awaitingClass.after (before ++ [e])).finish = .ok stub := by
        rw [hclosed]
        rfl
      obtain ⟨start, rest, heq, haccepted⟩ := exists_classEnd_of_finish hfinish
      exact absurd haccepted (hnone start rest heq)
  · obtain ⟨stub', hend, hrest⟩ := after_of_classEnd haccepted rest
    rw [← heq, hclosed] at hrest
    rw [hend, hrest]
    exact ⟨stub', rfl, rfl⟩

/-- A second constant of a field is refused, and then the field and its class are not finished any
more. -/
theorem refuses_after_secondConstant :
    let before : List ClassEvent :=
      [.classStart ⟨52, 0⟩ 33 "A" none [], .fieldStart 25 "x" "I", .fieldConstant (.int 1)]
    let d := awaitingClass.after (before ++ .fieldConstant (.int 2) :: [.fieldEnd, .classEnd])
    ¬ (awaitingClass.after before).Accepts (.fieldConstant (.int 2)) ∧
      visitor.visit .classEnd d =
        (.error (.inconsistent (.unexpected "ClassEnd" .afterClass)), d) ∧
      d.state = .finished ∧ d.finish = .error (.inconsistent .noStub) := by
  intro before d
  have hrefused : ¬ (awaitingClass.after before).Accepts (.fieldConstant (.int 2)) := by
    intro h
    cases h
  obtain ⟨hvisit, hstate, -, -⟩ := refuses_after before [.fieldEnd, .classEnd]
    (.fieldConstant (.int 2)) .classEnd (.inl hrefused)
  exact ⟨hrefused, hvisit, hstate, rfl⟩

end StubDraft

end JavaScope
