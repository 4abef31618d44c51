/-
# Stubs are built from drafts

A draft of a stub closes with the last event of a class, when the stub is built from what was
drafted (`closed_of_step`).  So every stub that is read from a class file was built in this way
(`ClassStub.exists_draft`), and what it says about other classes is said in binary spellings
(`ClassStub.exists_toBinary_of_mem_supertypes`).
-/
import JavaScope.Proofs.ClassFile.Streaming
import JavaScope.Proofs.Stub.Acceptance

namespace JavaScope

namespace StubDraft

/-- Only the last event of a class closes a draft, and the stub is built from the draft then. -/
lemma closed_of_step {d : StubDraft} {e : ClassEvent} {stub : Option ClassStub}
    (h : d.step e = .ok (closed stub)) :
    ∃ draft : ClassDraft, e = .classEnd ∧ stub = some draft.build := by
  cases d with
  | awaitingClass => cases e <;> simp [step, unexpected] at h
  | inClass draft =>
    cases e
    case classEnd =>
      simp only [step, stepClass, Except.ok.injEq, closed.injEq] at h
      exact ⟨draft, rfl, h.symm⟩
    all_goals
      simp only [step, stepClass, unexpected, bind, Except.bind, pure, Except.pure] at h
      first | cases h | (split at h <;> cases h)
  | inField draft f =>
    cases e
    all_goals
      simp only [step, stepField, unexpected, bind, Except.bind, pure, Except.pure] at h
      first | cases h | (split at h <;> cases h)
  | inMethod draft m =>
    cases e
    all_goals
      simp only [step, stepMethod, unexpected, bind, Except.bind, pure, Except.pure] at h
      first | cases h | (split at h <;> cases h)
  | inAnnotationUse draft target isVisible value =>
    simp only [step, stepAnnotationUse, bind, Except.bind, pure, Except.pure] at h
    split at h
    · cases h
    · split at h
      · cases h
      · cases target <;> cases h
  | inDefault draft m value =>
    simp only [step, stepDefault, bind, Except.bind, pure, Except.pure] at h
    split at h
    · cases h
    · split at h
      · cases h
      · split at h <;> cases h
  | closed stub => cases h

/-- A stub that a draft has finished was built from the draft of a class. -/
def Builds (d : StubDraft) : Prop :=
  ∀ c, d = closed (some c) → ∃ draft : ClassDraft, c = draft.build

lemma builds_visit (e : ClassEvent) {d : StubDraft} (h : d.Builds) :
    (visitor.visit e d).2.Builds := by
  intro c hc
  simp only [visitor] at hc
  split at hc
  · next d' hstep =>
    obtain ⟨draft, -, hdraft⟩ := closed_of_step (hstep.trans (congrArg Except.ok hc))
    exact ⟨draft, Option.some.inj hdraft⟩
  · -- after a refused event only a stub that was finished before stays
    cases d with
    | closed stub => exact h c hc
    | _ => cases hc

lemma builds_visitAll (es : List ClassEvent) {d : StubDraft} (h : d.Builds) :
    (visitor.visitAll es d).2.Builds := by
  induction es generalizing d with
  | nil => exact h
  | cons e rest ih =>
    have hnext := builds_visit e h
    rw [Visitor.visitAll]
    generalize visitor.visit e d = outcome at hnext ⊢
    obtain ⟨x | ⟨⟩, d'⟩ := outcome
    · exact hnext
    · exact ih hnext

end StubDraft

namespace ClassStub

/-- The stub of a class file is built from the draft of a class. -/
lemma exists_draft {bytes : List UInt8} {c : ClassStub} (h : ofBytes bytes = .ok c) :
    ∃ draft : ClassDraft, c = draft.build := by
  have hbuilds := StubDraft.builds_visitAll (classEvents bytes).2 (d := .awaitingClass)
    (fun c hc => by cases hc)
  rw [ofBytes, scanClass_eq_visitAll] at h
  generalize StubDraft.visitor.visitAll (classEvents bytes).2 .awaitingClass = outcome
    at h hbuilds
  generalize (classEvents bytes).1 = result at h
  obtain ⟨x | ⟨⟩, d⟩ := outcome
  · cases h
  · cases result with
    | error x => cases h
    | ok _ => exact hbuilds c (StubDraft.eq_closed_of_finish h)

/-- The names of supertypes in a class file are binary spellings. -/
lemma exists_toBinary_of_mem_supertypes {bytes : List UInt8} {c : ClassStub}
    (h : ofBytes bytes = .ok c) {n : String} (hn : n ∈ c.supertypes) :
    ∃ internal, n = Name.toBinary internal := by
  obtain ⟨draft, rfl⟩ := exists_draft h
  rcases List.mem_append.mp hn with hn | hn
  · obtain ⟨internal, -, rfl⟩ := Option.map_eq_some_iff.mp (Option.mem_toList.mp hn)
    exact ⟨internal, rfl⟩
  · obtain ⟨internal, -, rfl⟩ := List.mem_map.mp hn
    exact ⟨internal, rfl⟩

end ClassStub

end JavaScope
