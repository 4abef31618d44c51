/-
# Truncated class files

A class file that is cut off anywhere is refused because it ends too early, and up to there it has
the events of the whole file (`scanClass_truncated`).  So no class file is the beginning of another
one.

The whole file and its beginning are read side by side.  A read or scan that succeeds on the whole
*copes with truncation* if, on the beginning, it does the same and leaves what it leaves on the
whole but for the lost bytes, or else runs out of bytes.  Single steps do, and so does all that
consists of them (`Scan.Steps.truncates`).  The contents of an attribute are the same slice in both
files, so nothing has to be known of them but that they add events to a log.
-/
import JavaScope.Proofs.ClassFile.Steps
import JavaScope.Proofs.ClassFile.Streaming

namespace JavaScope

/-- The result is the error that bytes are missing. -/
def RunsOut {α : Type} (r : Except ClassError α) : Prop :=
  ∃ offset needed left, r = .error (.malformed offset (.endOfInput needed left))

/-! ## Reads -/

/-- If the read succeeds on some bytes, then without the last of them it gives the same and stops
at the same place, or it runs out of bytes. -/
def Read.Truncates {α : Type} (x : Read α) : Prop :=
  ∀ offset bytes lost a c, x ⟨offset, bytes ++ lost⟩ = .ok (a, c) →
    (∃ rest, c.rest = rest ++ lost ∧ x ⟨offset, bytes⟩ = .ok (a, ⟨c.offset, rest⟩)) ∨
      RunsOut (x ⟨offset, bytes⟩)

namespace Read

variable {α β : Type} {x : Read α} {f : α → Read β}

lemma truncates_pure (a : α) : Truncates (pure a) := by
  intro offset bytes lost b c h
  obtain ⟨rfl, rfl⟩ := Prod.mk.inj (Except.ok.inj h)
  exact .inl ⟨bytes, rfl, rfl⟩

lemma Truncates.bind (hx : Truncates x) (hf : ∀ a, Truncates (f a)) : Truncates (x >>= f) := by
  intro offset bytes lost b c h
  obtain ⟨a, ⟨at₁, rest₁⟩, hxlong, hflong⟩ := exists_of_bind_eq_ok h
  rw [bind_apply]
  rcases hx offset bytes lost a _ hxlong with ⟨rest, hrest, hxshort⟩ | ⟨o, n, l, hout⟩
  · -- the first part is read alike
    obtain rfl : rest₁ = rest ++ lost := hrest
    rw [hxshort]
    exact hf a at₁ rest lost b c hflong
  · rw [hout]
    exact .inr ⟨o, n, l, rfl⟩

lemma truncates_fail (e : ClassError) : Truncates (fail e : Read α) := by
  intro offset bytes lost a c h
  cases h

lemma truncates_offset : Truncates offset := by
  intro offset bytes lost a c h
  obtain ⟨rfl, rfl⟩ := Prod.mk.inj (Except.ok.inj h)
  exact .inl ⟨bytes, rfl, rfl⟩

lemma truncates_bytes (n : Nat) : Truncates (Read.bytes n) := by
  intro offset bytes lost taken c h
  by_cases hn : n ≤ bytes.length
  · have htake : (bytes ++ lost).take n = bytes.take n := List.take_append_of_le_length hn
    have hdrop : (bytes ++ lost).drop n = bytes.drop n ++ lost := List.drop_append_of_le_length hn
    have hlength : (bytes.take n).length = n := List.length_take_of_le hn
    simp only [Read.bytes, htake, hdrop, if_pos hlength] at h ⊢
    obtain ⟨rfl, rfl⟩ := Prod.mk.inj (Except.ok.inj h)
    exact .inl ⟨bytes.drop n, rfl, rfl⟩
  · have hlength : (bytes.take n).length ≠ n := by
      rw [List.length_take]
      omega
    simp only [Read.bytes, if_neg hlength]
    exact .inr ⟨_, _, _, rfl⟩

lemma truncates_take (n : Nat) (decode : List UInt8 → α)
    (takes : ∀ c, x c = (Read.bytes n c).map fun r => (decode r.1, r.2)) : Truncates x := by
  intro offset bytes lost a c h
  rw [takes] at h ⊢
  rcases hlong : Read.bytes n ⟨offset, bytes ++ lost⟩ with e | ⟨slice, after⟩
  · rw [hlong] at h
    cases h
  · rw [hlong] at h
    obtain ⟨rfl, rfl⟩ := Prod.mk.inj (Except.ok.inj h)
    rcases truncates_bytes n offset bytes lost slice after hlong with
      ⟨rest, hrest, hshort⟩ | ⟨o, m, l, hout⟩
    · exact .inl ⟨rest, hrest, by rw [hshort]; rfl⟩
    · exact .inr ⟨o, m, l, by rw [hout]; rfl⟩

/-- At the end of the whole there is nothing to be lost. -/
lemma truncates_expectEnd (what : String) : Truncates (expectEnd what) := by
  intro offset bytes lost a c h
  unfold expectEnd at h ⊢
  split at h
  · next hempty =>
    obtain ⟨rfl, rfl⟩ := List.append_eq_nil_iff.mp (List.isEmpty_iff.mp hempty)
    obtain ⟨rfl, rfl⟩ := Prod.mk.inj (Except.ok.inj h)
    exact .inl ⟨[], rfl, rfl⟩
  · cases h

/-- Bytes that are missing are missed where they would be taken. -/
lemma Steps.truncates {notes : List Nat} (steps : x.Steps notes) : x.Truncates := by
  induction steps with
  | pure a => exact truncates_pure a
  | fail blames placed => exact truncates_fail _
  | take n decode takes => exact truncates_take n decode takes
  | note next ih => exact truncates_offset.bind ih
  | bind first next ihfirst ihnext => exact ihfirst.bind ihnext
  | expectEnd what => exact truncates_expectEnd what

end Read

/-! ## Scans -/

/-- The scan only adds events to a log. -/
def Scan.Grows {α : Type} (x : Scan (List ClassEvent) α) : Prop := ∀ c log, log <:+ (x c log).2

/-- The scan adds events to a log; and if it succeeds on some bytes, then without the last of them
it does the same and stops at the same place, or it runs out of bytes with some of the events. -/
structure Scan.Truncates {α : Type} (x : Scan (List ClassEvent) α) : Prop where
  grows : x.Grows
  cut : ∀ offset bytes lost log a c log', x ⟨offset, bytes ++ lost⟩ log = (.ok (a, c), log') →
    (∃ rest, c.rest = rest ++ lost ∧ x ⟨offset, bytes⟩ log = (.ok (a, ⟨c.offset, rest⟩), log')) ∨
      RunsOut (x ⟨offset, bytes⟩ log).1 ∧ (x ⟨offset, bytes⟩ log).2 <:+ log'

/-- What the scan succeeds on, it reads to the end. -/
def Scan.ReadsAll {σ α : Type} (x : Scan σ α) : Prop :=
  ∀ c s a c' s', x c s = (.ok (a, c'), s') → c'.rest = []

namespace Scan

section Truncates

variable {α β : Type} {x : Scan (List ClassEvent) α} {f : α → Scan (List ClassEvent) β}

lemma Grows.bind (hx : x.Grows) (hf : ∀ a, (f a).Grows) : (x >>= f).Grows := by
  intro c log
  have hfirst := hx c log
  rw [bind_apply]
  rcases hrun : x c log with ⟨e | ⟨a, c₁⟩, log₁⟩
  · rw [hrun] at hfirst
    exact hfirst
  · rw [hrun] at hfirst
    exact hfirst.trans (hf a c₁ log₁)

lemma truncates_read {x : Read α} (hx : x.Truncates) : (read x).Truncates where
  grows _ log := List.suffix_refl log
  cut := by
    intro offset bytes lost log a c log' h
    obtain ⟨hlong, rfl⟩ := Prod.mk.inj h
    rcases hx offset bytes lost a c hlong with ⟨rest, hrest, hshort⟩ | hout
    · exact .inl ⟨rest, hrest, by simp only [read, hshort]⟩
    · exact .inr ⟨hout, List.suffix_refl log⟩

lemma truncates_emit (e : ClassEvent) : (emit Visitor.log e).Truncates where
  grows _ log := List.suffix_cons e log
  cut := by
    intro offset bytes lost log a c log' h
    obtain ⟨hlong, rfl⟩ := Prod.mk.inj h
    obtain ⟨rfl, rfl⟩ := Prod.mk.inj (Except.ok.inj hlong)
    exact .inl ⟨bytes, rfl, rfl⟩

lemma Truncates.bind (hx : x.Truncates) (hf : ∀ a, (f a).Truncates) : (x >>= f).Truncates where
  grows := hx.grows.bind fun a => (hf a).grows
  cut := by
    intro offset bytes lost log b c log' h
    obtain ⟨a, ⟨at₁, rest₁⟩, log₁, hxlong, hflong⟩ := exists_of_bind_eq_ok h
    rw [bind_apply]
    rcases hx.cut offset bytes lost log a _ log₁ hxlong with ⟨rest, hrest, hxshort⟩ | ⟨hout, hlog⟩
    · -- the first part is scanned alike
      obtain rfl : rest₁ = rest ++ lost := hrest
      rw [hxshort]
      exact (hf a).cut at₁ rest lost log₁ b c log' hflong
    · -- the second part is not scanned, but what it would add keeps the log of the first
      have hlater : log₁ <:+ log' := by
        have hgrows := (hf a).grows ⟨at₁, rest₁⟩ log₁
        rwa [hflong] at hgrows
      rcases hshort : x ⟨offset, bytes⟩ log with ⟨r, logs⟩
      rw [hshort] at hout hlog
      obtain ⟨o, n, l, rfl⟩ := hout
      exact .inr ⟨⟨o, n, l, rfl⟩, hlog.trans hlater⟩

/-- A slice is lost as a whole, or it is the same. -/
lemma truncates_within (n : Nat) (hx : x.Grows) : (within n x).Truncates where
  grows := by
    intro c log
    simp only [within]
    rcases Read.bytes n c with e | ⟨slice, after⟩
    · exact List.suffix_refl log
    · have hslice := hx ⟨c.offset, slice⟩ log
      rcases hrun : x ⟨c.offset, slice⟩ log with ⟨e | r, log₁⟩
      · simpa only [hrun] using hslice
      · simpa only [hrun] using hslice
  cut := by
    intro offset bytes lost log a c log' h
    simp only [within] at h ⊢
    cases hlong : Read.bytes n ⟨offset, bytes ++ lost⟩ with
    | error e =>
      rw [hlong] at h
      cases h
    | ok r =>
      obtain ⟨slice, after⟩ := r
      rw [hlong] at h
      have hslice := hx ⟨offset, slice⟩ log
      rcases hrun : x ⟨offset, slice⟩ log with ⟨e | ⟨b, c₁⟩, log₁⟩
      · simp only [hrun] at h
        cases h
      · simp only [hrun] at h hslice
        obtain ⟨hok, rfl⟩ := Prod.mk.inj h
        obtain ⟨rfl, rfl⟩ := Prod.mk.inj (Except.ok.inj hok)
        rcases Read.truncates_bytes n offset bytes lost slice after hlong with
          ⟨rest, hrest, hshort⟩ | ⟨o, m, l, hout⟩
        · rw [hshort]
          simp only [hrun]
          exact .inl ⟨rest, hrest, rfl⟩
        · rw [hout]
          exact .inr ⟨⟨o, m, l, rfl⟩, hslice⟩

/-- What copes with truncation step by step does so as a whole. -/
lemma Steps.truncates (steps : Scan.Steps Visitor.log x) : x.Truncates := by
  induction steps with
  | read steps => exact truncates_read steps.truncates
  | emit e => exact truncates_emit e
  | bind first next ihfirst ihnext => exact ihfirst.bind ihnext
  | sized steps ih =>
    exact (truncates_read (Read.truncates_take 4 Read.number32 Read.u32_eq)).bind fun length =>
      truncates_within _ ih.grows

lemma truncates_classFile : (classFile Visitor.log).Truncates :=
  (stepwise_classFile Visitor.log).elim Steps.truncates

end Truncates

/-! ## The end of a class file -/

section ReadsAll

variable {σ α β : Type} {x : Scan σ α} {f : α → Scan σ β}

lemma ReadsAll.bind (hf : ∀ a, (f a).ReadsAll) : (x >>= f).ReadsAll := by
  intro c s b c₂ s₂ h
  obtain ⟨a, c₁, s₁, -, hlast⟩ := exists_of_bind_eq_ok h
  exact hf a c₁ s₁ b c₂ s₂ hlast

lemma readsAll_expectEnd_emit (v : Visitor σ) (what : String) (e : ClassEvent) :
    (read (Read.expectEnd what) >>= fun _ => emit v e).ReadsAll := by
  intro c s a c' s' h
  obtain ⟨⟨⟩, c₁, s₁, hend, hemit⟩ := exists_of_bind_eq_ok h
  obtain ⟨offset, _ | ⟨b, rest⟩⟩ := c
  · obtain ⟨hok, rfl⟩ := Prod.mk.inj hend
    obtain ⟨-, rfl⟩ := Prod.mk.inj (Except.ok.inj hok)
    rcases hvisit : v.visit e s with ⟨x | ⟨⟩, s₂⟩
    · simp only [emit, hvisit] at hemit
      cases hemit
    · simp only [emit, hvisit] at hemit
      cases hemit
      rfl
  · cases (Prod.mk.inj hend).1

lemma readsAll_classBody (v : Visitor σ) (p : Pool) (version : ClassVersion) :
    (classBody v p version).ReadsAll := by
  -- eleven steps in front of the last two
  refine .bind fun access => .bind fun name => .bind fun superName => .bind fun count => ?_
  refine .bind fun interfaces => .bind fun _ => .bind fun fieldCount => .bind fun _ => ?_
  refine .bind fun methodCount => .bind fun _ => .bind fun _ => ?_
  exact readsAll_expectEnd_emit v _ _

lemma readsAll_classFile (v : Visitor σ) : (classFile v).ReadsAll :=
  .bind fun version => .bind fun p => readsAll_classBody v p version

end ReadsAll

end Scan

/-- The beginning of a class file that is accepted runs out of bytes, and until then has the events
of the file. -/
lemma classEvents_truncated {bytes begun : List UInt8} (haccepted : (classEvents bytes).1 = .ok ())
    (hbegun : begun <+: bytes) (hne : begun ≠ bytes) :
    RunsOut (classEvents begun).1 ∧ (classEvents begun).2 <+: (classEvents bytes).2 := by
  obtain ⟨lost, rfl⟩ := hbegun
  simp only [classEvents, scanClass, Cursor.start] at haccepted ⊢
  rcases hlong : Scan.classFile Visitor.log ⟨0, begun ++ lost⟩ [] with ⟨e | ⟨⟨⟩, c⟩, log⟩
  · rw [hlong] at haccepted
    cases haccepted
  · have hend := Scan.readsAll_classFile Visitor.log _ _ _ _ _ hlong
    rcases Scan.truncates_classFile.cut 0 begun lost [] _ _ _ hlong with
      ⟨rest, hrest, -⟩ | ⟨hout, hlog⟩
    · -- the whole was read to its end, so nothing is lost
      rw [hend] at hrest
      obtain ⟨-, rfl⟩ := List.append_eq_nil_iff.mp hrest.symm
      exact absurd (List.append_nil begun).symm hne
    · rcases hshort : Scan.classFile Visitor.log ⟨0, begun⟩ [] with ⟨r, logs⟩
      rw [hshort] at hout hlog
      obtain ⟨o, n, l, rfl⟩ := hout
      exact ⟨⟨o, n, l, rfl⟩, List.reverse_prefix.mpr hlog⟩

/-- A visitor that accepts all of some events accepts the first of them. -/
lemma Visitor.visitAll_of_prefix {σ : Type} {v : Visitor σ} {es fs : List ClassEvent} {s t : σ}
    (hbefore : es <+: fs) (h : v.visitAll fs s = (.ok (), t)) :
    ∃ s', v.visitAll es s = (.ok (), s') := by
  obtain ⟨gs, rfl⟩ := hbefore
  rw [visitAll_append] at h
  rcases hes : v.visitAll es s with ⟨x | ⟨⟩, s'⟩
  · rw [hes] at h
    cases h
  · exact ⟨s', rfl⟩

/-- A visitor accepts a class file if there is no defect in the file and it accepts all events. -/
lemma visitAll_of_scanClass {σ : Type} {v : Visitor σ} {bytes : List UInt8} {s t : σ}
    (h : scanClass v bytes s = (.ok (), t)) :
    (classEvents bytes).1 = .ok () ∧ v.visitAll (classEvents bytes).2 s = (.ok (), t) := by
  rw [scanClass_eq_visitAll] at h
  rcases hvisit : v.visitAll (classEvents bytes).2 s with ⟨x | ⟨⟩, t'⟩
  · rw [hvisit] at h
    cases h
  · rw [hvisit] at h
    obtain ⟨hfile, rfl⟩ := Prod.mk.inj h
    exact ⟨hfile, rfl⟩

/-- If some visitor accepts a class file, then a file that is cut off anywhere is malformed: the
scan runs out of bytes, for this visitor as for a log, and the events that the log has by then are
the first of those of the whole file.  So no visitor accepts a file that is the beginning of
another one. -/
theorem scanClass_truncated {σ : Type} {v : Visitor σ} {bytes begun : List UInt8} {s t : σ}
    (haccepted : scanClass v bytes s = (.ok (), t)) (hbegun : begun <+: bytes)
    (hne : begun ≠ bytes) :
    (∃ offset needed left, let e := .malformed offset (.endOfInput needed left)
      (scanClass v begun s).1 = .error e ∧ (classEvents begun).1 = .error e) ∧
      (classEvents begun).2 <+: (classEvents bytes).2 ∧
      ∀ {τ : Type} (w : Visitor τ) (s' : τ), (scanClass w begun s').1 ≠ .ok () := by
  obtain ⟨hfile, hvisit⟩ := visitAll_of_scanClass haccepted
  obtain ⟨⟨offset, needed, left, hout⟩, hevents⟩ := classEvents_truncated hfile hbegun hne
  obtain ⟨s', hfirst⟩ := Visitor.visitAll_of_prefix hevents hvisit
  refine ⟨⟨offset, needed, left, ?_, hout⟩, hevents, fun w s' hok => ?_⟩
  · rw [scanClass_eq_visitAll, hfirst, hout]
  · have hbegun := (visitAll_of_scanClass (Prod.ext hok rfl)).1
    rw [hout] at hbegun
    cases hbegun

/-- The class file of an empty class `A` without a superclass. -/
def emptyClassFile : List UInt8 :=
  [0xCA, 0xFE, 0xBA, 0xBE, 0, 0, 0, 52,
    0, 3, 7, 0, 2, 1, 0, 1, 65,
    0, 33, 0, 1, 0, 0, 0, 0, 0, 0, 0, 0, 0, 0]

/-- Without its last byte the class file is malformed, and its events begin those of the whole. -/
theorem scanClass_truncated_emptyClassFile :
    (classEvents emptyClassFile).1 = .ok () ∧
      (∃ offset needed left, let e := .malformed offset (.endOfInput needed left)
        (scanClass Visitor.log (emptyClassFile.take 30) []).1 = .error e ∧
          (classEvents (emptyClassFile.take 30)).1 = .error e) ∧
      (classEvents (emptyClassFile.take 30)).2 <+: (classEvents emptyClassFile).2 := by
  have haccepted : scanClass Visitor.log emptyClassFile [] =
      (.ok (), (classEvents emptyClassFile).2.reverse) := by rfl
  have hbegun : emptyClassFile.take 30 <+: emptyClassFile := List.take_prefix 30 emptyClassFile
  obtain ⟨hout, hevents, -⟩ := scanClass_truncated haccepted hbegun (by decide)
  exact ⟨rfl, hout, hevents⟩

end JavaScope
