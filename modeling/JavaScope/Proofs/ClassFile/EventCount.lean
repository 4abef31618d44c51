/-
# No more events than bytes

Whatever counts, lengths and nestings a class file claims, a scan of it hands over no more events
than the file has bytes, also if it fails (`scanClass_cost_le`).

The argument is one about savings.  Every byte that is read is a unit earned, and every event costs
a unit.  Compounds are closed by an event of their own for which nothing is read, so a scan may also
draw on units that were saved before it.  A scan that *pays* for its events leaves what is still
saved and the bytes that are still to be read.
-/
import JavaScope.Proofs.ClassFile.Steps
import JavaScope.Proofs.ClassFile.Streaming

namespace JavaScope

/-! ## Reads -/

/-- A read that succeeds takes `n` bytes or more. -/
def Read.Earns {α : Type} (n : Nat) (x : Read α) : Prop :=
  ∀ c a c', x c = .ok (a, c') → c'.rest.length + n ≤ c.rest.length

namespace Read

variable {α β : Type} {x : Read α} {f : α → Read β} {m n : Nat}

lemma Earns.bind (hx : x.Earns m) (hf : ∀ a, (f a).Earns n) : (x >>= f).Earns (m + n) := by
  intro c b c₂ h
  obtain ⟨a, c₁, hfirst, hnext⟩ := exists_of_bind_eq_ok h
  have hm := hx c a c₁ hfirst
  have hn := hf a c₁ b c₂ hnext
  omega

lemma earns_note {f : Nat → Read α} (hf : ∀ place, (f place).Earns n) : (offset >>= f).Earns n :=
  fun c => hf c.offset c

lemma earns_fail (e : ClassError) : (fail e : Read α).Earns n := fun _ _ _ h => nomatch h

/-- A slice has as many bytes as were asked for, and these are gone. -/
lemma length_of_bytes {c after : Cursor} {slice : List UInt8}
    (h : bytes n c = .ok (slice, after)) :
    slice.length = n ∧ after.rest.length + n = c.rest.length := by
  rw [bytes] at h
  split at h
  · next hlength =>
    cases h
    refine ⟨hlength, ?_⟩
    rw [List.length_take] at hlength
    simp only [List.length_drop]
    omega
  · cases h

lemma earns_take (decode : List UInt8 → α)
    (takes : ∀ c, x c = (Read.bytes n c).map fun r => (decode r.1, r.2)) : x.Earns n := by
  intro c a c' h
  rw [takes] at h
  rcases hread : Read.bytes n c with e | ⟨slice, after⟩
  · rw [hread] at h
    cases h
  · rw [hread] at h
    cases h
    exact Nat.le_of_eq (length_of_bytes hread).2

lemma Steps.earns {notes : List Nat} (steps : x.Steps notes) : x.Earns 0 := by
  induction steps with
  | pure a =>
    rintro c _ _ ⟨⟩
    exact Nat.le_refl _
  | fail blames placed => exact earns_fail _
  | take n decode takes =>
    intro c a c' h
    exact Nat.le_trans (Nat.le_add_right _ n) (earns_take decode takes c a c' h)
  | note next ih => exact earns_note ih
  | bind first next ihfirst ihnext => exact ihfirst.bind ihnext
  | expectEnd what =>
    intro c a c' h
    unfold Read.expectEnd at h
    split at h <;> cases h
    exact Nat.le_refl _

/-- No read gives bytes back. -/
lemma Stepwise.earns (hx : x.Stepwise []) : x.Earns 0 := hx.elim Steps.earns

lemma earns_u8 : u8.Earns 1 := by
  rintro ⟨offset, _ | ⟨b, rest⟩⟩ a c' h <;> cases h
  exact Nat.le_refl _

lemma earns_u16 : u16.Earns 2 := by
  rintro ⟨offset, _ | ⟨b, _ | ⟨b', rest⟩⟩⟩ a c' h <;> cases h
  exact Nat.le_refl _

/-- Steps that may take no more bytes. -/
lemma Earns.then_steps (hx : x.Earns n) (hf : ∀ a, (f a).Stepwise []) : (x >>= f).Earns n :=
  hx.bind fun a => (hf a).earns

lemma Earns.map {g : α → β} (hx : x.Earns n) : (x >>= fun a => pure (g a)).Earns n :=
  hx.then_steps fun a => stepwise_pure (g a)

lemma earns_readUtf8 (p : Pool) : p.readUtf8.Earns 2 :=
  earns_u16.then_steps fun i => stepwise_ofExcept (failsByIndex_utf8 p i)

/-- The start of a value is its tag and an index or a number. -/
lemma earns_readValueHead (p : Pool) (name : Option String) : (p.readValueHead name).Earns 3 := by
  refine earns_note fun start => earns_u8.bind (n := 2) fun tag => ?_
  split
  · exact (earns_readUtf8 p).then_steps fun _ => (stepwise_readUtf8 p).map
  · exact (earns_readUtf8 p).map
  · exact (earns_readUtf8 p).map
  · exact earns_u16.map
  · split
    · next look hlook =>
      refine earns_u16.then_steps fun i => ?_
      exact (stepwise_ofExcept (failsByIndex_scalar p i hlook)).map
    · exact earns_fail _

lemma earns_readInnerClass (p : Pool) : p.readInnerClass.Earns 2 := by
  refine Earns.then_steps (earns_u16.then_steps fun i => ?_) fun inner => ?_
  · exact stepwise_ofExcept (failsByIndex_className p i)
  · refine (stepwise_readClassName? p).bind fun outer => ?_
    exact (stepwise_readUtf8? p).bind fun simpleName => stepwise_u16.map

end Read

/-! ## Scans -/

/-- The cost of a state grows by one at most with every event, whether it is refused or not. -/
def Visitor.Costs {σ : Type} (v : Visitor σ) (cost : σ → Nat) : Prop :=
  ∀ e s, cost (v.visit e s).2 ≤ cost s + 1

/-- With `saved` units and one for each byte, the scan pays for its events.  It leaves `left` units
and one for each byte that is left, unless it fails. -/
def Scan.Pays {σ α : Type} (cost : σ → Nat) (saved : Nat) (x : Scan σ α) (left : Nat) : Prop :=
  ∀ c s, match x c s with
    | (.ok (_, c'), s') => cost s' + c'.rest.length + left ≤ cost s + c.rest.length + saved
    | (.error _, s') => cost s' ≤ cost s + c.rest.length + saved

namespace Scan

section Combinators

variable {σ α β : Type} {cost : σ → Nat} {k l m n : Nat} {x : Scan σ α} {f : α → Scan σ β}

lemma pays_read {x : Read α} (hx : x.Earns n) : Pays cost k (read x) (k + n) := by
  intro c s
  simp only [read]
  rcases h : x c with e | ⟨a, c'⟩
  · simp only
    omega
  · have := hx c a c' h
    simp only
    omega

lemma pays_emit {v : Visitor σ} (hv : v.Costs cost) (e : ClassEvent) :
    Pays cost (k + 1) (emit v e) k := by
  intro c s
  have hcost := hv e s
  simp only [emit]
  rcases hvisit : v.visit e s with ⟨x | ⟨⟩, s'⟩
  · rw [hvisit] at hcost
    simp only at hcost ⊢
    omega
  · rw [hvisit] at hcost
    simp only at hcost ⊢
    omega

lemma Pays.bind (hx : Pays cost k x l) (hf : ∀ a, Pays cost l (f a) m) :
    Pays cost k (x >>= f) m := by
  intro c s
  have hfirst := hx c s
  rw [bind_apply]
  rcases hrun : x c s with ⟨e | ⟨a, c₁⟩, s₁⟩
  · rw [hrun] at hfirst
    exact hfirst
  · rw [hrun] at hfirst
    have hnext := hf a c₁ s₁
    simp only at hfirst ⊢
    rcases hlast : f a c₁ s₁ with ⟨e | ⟨b, c₂⟩, s₂⟩
    · rw [hlast] at hnext
      simp only at hnext ⊢
      omega
    · rw [hlast] at hnext
      simp only at hnext ⊢
      omega

/-- Units need not be kept. -/
lemma Pays.le (hx : Pays cost k x l) (h : m ≤ l) : Pays cost k x m := by
  intro c s
  have hrun := hx c s
  rcases hout : x c s with ⟨e | r, s'⟩
  · rwa [hout] at hrun
  · rw [hout] at hrun
    simp only at hrun ⊢
    omega

lemma pays_pure (a : α) : Pays cost k (pure a) k := fun _ _ => Nat.le_refl _

lemma Pays.after_read {x : Read α} (hx : x.Earns n) (hf : ∀ a, Pays cost (k + n) (f a) m) :
    Pays cost k (read x >>= f) m :=
  (pays_read hx).bind hf

/-- A read whose bytes are not counted. -/
lemma pays_steps {x : Read α} (hx : x.Stepwise []) : Pays cost k (read x) k := pays_read hx.earns

lemma Pays.after_steps {x : Read α} (hx : x.Stepwise []) (hf : ∀ a, Pays cost k (f a) m) :
    Pays cost k (read x >>= f) m :=
  (pays_steps hx).bind hf

lemma pays_times {x : Scan σ Unit} (hx : Pays cost k x k) (n : Nat) :
    Pays cost k (times n x) k := by
  induction n with
  | zero => exact pays_pure ()
  | succ n ih => exact hx.bind fun _ => ih

/-- What a part that is scanned alone does not read is not needed. -/
lemma pays_within (hx : Pays cost k x l) (n : Nat) : Pays cost k (within n x) l := by
  intro c s
  simp only [within]
  rcases hread : Read.bytes n c with e | ⟨slice, after⟩
  · simp only
    omega
  · obtain ⟨hlength, hrest⟩ := Read.length_of_bytes hread
    have hslice := hx ⟨c.offset, slice⟩ s
    rcases hrun : x ⟨c.offset, slice⟩ s with ⟨e | r, s'⟩
    · simp only [hrun] at hslice ⊢
      omega
    · simp only [hrun] at hslice ⊢
      omega

end Combinators

section ClassFiles

variable {σ : Type} {v : Visitor σ} {cost : σ → Nat} (hv : v.Costs cost) (p : Pool) {k : Nat}

lemma pays_elements {value : Option String → Scan σ Unit}
    (hvalue : ∀ name, Pays cost k (value name) k) : Pays cost k (elements p value) k := by
  refine Pays.after_steps Read.stepwise_u16 fun count => pays_times ?_ _
  exact Pays.after_steps (Read.stepwise_readUtf8 p) fun name => hvalue (some name)

include hv

/-- A value pays for its events by itself; that of a compound has two. -/
lemma pays_elementValue (budget : Nat) (name : Option String) :
    Pays cost k (elementValue v p budget name) k := by
  induction budget generalizing name k with
  | zero =>
    exact pays_steps (Read.stepwise_note fun place => Read.stepwise_malformed nofun)
  | succ budget ih =>
    refine Pays.after_read (Read.earns_readValueHead p name) fun head => ?_
    cases head with
    | whole event => exact (pays_emit hv event).le (by omega)
    | array length =>
      refine (pays_emit hv _).bind fun _ => (pays_times (ih none) _).bind fun _ => ?_
      exact (pays_emit hv _).le (by omega)
    | annotated descriptor =>
      refine (pays_emit hv _).bind fun _ => (pays_elements p ih).bind fun _ => ?_
      exact (pays_emit hv _).le (by omega)

lemma pays_annotations (isVisible : Bool) : Pays cost k (annotations v p isVisible) k := by
  refine Pays.after_steps Read.stepwise_u16 fun count => pays_times ?_ _
  refine Pays.after_read (Read.earns_readUtf8 p) fun descriptor => ?_
  refine (pays_emit hv _).bind fun _ => ?_
  exact (pays_elements p (pays_elementValue hv p _)).bind fun _ => pays_emit hv _

/-- The two events of an annotation default are paid for in front of it. -/
lemma pays_attributeBody (a : Attribute) : Pays cost (k + 2) (attributeBody v p a) k := by
  cases a with
  | constantValue descriptor =>
    refine Pays.after_steps Read.stepwise_u16 fun index => ?_
    have hlook := failsByIndex_fieldConstant p index descriptor
    refine Pays.after_steps (Read.stepwise_ofExcept hlook) fun constant => ?_
    cases constant with
    | none => exact (pays_pure ()).le (by omega)
    | some value => exact (pays_emit hv _).le (by omega)
  | signature =>
    refine Pays.after_steps (Read.stepwise_readUtf8 p) fun text => ?_
    exact (pays_emit hv _).le (by omega)
  | exceptions =>
    refine Pays.after_steps Read.stepwise_u16 fun count => ?_
    refine Pays.after_steps (Read.stepwise_times _ (Read.stepwise_readClassName p)) fun names => ?_
    exact (pays_emit hv _).le (by omega)
  | annotationDefault =>
    refine (pays_emit hv _).bind fun _ => ?_
    exact (pays_elementValue hv p _ none).bind fun _ => pays_emit hv _
  | innerClasses =>
    refine Pays.after_steps Read.stepwise_u16 fun count => ?_
    refine (pays_times ?_ _).le (by omega)
    refine Pays.after_read (Read.earns_readInnerClass p) fun entry => ?_
    exact (pays_emit hv entry).le (by omega)
  | annotations isVisible => exact (pays_annotations hv p isVisible).le (by omega)

lemma pays_attributes (element : Element) : Pays cost k (attributes v p element) k := by
  refine Pays.after_steps Read.stepwise_u16 fun count => pays_times ?_ _
  refine Pays.after_read (Read.earns_readUtf8 p) fun name => ?_
  refine Pays.after_steps Read.stepwise_u32 fun length => pays_within ?_ _
  cases element.attribute? name with
  | none => exact (pays_pure ()).le (by omega)
  | some a =>
    refine (pays_attributeBody hv p a).bind fun _ => ?_
    exact pays_steps (Read.stepwise_expectEnd name)

lemma pays_member (start : Access → String → String → ClassEvent) (element : String → Element)
    (last : ClassEvent) : Pays cost k (member v p start element last) k := by
  refine Pays.after_read Read.earns_u16 fun access => ?_
  refine Pays.after_steps (Read.stepwise_readUtf8 p) fun name => ?_
  refine Pays.after_steps (Read.stepwise_readUtf8 p) fun descriptor => ?_
  refine (pays_emit hv _).bind fun _ => ?_
  exact (pays_attributes hv p _).bind fun _ => pays_emit hv _

lemma pays_classBody (version : ClassVersion) : Pays cost k (classBody v p version) k := by
  have hfield : Pays cost (k + 1) (field v p) (k + 1) :=
    pays_member hv p .fieldStart .ofField .fieldEnd
  have hmethod : Pays cost (k + 1) (method v p) (k + 1) :=
    pays_member hv p .methodStart (fun _ => .ofMethod) .methodEnd
  refine Pays.after_read Read.earns_u16 fun access => ?_
  refine Pays.after_steps (Read.stepwise_readClassName p) fun name => ?_
  refine Pays.after_steps (Read.stepwise_readClassName? p) fun superName => ?_
  refine Pays.after_steps Read.stepwise_u16 fun interfaceCount => ?_
  refine Pays.after_steps (Read.stepwise_times _ (Read.stepwise_readClassName p)) ?_
  refine fun interfaces => (pays_emit hv _).bind fun _ => ?_
  refine Pays.after_steps Read.stepwise_u16 fun fieldCount => ?_
  refine (pays_times hfield _).bind fun _ => ?_
  refine Pays.after_steps Read.stepwise_u16 fun methodCount => ?_
  refine (pays_times hmethod _).bind fun _ => ?_
  refine (pays_attributes hv p _).bind fun _ => ?_
  exact Pays.after_steps (Read.stepwise_expectEnd _) fun _ => pays_emit hv _

lemma pays_classFile : Pays cost k (classFile v) k := by
  refine Pays.after_steps Read.stepwise_classVersion fun version => ?_
  exact Pays.after_steps Read.stepwise_pool fun p => pays_classBody hv p version

end ClassFiles

end Scan

/-- Along a scan a cost that grows by one with every event grows by the number of bytes at most. -/
theorem scanClass_cost_le {σ : Type} {v : Visitor σ} {cost : σ → Nat} (hv : v.Costs cost)
    (bytes : List UInt8) (s : σ) : cost (scanClass v bytes s).2 ≤ cost s + bytes.length := by
  have h := Scan.pays_classFile (k := 0) hv (Cursor.start bytes) s
  simp only [scanClass]
  rcases hrun : Scan.classFile v (Cursor.start bytes) s with ⟨e | r, s'⟩
  · rw [hrun] at h
    exact h
  · rw [hrun] at h
    simp only [Cursor.start] at h ⊢
    omega

/-! ## Counting events -/

namespace Visitor

variable {σ : Type} (v : Visitor σ)

/-- Does what `v` does and counts the events that are handed over. -/
def counting : Visitor (σ × Nat) where
  visit e s := ((v.visit e s.1).1, ((v.visit e s.1).2, s.2 + 1))

lemma costs_counting : v.counting.Costs (·.2) := fun _ _ => Nat.le_refl _

lemma visitAll_counting (es : List ClassEvent) (s : σ × Nat) :
    (v.counting.visitAll es s).1 = (v.visitAll es s.1).1 ∧
      (v.counting.visitAll es s).2.1 = (v.visitAll es s.1).2 := by
  induction es generalizing s with
  | nil => exact ⟨rfl, rfl⟩
  | cons e es ih =>
    have hcount : v.counting.visit e s = ((v.visit e s.1).1, ((v.visit e s.1).2, s.2 + 1)) := rfl
    rcases hvisit : v.visit e s.1 with ⟨x | ⟨⟩, s'⟩
    · simp only [visitAll, hcount, hvisit, and_self]
    · simp only [visitAll, hcount, hvisit]
      exact ih (s', s.2 + 1)

/-- Counting changes nothing about a scan. -/
lemma scanClass_counting (bytes : List UInt8) (s : σ) (n : Nat) :
    (scanClass v.counting bytes (s, n)).1 = (scanClass v bytes s).1 ∧
      (scanClass v.counting bytes (s, n)).2.1 = (scanClass v bytes s).2 := by
  obtain ⟨hresult, hstate⟩ := v.visitAll_counting (classEvents bytes).2 (s, n)
  rw [scanClass_eq_visitAll, scanClass_eq_visitAll]
  rcases hcount : v.counting.visitAll (classEvents bytes).2 (s, n) with ⟨r, t, m⟩
  rcases hvisit : v.visitAll (classEvents bytes).2 s with ⟨r', t'⟩
  rw [hcount, hvisit] at hresult hstate
  obtain rfl : r = r' := hresult
  obtain rfl : t = t' := hstate
  rcases r with x | ⟨⟩ <;> exact ⟨rfl, rfl⟩

end Visitor

/-- The events of a file are no more than its bytes. -/
lemma length_classEvents_le (bytes : List UInt8) : (classEvents bytes).2.length ≤ bytes.length := by
  have hlog : Visitor.log.Costs List.length := fun _ _ => Nat.le_refl _
  have h := scanClass_cost_le hlog bytes []
  rw [List.length_nil, Nat.zero_add] at h
  rwa [classEvents, List.length_reverse]

end JavaScope
