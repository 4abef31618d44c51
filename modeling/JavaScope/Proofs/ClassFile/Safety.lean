/-
# Safe reads and scans

Whatever the bytes are, a read that fails blames them, and so does a scan whose visitor does
nothing else.  A read *gives* what has a property if it fails with such an error or ends with
such a result; a scan *leads* from states to states if, from any of the first, it fails with
such an error or ends in one of the second.  Both notions compose along the steps of a read or
scan.
-/
import JavaScope.Proofs.ClassFile.Steps

namespace JavaScope

/-- The result has the property, or is an error about the input. -/
def Yields {α : Type} (x : Except ClassError α) (Q : α → Prop) : Prop :=
  match x with
  | .ok a => Q a
  | .error e => e.AboutInput

section Yields

variable {α β : Type} {x : Except ClassError α} {f : α → Except ClassError β} {P : α → Prop}
  {Q : β → Prop}

lemma Yields.bind (hx : Yields x P) (hf : ∀ a, P a → Yields (f a) Q) : Yields (x >>= f) Q := by
  cases x with
  | error e => exact hx
  | ok a => exact hf a hx

end Yields

/-! ## Descriptors and indices -/

lemma yields_field (text : String) : Yields (Descriptor.field text) fun _ => True := by
  unfold Descriptor.field
  split <;> trivial

lemma yields_method (text : String) : Yields (Descriptor.method text) fun _ => True := by
  unfold Descriptor.method
  split <;> trivial

lemma FailsByIndex.yields {α : Type} {x : Except ClassError α} (hx : FailsByIndex x) :
    Yields x fun _ => True := by
  cases x with
  | ok a => trivial
  | error e =>
    obtain ⟨i, expected, rfl⟩ := hx e rfl
    trivial

/-! ## Slots -/

/-- The slots have an unused one behind each that holds a constant of eight bytes. -/
def PairsWide (slots : List (Option Constant)) : Prop :=
  ∀ i k, slots[i]? = some (some k) → k.isWide = true → slots[i + 1]? = some none

lemma PairsWide.cons {slots : List (Option Constant)} {k : Constant} (h : PairsWide slots)
    (hk : k.isWide = false) : PairsWide (some k :: slots) := by
  intro i k' hslot hwide
  cases i with
  | zero =>
    obtain rfl : k = k' := by simpa using hslot
    rw [hk] at hwide
    cases hwide
  | succ i => exact h i k' hslot hwide

lemma PairsWide.cons_none {slots : List (Option Constant)} (h : PairsWide slots) :
    PairsWide (none :: slots) := by
  intro i k hslot hwide
  cases i with
  | zero => cases hslot
  | succ i => exact h i k hslot hwide

/-- A constant with the slot behind it. -/
lemma PairsWide.cons_pair {slots : List (Option Constant)} (k : Constant) (h : PairsWide slots) :
    PairsWide (some k :: none :: slots) := by
  intro i k' hslot hwide
  cases i with
  | zero => rfl
  | succ i => exact h.cons_none i k' hslot hwide

/-! ## Reads -/

/-- The read fails with an error about the input, or gives something with the property. -/
def Read.Gives {α : Type} (x : Read α) (Q : α → Prop) : Prop :=
  ∀ c, Yields (x c) fun r => Q r.1

namespace Read

variable {α β : Type} {x : Read α} {f : α → Read β} {P : α → Prop} {Q : β → Prop}

lemma gives_pure {a : α} (h : P a) : Gives (pure a) P := fun _ => h

lemma Gives.bind (hx : x.Gives P) (hf : ∀ a, P a → (f a).Gives Q) : (x >>= f).Gives Q := by
  intro c
  have h := hx c
  rw [bind_apply]
  cases hc : x c with
  | error e => rwa [hc] at h
  | ok r =>
    rw [hc] at h
    exact hf r.1 h r.2

/-- A last step that cannot fail. -/
lemma Gives.map {g : α → β} (hx : x.Gives P) (h : ∀ a, P a → Q (g a)) :
    (x >>= fun a => pure (g a)).Gives Q :=
  hx.bind fun a ha => gives_pure (h a ha)

lemma gives_fail {e : ClassError} (h : e.AboutInput) : (fail e : Read α).Gives P := fun _ => h

lemma gives_ofExcept {y : Except ClassError α} (h : Yields y P) : (ofExcept y).Gives P := by
  intro c
  cases y with
  | error e => exact h
  | ok a => exact h

lemma gives_offset : offset.Gives fun _ => True := fun _ => trivial

lemma gives_bytes (n : Nat) : (bytes n).Gives fun _ => True := by
  intro c
  simp only [bytes]
  split <;> trivial

lemma gives_take {n : Nat} {decode : List UInt8 → α}
    (takes : ∀ c, x c = (bytes n c).map fun r => (decode r.1, r.2)) : x.Gives fun _ => True := by
  intro c
  have h := gives_bytes n c
  rw [takes]
  cases hread : bytes n c with
  | error e => rwa [hread] at h
  | ok r => trivial

lemma gives_expectEnd (what : String) : (expectEnd what).Gives fun _ => True := by
  intro c
  unfold expectEnd
  split <;> trivial

lemma Steps.gives {notes : List Nat} (steps : x.Steps notes) : x.Gives fun _ => True := by
  induction steps with
  | pure a => exact gives_pure trivial
  | fail blames placed => exact gives_fail blames
  | take n decode takes => exact gives_take takes
  | note next ih => exact gives_offset.bind fun place _ => ih place
  | bind first next ihfirst ihnext => exact ihfirst.bind fun a _ => ihnext a
  | expectEnd what => exact gives_expectEnd what

/-- Every read gives something or blames the input. -/
lemma Stepwise.gives (hx : x.Stepwise []) : x.Gives fun _ => True := hx.elim Steps.gives

/-- Slots are read in the number asked for. -/
lemma gives_readSlots (n : Nat) :
    (Pool.readSlots n).Gives fun slots => slots.length = n ∧ PairsWide slots := by
  induction n using Nat.strongRecOn with
  | ind n ih =>
    cases n with
    | zero => exact gives_pure ⟨rfl, fun i k hslot => by simp at hslot⟩
    | succ n =>
      rw [Pool.readSlots.eq_def]
      refine gives_offset.bind fun start _ => stepwise_constant.gives.bind fun k _ => ?_
      split
      · cases n with
        | zero => exact gives_fail trivial
        | succ m =>
          exact (ih m (by omega)).map fun slots h => ⟨by simp [h.1], h.2.cons_pair k⟩
      · next hk =>
        exact (ih n (by omega)).map fun slots h => ⟨by simp [h.1], h.2.cons (by simpa using hk)⟩

/-- The whole start of a value is an event of the value's name. -/
lemma gives_readValueHead (p : Pool) (name : Option String) :
    (p.readValueHead name).Gives fun head => ∀ e, head = .whole e →
      (∃ s, e = .scalar name s) ∨ (∃ d k, e = .enumValue name d k) ∨
        ∃ d, e = .classValue name d := by
  refine gives_offset.bind fun start _ => stepwise_u8.gives.bind fun tag _ => ?_
  split
  · refine (stepwise_readUtf8 p).gives.bind fun d _ => (stepwise_readUtf8 p).gives.map fun k _ e he => ?_
    cases he
    exact .inr (.inl ⟨d, k, rfl⟩)
  · refine (stepwise_readUtf8 p).gives.map fun d _ e he => ?_
    cases he
    exact .inr (.inr ⟨d, rfl⟩)
  · exact (stepwise_readUtf8 p).gives.map fun d _ e he => nomatch he
  · exact stepwise_u16.gives.map fun n _ e he => nomatch he
  · split
    · next look hlook =>
      refine stepwise_u16.gives.bind fun i _ => ?_
      refine (gives_ofExcept (failsByIndex_scalar p i hlook).yields).map fun s _ e he => ?_
      cases he
      exact .inl ⟨s, rfl⟩
    · exact gives_fail trivial

/-- An entry of the table of inner classes is read as an event that says so. -/
lemma gives_readInnerClass (p : Pool) :
    p.readInnerClass.Gives fun e => ∃ inner outer simpleName access,
      e = .innerClass inner outer simpleName access := by
  refine (stepwise_readClassName p).gives.bind fun inner _ => ?_
  refine (stepwise_readClassName? p).gives.bind fun outer _ => ?_
  refine (stepwise_readUtf8? p).gives.bind fun simpleName _ => ?_
  exact stepwise_u16.gives.map fun access _ => ⟨inner, outer, simpleName, access, rfl⟩

end Read

/-! ## Attributes -/

/-- The sorts of attributes that are known for an element. -/
lemma attribute?_cases {element : Element} {name : String} {a : Attribute}
    (h : element.attribute? name = some a) :
    a = .signature ∨ (∃ isVisible, a = .annotations isVisible) ∨
      (∃ descriptor, element = .ofField descriptor ∧ a = .constantValue descriptor) ∨
      (element = .ofMethod ∧ (a = .exceptions ∨ a = .annotationDefault)) ∨
      (element = .ofClass ∧ a = .innerClasses) := by
  unfold Element.attribute? at h
  split at h <;> cases h <;> simp

/-! ## Scans -/

/-- From a state with the first property, the scan fails with an error about the input or ends
with a result and a state that have the second. -/
def Scan.Leads {σ α : Type} (P : σ → Prop) (x : Scan σ α) (Q : α → σ → Prop) : Prop :=
  ∀ c s, P s →
    match x c s with
    | (.ok (a, _), s) => Q a s
    | (.error e, _) => e.AboutInput

namespace Scan

variable {σ α β : Type} {x : Scan σ α} {f : α → Scan σ β} {P : σ → Prop} {Q : α → σ → Prop}
  {R : β → σ → Prop} {v : Visitor σ}

lemma leads_pure {a : α} (h : ∀ s, P s → Q a s) : Leads P (pure a) Q := fun _ s hs => h s hs

lemma Leads.bind (hx : Leads P x Q) (hf : ∀ a, Leads (Q a) (f a) R) : Leads P (x >>= f) R := by
  intro c s hs
  have h := hx c s hs
  rw [bind_apply]
  rcases hc : x c s with ⟨e | r, s'⟩
  · rwa [hc] at h
  · rw [hc] at h
    exact hf r.1 r.2 s' h

lemma Leads.pre {P' : σ → Prop} (hx : Leads P x Q) (h : ∀ s, P' s → P s) : Leads P' x Q :=
  fun c s hs => hx c s (h s hs)

lemma Leads.post {Q' : α → σ → Prop} (hx : Leads P x Q) (h : ∀ a s, Q a s → Q' a s) :
    Leads P x Q' := by
  intro c s hs
  have hrun := hx c s hs
  rcases hc : x c s with ⟨e | r, s'⟩
  · rwa [hc] at hrun
  · rw [hc] at hrun
    exact h _ _ hrun

/-- A state of one of several sorts is a state of some sort. -/
lemma leads_exists {ι : Type} {P : ι → σ → Prop} (hx : ∀ i, Leads (P i) x Q) :
    Leads (fun s => ∃ i, P i s) x Q :=
  fun c s ⟨i, hs⟩ => hx i c s hs

/-- What does not depend on the state stays. -/
lemma leads_and {T : Prop} (hx : T → Leads P x Q) :
    Leads (fun s => T ∧ P s) x fun a s => T ∧ Q a s :=
  fun c s ⟨ht, hs⟩ => ((hx ht).post fun _ _ hq => ⟨ht, hq⟩) c s hs

lemma leads_read {x : Read α} {T : α → Prop} (hx : x.Gives T) :
    Leads P (read x) fun a s => T a ∧ P s := by
  intro c s hs
  have h := hx c
  simp only [read]
  cases hc : x c with
  | error e => rwa [hc] at h
  | ok r =>
    rw [hc] at h
    exact ⟨h, hs⟩

lemma leads_emit {e : ClassEvent} {Q : σ → Prop}
    (h : ∀ s, P s → match v.visit e s with
      | (.ok (), s) => Q s
      | (.error x, _) => x.AboutInput) : Leads P (emit v e) fun _ s => Q s := by
  intro c s hs
  have hvisit := h s hs
  simp only [emit]
  rcases hv : v.visit e s with ⟨x | ⟨⟩, s'⟩
  · rwa [hv] at hvisit
  · rwa [hv] at hvisit

/-- What one round preserves, all rounds preserve. -/
lemma leads_times {x : Scan σ Unit} (hx : Leads P x fun _ s => P s) (n : Nat) :
    Leads P (times n x) fun _ s => P s := by
  induction n with
  | zero => exact leads_pure fun _ h => h
  | succ n ih => exact hx.bind fun _ => ih

/-- What the value of any element preserves, the elements of an annotation preserve. -/
lemma leads_elements {value : Option String → Scan σ Unit} (p : Pool)
    (hvalue : ∀ name, Leads P (value (some name)) fun _ s => P s) :
    Leads P (elements p value) fun _ s => P s := by
  refine (leads_read Read.stepwise_u16.gives).bind fun count => ?_
  refine (leads_times ?_ _).pre fun s hs => hs.2
  exact (leads_read (Read.stepwise_readUtf8 p).gives).bind fun name =>
    (hvalue name).pre fun s hs => hs.2

lemma leads_within {n : Nat} (hx : Leads P x Q) : Leads P (within n x) Q := by
  intro c s hs
  have hslice := Read.gives_bytes n c
  simp only [within]
  cases hb : Read.bytes n c with
  | error e => rwa [hb] at hslice
  | ok r =>
    have h := hx ⟨c.offset, r.1⟩ s hs
    simp only
    rcases hc : x ⟨c.offset, r.1⟩ s with ⟨e | a, s'⟩
    · rwa [hc] at h
    · rwa [hc] at h

end Scan

end JavaScope
