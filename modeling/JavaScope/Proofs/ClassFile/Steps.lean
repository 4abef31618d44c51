/-
# Reads and scans step by step

Every read of a class file is put together from a few sorts of steps: it takes some next bytes and
decodes them, notes where the cursor is, asks whether all bytes were read, or fails.  What holds of
these steps and is kept by doing one read after another holds of all reads (`Read.Steps`), so facts
about what reads have in common are proved by induction on their steps and not for each of them.

An error that a read raises of its own is placed where the read noted the cursor before, or at the
start of the file; that bytes are missing is only said by the step that takes them.

A scan consists of reads and events, and of parts that are scanned alone (`Scan.Steps`).
-/
import JavaScope.Proofs.ClassFile.Framing

namespace JavaScope

/-! ## Errors -/

/-- The error is about the bytes of a class file. -/
def ClassError.AboutInput : ClassError → Prop
  | malformed _ _ | badMagic _ | unsupportedVersion _ | badDescriptor _ => True
  | _ => False

/-- If the error says where the file is malformed, then at its start or at one of these offsets;
and it does not say that bytes are missing. -/
def ClassError.PlacedAt (notes : List Nat) (e : ClassError) : Prop :=
  ∀ offset defect, e = .malformed offset defect →
    (offset = 0 ∨ offset ∈ notes) ∧ ∀ needed left, defect ≠ .endOfInput needed left

/-- If the look-up fails, then because of an index that does not lead to what it should. -/
def FailsByIndex {α : Type} (x : Except ClassError α) : Prop :=
  ∀ e, x = .error e → ∃ i expected, e = Pool.badIndex i expected

namespace FailsByIndex

variable {α β : Type} {x : Except ClassError α} {f : α → Except ClassError β}

lemma ok (a : α) : FailsByIndex (.ok a) := nofun

lemma badIndex (i : UInt16) (expected : PoolExpectation) :
    FailsByIndex (.error (Pool.badIndex i expected) : Except ClassError α) := by
  rintro _ ⟨⟩
  exact ⟨i, expected, rfl⟩

lemma bind (hx : FailsByIndex x) (hf : ∀ a, FailsByIndex (f a)) : FailsByIndex (x >>= f) := by
  cases x with
  | error e =>
    intro e' he
    cases he
    exact hx e rfl
  | ok a => exact hf a

/-- A last step that cannot fail. -/
lemma map {g : α → β} (hx : FailsByIndex x) : FailsByIndex (x >>= fun a => pure (g a)) :=
  hx.bind fun a => ok (g a)

end FailsByIndex

section Pool

variable (p : Pool) (i : UInt16)

lemma failsByIndex_constant : FailsByIndex (p.constant i) := by
  unfold Pool.constant
  split
  · exact .ok _
  · exact .badIndex _ _

lemma failsByIndex_utf8 : FailsByIndex (p.utf8 i) :=
  (failsByIndex_constant p i).bind fun k => by
    cases k <;> first | exact .ok _ | exact .badIndex _ _

lemma failsByIndex_className : FailsByIndex (p.className i) :=
  (failsByIndex_constant p i).bind fun k => by
    cases k <;> first | exact failsByIndex_utf8 p _ | exact .badIndex _ _

lemma failsByIndex_string : FailsByIndex (p.string i) :=
  (failsByIndex_constant p i).bind fun k => by
    cases k <;> first | exact failsByIndex_utf8 p _ | exact .badIndex _ _

lemma failsByIndex_integer : FailsByIndex (p.integer i) :=
  (failsByIndex_constant p i).bind fun k => by
    cases k <;> first | exact .ok _ | exact .badIndex _ _

lemma failsByIndex_long : FailsByIndex (p.long i) :=
  (failsByIndex_constant p i).bind fun k => by
    cases k <;> first | exact .ok _ | exact .badIndex _ _

lemma failsByIndex_float : FailsByIndex (p.float i) :=
  (failsByIndex_constant p i).bind fun k => by
    cases k <;> first | exact .ok _ | exact .badIndex _ _

lemma failsByIndex_double : FailsByIndex (p.double i) :=
  (failsByIndex_constant p i).bind fun k => by
    cases k <;> first | exact .ok _ | exact .badIndex _ _

lemma failsByIndex_scalar {tag : Char} {look : UInt16 → Except ClassError Scalar}
    (h : p.scalar? tag = some look) : FailsByIndex (look i) := by
  unfold Pool.scalar? at h
  split at h
  · cases h; exact (failsByIndex_integer p i).map
  · cases h; exact (failsByIndex_integer p i).map
  · cases h; exact (failsByIndex_integer p i).map
  · cases h; exact (failsByIndex_integer p i).map
  · cases h; exact (failsByIndex_integer p i).map
  · cases h; exact (failsByIndex_long p i).map
  · cases h; exact (failsByIndex_float p i).map
  · cases h; exact (failsByIndex_double p i).map
  · cases h; exact (failsByIndex_utf8 p i).map
  · cases h

lemma failsByIndex_fieldConstant (descriptor : String) :
    FailsByIndex (p.fieldConstant descriptor i) := by
  unfold Pool.fieldConstant
  split
  · next letter _ =>
    cases h : (Descriptor.primitive? letter).bind fun _ => p.scalar? letter with
    | none => exact .ok _
    | some look =>
      obtain ⟨_, _, hlook⟩ := Option.bind_eq_some_iff.mp h
      exact (failsByIndex_scalar p i hlook).map
  · split
    · exact (failsByIndex_string p i).map
    · exact .ok _

end Pool

/-! ## The steps of reads -/

/-- The steps of a read, where the cursor is known to have been at the offsets `notes`. -/
inductive Read.Steps : {α : Type} → List Nat → Read α → Type 1
  | pure {α : Type} {notes : List Nat} (a : α) : Steps notes (Pure.pure a : Read α)
  | fail {α : Type} {notes : List Nat} {e : ClassError} (blames : e.AboutInput)
    (placed : e.PlacedAt notes) : Steps notes (Read.fail e : Read α)
  /-- The next `n` bytes are taken and decoded. -/
  | take {α : Type} {notes : List Nat} {x : Read α} (n : Nat) (decode : List UInt8 → α)
    (takes : ∀ c, x c = (Read.bytes n c).map fun r => (decode r.1, r.2)) : Steps notes x
  /-- The offset of the cursor is noted for what follows. -/
  | note {α : Type} {notes : List Nat} {f : Nat → Read α}
    (next : ∀ place, Steps (place :: notes) (f place)) : Steps notes (Read.offset >>= f)
  | bind {α β : Type} {notes : List Nat} {x : Read α} {f : α → Read β} (first : Steps notes x)
    (next : ∀ a, Steps notes (f a)) : Steps notes (x >>= f)
  | expectEnd {notes : List Nat} (what : String) : Steps notes (Read.expectEnd what)

/-- The read consists of steps. -/
def Read.Stepwise {α : Type} (notes : List Nat) (x : Read α) : Prop := Nonempty (x.Steps notes)

namespace Read

variable {α β : Type} {x : Read α} {f : α → Read β} {notes : List Nat}

/-! ## Numbers -/

lemma stepwise_pure (a : α) : Stepwise notes (pure a) := ⟨.pure a⟩

lemma stepwise_fail {e : ClassError} (h : e.AboutInput) (h' : e.PlacedAt notes) :
    Stepwise notes (fail e : Read α) :=
  ⟨.fail h h'⟩

/-- An error about the last place that was noted. -/
lemma stepwise_malformed {place : Nat} {defect : Defect}
    (hdefect : ∀ needed left, defect ≠ .endOfInput needed left) :
    (fail (.malformed place defect) : Read α).Stepwise (place :: notes) := by
  refine stepwise_fail trivial ?_
  rintro _ _ ⟨⟩
  exact ⟨.inr List.mem_cons_self, hdefect⟩

lemma Stepwise.bind (hx : x.Stepwise notes) (hf : ∀ a, (f a).Stepwise notes) :
    (x >>= f).Stepwise notes :=
  hx.elim fun first => ⟨.bind first fun a => Classical.choice (hf a)⟩

/-- A last step that reads nothing. -/
lemma Stepwise.map {g : α → β} (hx : x.Stepwise notes) :
    (x >>= fun a => pure (g a)).Stepwise notes :=
  hx.bind fun a => stepwise_pure (g a)

lemma stepwise_note {f : Nat → Read α} (hf : ∀ place, (f place).Stepwise (place :: notes)) :
    (offset >>= f).Stepwise notes :=
  ⟨.note fun place => Classical.choice (hf place)⟩

lemma stepwise_ofExcept {y : Except ClassError α} (h : FailsByIndex y) :
    (ofExcept y).Stepwise notes := by
  cases hy : y with
  | error e =>
    obtain ⟨i, expected, rfl⟩ := h e hy
    refine stepwise_fail trivial ?_
    rintro _ _ ⟨⟩
    exact ⟨.inl rfl, nofun⟩
  | ok a => exact stepwise_pure a

lemma stepwise_bytes (n : Nat) : (bytes n).Stepwise notes := by
  refine ⟨.take n id fun c => ?_⟩
  cases bytes n c <;> rfl

lemma stepwise_u8 : u8.Stepwise notes := by
  refine ⟨.take 1 (·.headD 0) fun c => ?_⟩
  obtain ⟨offset, _ | ⟨a, rest⟩⟩ := c <;> rfl

/-- The number with these two bytes. -/
def number16 : List UInt8 → UInt16
  | [a, b] => word16 a b
  | _ => 0

lemma stepwise_u16 : u16.Stepwise notes := by
  refine ⟨.take 2 number16 fun c => ?_⟩
  obtain ⟨offset, _ | ⟨a, _ | ⟨b, rest⟩⟩⟩ := c <;> rfl

/-- The number with these four bytes. -/
def number32 : List UInt8 → UInt32
  | [a, b, d, e] => word32 (word16 a b) (word16 d e)
  | _ => 0

lemma be32_number32 {bytes : List UInt8} (h : bytes.length = 4) : be32 (number32 bytes) = bytes := by
  match bytes, h with
  | [a, b, d, e], _ => rw [number32, be32_word32, be16_word16, be16_word16]; rfl

lemma u32_eq (c : Cursor) : u32 c = (bytes 4 c).map fun r => (number32 r.1, r.2) := by
  obtain ⟨offset, bytes⟩ := c
  match bytes with
  | [] | [_] | [_, _] | [_, _, _] | _ :: _ :: _ :: _ :: _ => rfl

lemma stepwise_u32 : u32.Stepwise notes := ⟨.take 4 number32 u32_eq⟩

lemma stepwise_u64 : u64.Stepwise notes := stepwise_u32.bind fun _ => stepwise_u32.map

lemma stepwise_times (n : Nat) (hx : x.Stepwise notes) : (times n x).Stepwise notes := by
  induction n with
  | zero => exact stepwise_pure []
  | succ n ih => exact hx.bind fun _ => ih.map

lemma stepwise_expectEnd (what : String) : (expectEnd what).Stepwise notes := ⟨.expectEnd what⟩

/-! ## Constants and references -/

lemma stepwise_constant : Constant.read.Stepwise notes := by
  refine stepwise_note fun start => stepwise_u8.bind fun tag => ?_
  unfold Constant.readBody
  split
  · refine stepwise_u16.bind fun length => (stepwise_bytes _).bind fun bytes => ?_
    split
    · exact stepwise_pure _
    · exact stepwise_malformed nofun
  split
  · exact stepwise_u32.map
  split
  · exact stepwise_u32.map
  split
  · exact stepwise_u64.map
  split
  · exact stepwise_u64.map
  split
  · exact stepwise_u16.map
  split
  · exact stepwise_u16.map
  split
  · exact (stepwise_bytes _).map
  · exact stepwise_malformed nofun

lemma stepwise_readSlots (n : Nat) (notes : List Nat) : (Pool.readSlots n).Stepwise notes := by
  induction n using Nat.strongRecOn generalizing notes with
  | ind n ih =>
    cases n with
    | zero => exact stepwise_pure []
    | succ n =>
      rw [Pool.readSlots.eq_def]
      refine stepwise_note fun start => stepwise_constant.bind fun k => ?_
      split
      · cases n with
        | zero => exact stepwise_malformed (by simp)
        | succ m => exact (ih m (by omega) _).map
      · exact (ih n (by omega) _).map

lemma stepwise_pool : Pool.read.Stepwise notes := by
  refine stepwise_u16.bind fun count => ?_
  split
  · exact stepwise_note fun place => stepwise_malformed nofun
  · exact (stepwise_readSlots _ _).map

section References

variable (p : Pool)

lemma stepwise_readUtf8 : p.readUtf8.Stepwise notes :=
  stepwise_u16.bind fun i => stepwise_ofExcept (failsByIndex_utf8 p i)

lemma stepwise_readClassName : p.readClassName.Stepwise notes :=
  stepwise_u16.bind fun i => stepwise_ofExcept (failsByIndex_className p i)

lemma stepwise_readOptional {look : UInt16 → Except ClassError String}
    (h : ∀ i, FailsByIndex (look i)) : (Pool.readOptional look).Stepwise notes := by
  refine stepwise_u16.bind fun i => ?_
  split
  · exact stepwise_pure none
  · exact (stepwise_ofExcept (h i)).map

lemma stepwise_readUtf8? : p.readUtf8?.Stepwise notes := stepwise_readOptional (failsByIndex_utf8 p)

lemma stepwise_readClassName? : p.readClassName?.Stepwise notes :=
  stepwise_readOptional (failsByIndex_className p)

/-! ## Parts of a class -/

lemma stepwise_readValueHead (name : Option String) : (p.readValueHead name).Stepwise notes := by
  refine stepwise_note fun start => stepwise_u8.bind fun tag => ?_
  split
  · exact (stepwise_readUtf8 p).bind fun _ => (stepwise_readUtf8 p).map
  · exact (stepwise_readUtf8 p).map
  · exact (stepwise_readUtf8 p).map
  · exact stepwise_u16.map
  · split
    · next look hlook =>
      exact stepwise_u16.bind fun i => (stepwise_ofExcept (failsByIndex_scalar p i hlook)).map
    · exact stepwise_malformed nofun

lemma stepwise_readInnerClass : p.readInnerClass.Stepwise notes := by
  refine (stepwise_readClassName p).bind fun inner => ?_
  refine (stepwise_readClassName? p).bind fun outer => ?_
  exact (stepwise_readUtf8? p).bind fun simpleName => stepwise_u16.map

end References

lemma stepwise_classVersion : classVersion.Stepwise notes := by
  refine stepwise_u32.bind fun magic => ?_
  split
  · refine stepwise_u16.bind fun minor => stepwise_u16.bind fun major => ?_
    split
    · exact stepwise_fail trivial nofun
    · exact stepwise_pure _
  · exact stepwise_fail trivial nofun

end Read

/-! ## Scans -/

/-- The steps of a scan.  A part of a file is only scanned alone behind the number of its bytes. -/
inductive Scan.Steps {σ : Type} (v : Visitor σ) : {α : Type} → Scan σ α → Type 1
  | read {α : Type} {x : Read α} (steps : x.Steps []) : Steps v (Scan.read x)
  | emit (e : ClassEvent) : Steps v (Scan.emit v e)
  | bind {α β : Type} {x : Scan σ α} {f : α → Scan σ β} (first : Steps v x)
    (next : ∀ a, Steps v (f a)) : Steps v (x >>= f)
  | sized {α : Type} {body : Scan σ α} (steps : Steps v body) :
    Steps v (Scan.read Read.u32 >>= fun length => Scan.within length.toNat body)

/-- The scan consists of steps. -/
def Scan.Stepwise {σ α : Type} (v : Visitor σ) (x : Scan σ α) : Prop := Nonempty (x.Steps v)

namespace Scan

section Combinators

variable {σ α β : Type} {v : Visitor σ} {x : Scan σ α} {f : α → Scan σ β}

lemma stepwise_read {x : Read α} (hx : x.Stepwise []) : (read x).Stepwise v :=
  hx.elim fun steps => ⟨.read steps⟩

lemma stepwise_pure (a : α) : (pure a : Scan σ α).Stepwise v :=
  stepwise_read (Read.stepwise_pure a)

lemma stepwise_emit (e : ClassEvent) : (emit v e).Stepwise v := ⟨.emit e⟩

lemma Stepwise.bind (hx : x.Stepwise v) (hf : ∀ a, (f a).Stepwise v) : (x >>= f).Stepwise v :=
  hx.elim fun first => ⟨.bind first fun a => Classical.choice (hf a)⟩

lemma Stepwise.after_read {x : Read α} (hx : x.Stepwise []) (hf : ∀ a, (f a).Stepwise v) :
    (read x >>= f).Stepwise v :=
  (stepwise_read hx).bind hf

lemma Stepwise.sized (hx : x.Stepwise v) :
    (read Read.u32 >>= fun length => within length.toNat x).Stepwise v :=
  hx.elim fun steps => ⟨.sized steps⟩

lemma stepwise_times {x : Scan σ Unit} (hx : x.Stepwise v) (n : Nat) : (times n x).Stepwise v := by
  induction n with
  | zero => exact stepwise_pure ()
  | succ n ih => exact hx.bind fun _ => ih

end Combinators

variable {σ : Type} (v : Visitor σ) (p : Pool)

lemma stepwise_elements {value : Option String → Scan σ Unit}
    (hvalue : ∀ name, (value name).Stepwise v) : (elements p value).Stepwise v := by
  refine Stepwise.after_read Read.stepwise_u16 fun count => stepwise_times ?_ _
  exact Stepwise.after_read (Read.stepwise_readUtf8 p) fun name => hvalue (some name)

lemma stepwise_elementValue (budget : Nat) (name : Option String) :
    (elementValue v p budget name).Stepwise v := by
  induction budget generalizing name with
  | zero => exact stepwise_read (Read.stepwise_note fun place => Read.stepwise_malformed nofun)
  | succ budget ih =>
    refine Stepwise.after_read (Read.stepwise_readValueHead p name) fun head => ?_
    cases head with
    | whole event => exact stepwise_emit event
    | array length =>
      refine (stepwise_emit _).bind fun _ => ?_
      exact (stepwise_times (ih none) _).bind fun _ => stepwise_emit _
    | annotated descriptor =>
      refine (stepwise_emit _).bind fun _ => ?_
      exact (stepwise_elements v p ih).bind fun _ => stepwise_emit _

lemma stepwise_annotations (isVisible : Bool) : (annotations v p isVisible).Stepwise v := by
  refine Stepwise.after_read Read.stepwise_u16 fun count => stepwise_times ?_ _
  refine Stepwise.after_read (Read.stepwise_readUtf8 p) fun descriptor => ?_
  refine (stepwise_emit _).bind fun _ => ?_
  exact (stepwise_elements v p (stepwise_elementValue v p _)).bind fun _ => stepwise_emit _

lemma stepwise_attributeBody (a : Attribute) : (attributeBody v p a).Stepwise v := by
  cases a with
  | constantValue descriptor =>
    refine Stepwise.after_read Read.stepwise_u16 fun index => ?_
    have hlook := failsByIndex_fieldConstant p index descriptor
    refine Stepwise.after_read (Read.stepwise_ofExcept hlook) fun constant => ?_
    cases constant with
    | none => exact stepwise_pure ()
    | some value => exact stepwise_emit _
  | signature => exact Stepwise.after_read (Read.stepwise_readUtf8 p) fun text => stepwise_emit _
  | exceptions =>
    refine Stepwise.after_read Read.stepwise_u16 fun count => ?_
    refine Stepwise.after_read (Read.stepwise_times _ (Read.stepwise_readClassName p)) ?_
    exact fun names => stepwise_emit _
  | annotationDefault =>
    refine (stepwise_emit _).bind fun _ => ?_
    exact (stepwise_elementValue v p _ none).bind fun _ => stepwise_emit _
  | innerClasses =>
    refine Stepwise.after_read Read.stepwise_u16 fun count => stepwise_times ?_ _
    exact Stepwise.after_read (Read.stepwise_readInnerClass p) fun entry => stepwise_emit entry
  | annotations isVisible => exact stepwise_annotations v p isVisible

lemma stepwise_attributes (element : Element) : (attributes v p element).Stepwise v := by
  refine Stepwise.after_read Read.stepwise_u16 fun count => stepwise_times ?_ _
  refine Stepwise.after_read (Read.stepwise_readUtf8 p) fun name => Stepwise.sized ?_
  cases element.attribute? name with
  | none => exact stepwise_pure ()
  | some a =>
    refine (stepwise_attributeBody v p a).bind fun _ => ?_
    exact stepwise_read (Read.stepwise_expectEnd name)

lemma stepwise_member (start : Access → String → String → ClassEvent)
    (element : String → Element) (last : ClassEvent) :
    (member v p start element last).Stepwise v := by
  refine Stepwise.after_read Read.stepwise_u16 fun access => ?_
  refine Stepwise.after_read (Read.stepwise_readUtf8 p) fun name => ?_
  refine Stepwise.after_read (Read.stepwise_readUtf8 p) fun descriptor => ?_
  refine (stepwise_emit _).bind fun _ => ?_
  exact (stepwise_attributes v p _).bind fun _ => stepwise_emit _

lemma stepwise_field : (field v p).Stepwise v :=
  stepwise_member v p .fieldStart .ofField .fieldEnd

lemma stepwise_method : (method v p).Stepwise v :=
  stepwise_member v p .methodStart (fun _ => .ofMethod) .methodEnd

lemma stepwise_classBody (version : ClassVersion) : (classBody v p version).Stepwise v := by
  refine Stepwise.after_read Read.stepwise_u16 fun access => ?_
  refine Stepwise.after_read (Read.stepwise_readClassName p) fun name => ?_
  refine Stepwise.after_read (Read.stepwise_readClassName? p) fun superName => ?_
  refine Stepwise.after_read Read.stepwise_u16 fun interfaceCount => ?_
  refine Stepwise.after_read (Read.stepwise_times _ (Read.stepwise_readClassName p)) ?_
  refine fun interfaces => (stepwise_emit _).bind fun _ => ?_
  refine Stepwise.after_read Read.stepwise_u16 fun fieldCount => ?_
  refine (stepwise_times (stepwise_field v p) _).bind fun _ => ?_
  refine Stepwise.after_read Read.stepwise_u16 fun methodCount => ?_
  refine (stepwise_times (stepwise_method v p) _).bind fun _ => ?_
  refine (stepwise_attributes v p _).bind fun _ => ?_
  exact Stepwise.after_read (Read.stepwise_expectEnd _) fun _ => stepwise_emit _

lemma stepwise_classFile : (classFile v).Stepwise v := by
  refine Stepwise.after_read Read.stepwise_classVersion fun version => ?_
  exact Stepwise.after_read Read.stepwise_pool fun p => stepwise_classBody v p version

end Scan

end JavaScope
