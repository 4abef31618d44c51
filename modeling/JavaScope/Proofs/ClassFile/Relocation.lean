/-
# Moved bytes

What a scan does is settled by the bytes in front of it.  Where these bytes stand in the file
shows in the offsets of errors only (`Scan.movable_attributes`, `Scan.movable_member`).  Two scans
*agree* on their bytes if they come to the same from whatever offsets; a scan that agrees with
itself on all bytes is movable.  Agreement composes along the steps of scans.

A read that succeeds is settled by the bytes that it uses up alone, so what is read as a pool
somewhere is taken as that pool everywhere (`Read.takes_pool_of_read`).
-/
import JavaScope.Proofs.ClassFile.Decoding

namespace JavaScope

/-! ## Reads that succeed -/

/-- What `x` reads somewhere, `y` takes everywhere. -/
def Read.Settles {α : Type} (x y : Read α) : Prop :=
  ∀ offset bytes a c, x ⟨offset, bytes⟩ = .ok (a, c) →
    ∃ taken, bytes = taken ++ c.rest ∧ y.Takes taken a

namespace Read

variable {α β : Type} {x y : Read α} {f g : α → Read β}

lemma Settles.bind (hx : Settles x y) (hf : ∀ a, Settles (f a) (g a)) :
    Settles (x >>= f) (y >>= g) := by
  intro offset bytes b c h
  rw [bind_apply] at h
  rcases hrun : x ⟨offset, bytes⟩ with e | ⟨a, c₁⟩
  · rw [hrun] at h
    cases h
  · rw [hrun] at h
    obtain ⟨taken, rfl, htaken⟩ := hx offset bytes a c₁ hrun
    obtain ⟨rest, hrest, htakes⟩ := hf a c₁.offset c₁.rest b c h
    exact ⟨taken ++ rest, by rw [hrest, List.append_assoc], htaken.bind htakes⟩

lemma settles_pure (a : α) : Settles (pure a) (pure a) := by
  intro offset bytes b c h
  obtain ⟨rfl, rfl⟩ := Prod.mk.inj (Except.ok.inj h)
  exact ⟨[], rfl, takes_pure a⟩

lemma Settles.map (hx : Settles x y) (g : α → β) :
    Settles (x >>= fun a => pure (g a)) (y >>= fun a => pure (g a)) :=
  hx.bind fun a => settles_pure (g a)

lemma settles_fail (e : ClassError) (y : Read α) : Settles (fail e) y := by
  intro offset bytes a c h
  cases h

/-- A read that uses its offset for errors only. -/
lemma settles_offset_bind {f g : Nat → Read α} (h : ∀ m n, Settles (f m) (g n)) :
    Settles (Read.offset >>= f) (Read.offset >>= g) := by
  intro offset bytes a c hrun
  have hall (n : Nat) := h offset n offset bytes a c hrun
  obtain ⟨taken, hbytes, -⟩ := hall 0
  refine ⟨taken, hbytes, takes_offset_bind fun n => ?_⟩
  obtain ⟨taken', hbytes', htakes⟩ := hall n
  rwa [List.append_cancel_right (hbytes.symm.trans hbytes')]

lemma settles_bytes (n : Nat) : Settles (Read.bytes n) (Read.bytes n) := by
  intro offset bytes a c h
  by_cases hlength : (bytes.take n).length = n
  · simp only [Read.bytes, if_pos hlength] at h
    obtain ⟨rfl, rfl⟩ := Prod.mk.inj (Except.ok.inj h)
    exact ⟨bytes.take n, (List.take_append_drop n bytes).symm, takes_bytes hlength⟩
  · simp only [Read.bytes, if_neg hlength] at h
    cases h

lemma settles_u8 : Settles u8 u8 := by
  intro offset bytes a c h
  match bytes with
  | [] => cases h
  | b :: rest =>
    obtain ⟨rfl, rfl⟩ := Prod.mk.inj (Except.ok.inj h)
    exact ⟨[b], rfl, fun _ _ => rfl⟩

lemma settles_u16 : Settles u16 u16 := by
  intro offset bytes a c h
  match bytes with
  | [] | [_] => cases h
  | b₁ :: b₂ :: rest =>
    obtain ⟨rfl, rfl⟩ := Prod.mk.inj (Except.ok.inj h)
    exact ⟨[b₁, b₂], rfl, fun _ _ => rfl⟩

lemma settles_u32 : Settles u32 u32 := by
  intro offset bytes a c h
  match bytes with
  | [] | [_] | [_, _] | [_, _, _] => cases h
  | b₁ :: b₂ :: b₃ :: b₄ :: rest =>
    obtain ⟨rfl, rfl⟩ := Prod.mk.inj (Except.ok.inj h)
    exact ⟨[b₁, b₂, b₃, b₄], rfl, fun _ _ => rfl⟩

lemma settles_u64 : Settles u64 u64 := settles_u32.bind fun _ => settles_u32.map _

lemma settles_constant : Settles Constant.read Constant.read := by
  refine settles_offset_bind fun m n => settles_u8.bind fun tag => ?_
  unfold Constant.readBody
  split
  · refine settles_u16.bind fun length => (settles_bytes _).bind fun bytes => ?_
    split
    · exact settles_pure _
    · exact settles_fail _ _
  split
  · exact settles_u32.map _
  split
  · exact settles_u32.map _
  split
  · exact settles_u64.map _
  split
  · exact settles_u64.map _
  split
  · exact settles_u16.map _
  split
  · exact settles_u16.map _
  split
  · exact (settles_bytes _).map _
  · exact settles_fail _ _

lemma settles_readSlots (n : Nat) : Settles (Pool.readSlots n) (Pool.readSlots n) := by
  induction n using Nat.strongRecOn with
  | ind n ih =>
    cases n with
    | zero => exact settles_pure []
    | succ n =>
      rw [Pool.readSlots.eq_def]
      refine settles_offset_bind fun _ _ => settles_constant.bind fun k => ?_
      split
      · cases n with
        | zero => exact settles_fail _ _
        | succ m => exact (ih m (by omega)).map _
      · exact (ih n (by omega)).map _

/-- What is read as a pool, and as nothing more, is taken as that pool wherever it stands. -/
theorem takes_pool_of_read {bytes : List UInt8} {p : Pool} {offset offset' : Nat}
    (h : Pool.read ⟨offset, bytes⟩ = .ok (p, ⟨offset', []⟩)) : Pool.read.Takes bytes p := by
  have hpool : Settles Pool.read Pool.read := by
    refine settles_u16.bind fun count => ?_
    split
    · exact settles_offset_bind fun _ _ => settles_fail _ _
    · exact (settles_readSlots _).map _
  obtain ⟨taken, hbytes, htakes⟩ := hpool offset bytes p _ h
  rwa [hbytes, List.append_nil]

end Read

/-! ## Scans without offsets -/

/-- The error without the offset at which it was found. -/
def ClassError.withoutOffset : ClassError → ClassError
  | malformed _ defect => malformed 0 defect
  | e => e

namespace Scan

variable {σ α β : Type}

/-- What a scan comes to, without offsets: its result and the bytes that it leaves, or an error,
and the state of the visitor. -/
def outcome (r : Except ClassError (α × Cursor) × σ) : Except ClassError (α × List UInt8) × σ :=
  match r with
  | (.ok (a, c), s) => (.ok (a, c.rest), s)
  | (.error e, s) => (.error e.withoutOffset, s)

/-- From whatever offsets, the scans come to the same, each on its bytes. -/
def Agree (x : Scan σ α) (bytes : List UInt8) (y : Scan σ α) (bytes' : List UInt8) : Prop :=
  ∀ offset offset' s, outcome (x ⟨offset, bytes⟩ s) = outcome (y ⟨offset', bytes'⟩ s)

/-- It does not matter where in the file the bytes stand. -/
def Movable (x : Scan σ α) : Prop := ∀ bytes, Agree x bytes x bytes

/-! ## Steps -/

variable {x y : Scan σ α} {f g : α → Scan σ β} {bytes bytes' : List UInt8}

lemma outcome_eq_ok {r : Except ClassError (α × Cursor) × σ} {a : α} {s : σ}
    (h : outcome r = (.ok (a, bytes), s)) : ∃ offset, r = (.ok (a, ⟨offset, bytes⟩), s) := by
  obtain ⟨_ | ⟨b, offset, rest⟩, t⟩ := r
  · cases h
  · cases h
    exact ⟨offset, rfl⟩

lemma outcome_eq_error {r : Except ClassError (α × Cursor) × σ} {e : ClassError} {s : σ}
    (h : outcome r = (.error e, s)) : ∃ e', r = (.error e', s) ∧ e'.withoutOffset = e := by
  obtain ⟨e' | ⟨b, c⟩, t⟩ := r
  · cases h
    exact ⟨e', rfl, rfl⟩
  · cases h

lemma Agree.bind (hx : Agree x bytes y bytes') (hf : ∀ a rest, Agree (f a) rest (g a) rest) :
    Agree (x >>= f) bytes (y >>= g) bytes' := by
  intro offset offset' s
  have h := hx offset offset' s
  rw [bind_apply, bind_apply]
  rcases hy : outcome (y ⟨offset', bytes'⟩ s) with ⟨e | ⟨a, rest⟩, t⟩
  · obtain ⟨e₁, hrx, he₁⟩ := outcome_eq_error (h.trans hy)
    obtain ⟨e₂, hry, he₂⟩ := outcome_eq_error hy
    rw [hrx, hry]
    simp only [outcome, he₁, he₂]
  · obtain ⟨at₁, hrx⟩ := outcome_eq_ok (h.trans hy)
    obtain ⟨at₂, hry⟩ := outcome_eq_ok hy
    rw [hrx, hry]
    exact hf a rest at₁ at₂ t

lemma Movable.bind (hx : Movable x) (hf : ∀ a, Movable (f a)) : Movable (x >>= f) :=
  fun bytes => (hx bytes).bind fun a => hf a

lemma movable_pure (a : α) : Movable (pure a : Scan σ α) := fun _ _ _ _ => rfl

lemma movable_emit (v : Visitor σ) (e : ClassEvent) : Movable (emit v e) := by
  intro bytes offset offset' s
  simp only [emit]
  rcases v.visit e s with ⟨x | ⟨⟩, t⟩ <;> rfl

lemma movable_times {x : Scan σ Unit} (hx : Movable x) (n : Nat) : Movable (times n x) := by
  induction n with
  | zero => exact movable_pure ()
  | succ n ih => exact hx.bind fun _ => ih

lemma movable_within (n : Nat) (hx : Movable x) : Movable (within n x) := by
  intro bytes offset offset' s
  have h := hx (bytes.take n) offset offset' s
  by_cases hlength : (bytes.take n).length = n
  · simp only [within, Read.bytes, if_pos hlength]
    rcases hy : outcome (x ⟨offset', bytes.take n⟩ s) with ⟨e | ⟨a, rest⟩, t⟩
    · obtain ⟨e₁, hr₁, he₁⟩ := outcome_eq_error (h.trans hy)
      obtain ⟨e₂, hr₂, he₂⟩ := outcome_eq_error hy
      simp only [hr₁, hr₂, outcome, he₁, he₂]
    · obtain ⟨at₁, hr₁⟩ := outcome_eq_ok (h.trans hy)
      obtain ⟨at₂, hr₂⟩ := outcome_eq_ok hy
      simp only [hr₁, hr₂, outcome]
  · simp only [within, Read.bytes, if_neg hlength]
    rfl

/-! ## Reads -/

lemma read_bind (x : Read α) (f : α → Read β) :
    (read (x >>= f) : Scan σ β) = read x >>= fun a => read (f a) := by
  funext c s
  simp only [read, bind_apply, Read.bind_apply]
  cases x c <;> rfl

lemma Agree.read_bind {x y : Read α} {f g : α → Read β}
    (hx : Agree (read x : Scan σ α) bytes (read y) bytes')
    (hf : ∀ a rest, Agree (read (f a) : Scan σ β) rest (read (g a)) rest) :
    Agree (read (x >>= f) : Scan σ β) bytes (read (y >>= g)) bytes' := by
  rw [Scan.read_bind, Scan.read_bind]
  exact hx.bind hf

lemma Movable.read_bind {x : Read α} {f : α → Read β} (hx : Movable (read x : Scan σ α))
    (hf : ∀ a, Movable (read (f a) : Scan σ β)) : Movable (read (x >>= f) : Scan σ β) :=
  fun bytes => (hx bytes).read_bind fun a => hf a

lemma agree_fail {e e' : ClassError} (h : e.withoutOffset = e'.withoutOffset) :
    Agree (read (Read.fail e) : Scan σ α) bytes (read (Read.fail e')) bytes' := by
  intro offset offset' s
  simp only [outcome, read, Read.fail, h]

lemma movable_ofExcept (y : Except ClassError α) :
    Movable (read (Read.ofExcept y) : Scan σ α) := by
  cases y with
  | error e => exact fun _ => agree_fail rfl
  | ok a => exact movable_pure a

/-- A read that uses its offset for errors only. -/
lemma movable_offset_bind {f : Nat → Read α}
    (hf : ∀ m n rest, Agree (read (f m) : Scan σ α) rest (read (f n)) rest) :
    Movable (read (Read.offset >>= f) : Scan σ α) :=
  fun bytes offset offset' s => hf offset offset' bytes offset offset' s

lemma movable_u8 : Movable (read Read.u8 : Scan σ UInt8) := by
  rintro (_ | ⟨a, rest⟩) offset offset' s <;> rfl

lemma movable_u16 : Movable (read Read.u16 : Scan σ UInt16) := by
  rintro (_ | ⟨a, _ | ⟨b, rest⟩⟩) offset offset' s <;> rfl

lemma movable_u32 : Movable (read Read.u32 : Scan σ UInt32) := by
  rintro (_ | ⟨a, _ | ⟨b, _ | ⟨c, _ | ⟨d, rest⟩⟩⟩⟩) offset offset' s <;> rfl

lemma movable_readTimes {x : Read α} (hx : Movable (read x : Scan σ α)) (n : Nat) :
    Movable (read (Read.times n x) : Scan σ (List α)) := by
  induction n with
  | zero => exact movable_pure []
  | succ n ih => exact hx.read_bind fun a => ih.read_bind fun rest => movable_pure (a :: rest)

lemma movable_expectEnd (what : String) :
    Movable (read (Read.expectEnd what) : Scan σ Unit) := by
  rintro (_ | ⟨a, rest⟩) offset offset' s <;> rfl

/-! ### References and heads -/

variable (p : Pool)

lemma movable_readUtf8 : Movable (read p.readUtf8 : Scan σ String) :=
  movable_u16.read_bind fun i => movable_ofExcept (p.utf8 i)

lemma movable_readClassName : Movable (read p.readClassName : Scan σ String) :=
  movable_u16.read_bind fun i => movable_ofExcept (p.className i)

lemma movable_readOptional (look : UInt16 → Except ClassError String) :
    Movable (read (Pool.readOptional look) : Scan σ (Option String)) := by
  refine movable_u16.read_bind fun i => ?_
  split
  · exact movable_pure none
  · exact (movable_ofExcept _).read_bind fun text => movable_pure (some text)

lemma movable_readInnerClass : Movable (read p.readInnerClass : Scan σ ClassEvent) := by
  refine (movable_readClassName p).read_bind fun inner => ?_
  refine (movable_readOptional p.className).read_bind fun outer => ?_
  refine (movable_readOptional p.utf8).read_bind fun simpleName => ?_
  exact movable_u16.read_bind fun access => movable_pure _

lemma movable_readValueHead (name : Option String) :
    Movable (read (p.readValueHead name) : Scan σ ValueHead) := by
  refine movable_offset_bind fun m n rest => (movable_u8 rest).read_bind fun tag rest => ?_
  split
  · exact ((movable_readUtf8 p).read_bind fun descriptor =>
      (movable_readUtf8 p).read_bind fun constant => movable_pure _) rest
  · exact ((movable_readUtf8 p).read_bind fun descriptor => movable_pure _) rest
  · exact ((movable_readUtf8 p).read_bind fun descriptor => movable_pure _) rest
  · exact (movable_u16.read_bind fun length => movable_pure _) rest
  · split
    · exact (movable_u16.read_bind fun index =>
        (movable_ofExcept _).read_bind fun value => movable_pure _) rest
    · exact agree_fail rfl

/-! ## Class files -/

variable (v : Visitor σ)

lemma movable_elements {value : Option String → Scan σ Unit} (h : ∀ name, Movable (value name)) :
    Movable (elements p value) := by
  refine movable_u16.bind fun count => movable_times ?_ _
  exact (movable_readUtf8 p).bind fun name => h (some name)

lemma movable_elementValue (budget : Nat) (name : Option String) :
    Movable (elementValue v p budget name) := by
  induction budget generalizing name with
  | zero => exact movable_offset_bind fun m n rest => agree_fail rfl
  | succ budget ih =>
    refine (movable_readValueHead p name).bind fun head => ?_
    cases head with
    | whole event => exact movable_emit v event
    | array length =>
      refine (movable_emit v _).bind fun _ => ?_
      exact (movable_times (ih none) _).bind fun _ => movable_emit v _
    | annotated descriptor =>
      refine (movable_emit v _).bind fun _ => ?_
      exact (movable_elements p ih).bind fun _ => movable_emit v _

lemma movable_annotations (isVisible : Bool) : Movable (annotations v p isVisible) := by
  refine movable_u16.bind fun count => movable_times ?_ _
  refine (movable_readUtf8 p).bind fun descriptor => (movable_emit v _).bind fun _ => ?_
  exact (movable_elements p (movable_elementValue p v _)).bind fun _ => movable_emit v _

lemma movable_attributeBody (a : Attribute) : Movable (attributeBody v p a) := by
  cases a with
  | constantValue descriptor =>
    refine movable_u16.bind fun index => (movable_ofExcept _).bind fun constant => ?_
    cases constant with
    | none => exact movable_pure ()
    | some value => exact movable_emit v _
  | signature => exact (movable_readUtf8 p).bind fun text => movable_emit v _
  | exceptions =>
    refine movable_u16.bind fun count => ?_
    exact (movable_readTimes (movable_readClassName p) _).bind fun names => movable_emit v _
  | annotationDefault =>
    refine (movable_emit v _).bind fun _ => ?_
    exact (movable_elementValue p v _ none).bind fun _ => movable_emit v _
  | innerClasses =>
    refine movable_u16.bind fun count => movable_times ?_ _
    exact (movable_readInnerClass p).bind fun entry => movable_emit v entry
  | annotations isVisible => exact movable_annotations p v isVisible

/-- The contents of an attribute of this name: all of them if it is known, and else nothing. -/
def contents (element : Element) (name : String) : Scan σ Unit :=
  (element.attribute? name).elim (pure ()) fun a => do
    attributeBody v p a
    read (Read.expectEnd name)

lemma attributeEntry_eq (element : Element) :
    attributeEntry v p element = (do
      let name ← read p.readUtf8
      let length ← read Read.u32
      within length.toNat (contents p v element name)) := by
  unfold attributeEntry contents
  congr 1
  funext name
  cases element.attribute? name <;> rfl

lemma movable_contents (element : Element) (name : String) :
    Movable (contents p v element name) := by
  unfold contents
  cases element.attribute? name with
  | none => exact movable_pure ()
  | some a => exact (movable_attributeBody p v a).bind fun _ => movable_expectEnd name

lemma movable_attributeEntry (element : Element) : Movable (attributeEntry v p element) := by
  rw [attributeEntry_eq]
  refine (movable_readUtf8 p).bind fun name => movable_u32.bind fun length => ?_
  exact movable_within _ (movable_contents p v element name)

theorem movable_attributes (element : Element) : Movable (attributes v p element) :=
  movable_u16.bind fun _ => movable_times (movable_attributeEntry p v element) _

theorem movable_member (start : Access → String → String → ClassEvent)
    (element : String → Element) (last : ClassEvent) :
    Movable (member v p start element last) := by
  refine movable_u16.bind fun access => (movable_readUtf8 p).bind fun name => ?_
  refine (movable_readUtf8 p).bind fun descriptor => (movable_emit v _).bind fun _ => ?_
  exact (movable_attributes p v _).bind fun _ => movable_emit v last

end Scan

end JavaScope
