/-
# Unknown attributes

An attribute that is not known for the element it stands on has no effect
(`scanClass_skipsUnknown`).  Whatever its contents are and wherever it is put into a table of
attributes, a class file with it and one without it have the same events, and both are accepted or
neither is.

Class files are laid out here as far as counts and lengths tell, up to a position in one of the
tables of attributes; their indices and the contents of their attributes may be wrong.  Scans of
what is laid out are *confined* to it: they come to the same whatever follows.
-/
import JavaScope.Proofs.ClassFile.Relocation

namespace JavaScope

namespace Scan

variable {σ α β ι : Type}

/-! ## Confined scans -/

/-- The scan comes to the same whatever stands behind the bytes, and leaves that. -/
def Confined (x : Scan σ α) (bytes : List UInt8) : Prop :=
  ∀ s, ∃ (r : Except ClassError α) (t : σ), ∀ offset rest,
    outcome (x ⟨offset, bytes ++ rest⟩ s) = (r.map (·, rest), t)

section Steps

variable {x : Scan σ α} {f g : α → Scan σ β} {bytes bytes' rest rest' : List UInt8}
  {v : Visitor σ}

lemma Confined.bind (hx : Confined x bytes) (hf : ∀ a, Confined (f a) bytes') :
    Confined (x >>= f) (bytes ++ bytes') := by
  intro s
  obtain ⟨r, t, hrun⟩ := hx s
  cases r with
  | error e =>
    refine ⟨.error e, t, fun offset rest => ?_⟩
    obtain ⟨e', hx, he⟩ := outcome_eq_error (hrun offset (bytes' ++ rest))
    rw [bind_apply, List.append_assoc, hx]
    simp only [outcome, he, Except.map]
  | ok a =>
    obtain ⟨r', t', hrun'⟩ := hf a t
    refine ⟨r', t', fun offset rest => ?_⟩
    obtain ⟨offset', hx⟩ := outcome_eq_ok (hrun offset (bytes' ++ rest))
    rw [bind_apply, List.append_assoc, hx]
    exact hrun' offset' rest

/-- Behind what is confined, only what follows can make a difference. -/
lemma Confined.agree_bind (hx : Confined x bytes) (hf : ∀ a, Agree (f a) rest (g a) rest') :
    Agree (x >>= f) (bytes ++ rest) (x >>= g) (bytes ++ rest') := by
  intro offset offset' s
  obtain ⟨r, t, hrun⟩ := hx s
  rw [bind_apply, bind_apply]
  cases r with
  | error e =>
    obtain ⟨e₁, hx₁, he₁⟩ := outcome_eq_error (hrun offset rest)
    obtain ⟨e₂, hx₂, he₂⟩ := outcome_eq_error (hrun offset' rest')
    rw [hx₁, hx₂]
    simp only [outcome, he₁, he₂]
  | ok a =>
    obtain ⟨at₁, hx₁⟩ := outcome_eq_ok (hrun offset rest)
    obtain ⟨at₂, hx₂⟩ := outcome_eq_ok (hrun offset' rest')
    rw [hx₁, hx₂]
    exact hf a at₁ at₂ t

lemma Confined.after_takes {x : Read α} {a : α} (hx : x.Takes bytes a)
    (hf : Confined (f a) bytes') : Confined (read x >>= f) (bytes ++ bytes') := by
  intro s
  obtain ⟨r, t, hrun⟩ := hf s
  refine ⟨r, t, fun offset rest => ?_⟩
  rw [bind_apply, List.append_assoc]
  simp only [read, hx offset (bytes' ++ rest)]
  exact hrun _ rest

lemma Agree.after_takes {x y : Read α} {a b : α} (hx : x.Takes bytes a) (hy : y.Takes bytes' b)
    (hf : Agree (f a) rest (g b) rest') :
    Agree (read x >>= f) (bytes ++ rest) (read y >>= g) (bytes' ++ rest') := by
  intro offset offset' s
  rw [bind_apply, bind_apply]
  simp only [read, hx offset rest, hy offset' rest']
  exact hf _ _ s

lemma confined_pure (a : α) : Confined (pure a : Scan σ α) [] := fun s => ⟨.ok a, s, fun _ _ => rfl⟩

lemma confined_emit (e : ClassEvent) : Confined (emit v e) [] := by
  intro s
  rcases hv : v.visit e s with ⟨x | ⟨⟩, t⟩
  · exact ⟨.error x.withoutOffset, t, fun offset rest => by simp only [emit, hv]; rfl⟩
  · exact ⟨.ok (), t, fun offset rest => by simp only [emit, hv]; rfl⟩

/-- An event in front of a scan. -/
lemma Confined.after_emit {x : Scan σ β} {e : ClassEvent} (hx : Confined x bytes) :
    Confined (emit v e >>= fun _ => x) bytes :=
  (confined_emit e).bind fun _ => hx

/-- An event behind a scan. -/
lemma Confined.then_emit {x : Scan σ Unit} {e : ClassEvent} (hx : Confined x bytes) :
    Confined (x >>= fun _ => emit v e) bytes := by
  have h := hx.bind (f := fun _ => emit v e) fun _ => confined_emit e
  rwa [List.append_nil] at h

lemma Agree.after_emit {e : ClassEvent} {f g : Unit → Scan σ β}
    (hf : Agree (f ()) rest (g ()) rest') :
    Agree (emit v e >>= f) rest (emit v e >>= g) rest' :=
  (confined_emit e).agree_bind fun _ => hf

/-- Scans of slices see nothing else. -/
lemma confined_within {n : Nat} (hx : Movable x) (h : bytes.length = n) :
    Confined (within n x) bytes := by
  intro s
  rcases hr : outcome (x ⟨0, bytes⟩ s) with ⟨e | ⟨a, left⟩, t⟩
  · refine ⟨.error e, t, fun offset rest => ?_⟩
    obtain ⟨e', hrun, rfl⟩ := outcome_eq_error ((hx bytes offset 0 s).trans hr)
    simp only [within, Read.takes_bytes h offset rest, hrun]
    rfl
  · refine ⟨.ok a, t, fun offset rest => ?_⟩
    obtain ⟨offset', hrun⟩ := outcome_eq_ok ((hx bytes offset 0 s).trans hr)
    simp only [within, Read.takes_bytes h offset rest, hrun]
    rfl

lemma confined_times {x : Scan σ Unit} {laid : ι → List UInt8} (hx : ∀ i, Confined x (laid i))
    (is : List ι) : Confined (times is.length x) (is.flatMap laid) := by
  induction is with
  | nil => exact confined_pure ()
  | cons i is ih => exact (hx i).bind fun _ => ih

end Steps

/-! ### References -/

lemma confined_fail (e : ClassError) (bytes : List UInt8) :
    Confined (read (Read.fail e) : Scan σ α) bytes :=
  fun s => ⟨.error e.withoutOffset, s, fun _ _ => rfl⟩

lemma confined_ofExcept (y : Except ClassError α) :
    Confined (read (Read.ofExcept y) : Scan σ α) [] := by
  intro s
  cases y with
  | error e => exact confined_fail e [] s
  | ok a => exact confined_pure a s

lemma confined_reference (look : UInt16 → Except ClassError String) (i : UInt16) :
    Confined (read (Read.u16 >>= fun i => Read.ofExcept (look i)) : Scan σ String) (be16 i) := by
  rw [read_bind, ← List.append_nil (be16 i)]
  exact Confined.after_takes (Read.takes_u16 i) (confined_ofExcept _)

lemma confined_readOptional (look : UInt16 → Except ClassError String) (i : UInt16) :
    Confined (read (Pool.readOptional look) : Scan σ (Option String)) (be16 i) := by
  rw [Pool.readOptional, read_bind, ← List.append_nil (be16 i)]
  refine Confined.after_takes (Read.takes_u16 i) ?_
  split
  · exact confined_pure none
  · rw [read_bind]
    exact (confined_ofExcept _).bind fun text => confined_pure (some text)

lemma confined_readTimes {x : Read α} {laid : ι → List UInt8}
    (hx : ∀ i, Confined (read x : Scan σ α) (laid i)) (is : List ι) :
    Confined (read (Read.times is.length x) : Scan σ (List α)) (is.flatMap laid) := by
  induction is with
  | nil => exact confined_pure []
  | cons i is ih =>
    show Confined (read (x >>= fun a => Read.times is.length x >>= fun rest => pure (a :: rest))) _
    rw [read_bind, List.flatMap_cons]
    refine (hx i).bind fun a => ?_
    rw [read_bind, ← List.append_nil (is.flatMap laid)]
    exact ih.bind fun rest => confined_pure (a :: rest)

/-! ### Tables -/

/-- Counted items. -/
def table (x : Scan σ Unit) : Scan σ Unit := do
  let count ← read Read.u16
  times count.toNat x

lemma times_add (x : Scan σ Unit) (k n : Nat) :
    times (k + n) x = times k x >>= fun _ => times n x := by
  induction k with
  | zero => rw [Nat.zero_add]; rfl
  | succ k ih =>
    rw [Nat.add_right_comm]
    show (x >>= fun _ => times (k + n) x) = (x >>= fun _ => times k x) >>= fun _ => times n x
    rw [ih, bind_assoc]

lemma movable_table {x : Scan σ Unit} (hx : Movable x) : Movable (table x) :=
  movable_u16.bind fun _ => movable_times hx _

/-- An item that reports nothing makes no difference among the others. -/
lemma agree_table {v : Visitor σ} {x : Scan σ Unit} (hx : Movable x) {laid : ι → List UInt8}
    (hlaid : ∀ i, Confined x (laid i)) {silent : List UInt8} (hsilent : Reports v x silent [] ())
    (before : List ι) (later : Nat) (hcount : before.length + (later + 1) < 65536)
    (rest : List UInt8) :
    Agree (table x)
      (be16 (.ofNat (before.length + (later + 1))) ++ (before.flatMap laid ++ (silent ++ rest)))
      (table x) (be16 (.ofNat (before.length + later)) ++ (before.flatMap laid ++ rest)) := by
  refine Agree.after_takes (Read.takes_u16 _) (Read.takes_u16 _) ?_
  rw [toNat_count hcount, toNat_count (by omega), times_add x _ (later + 1), times_add x _ later]
  refine (confined_times hlaid before).agree_bind fun _ => ?_
  -- once the silent item is scanned, the rest stands at another offset only
  intro offset offset' s
  show outcome ((x >>= fun _ => times later x) ⟨offset, silent ++ rest⟩ s) = _
  rw [bind_apply, hsilent offset rest s]
  exact movable_times hx later rest _ offset' s

end Scan

/-! ## Raw class files -/

/-- A table with a count of two bytes. -/
structure RawTable (ι : Type) where
  items : List ι
  length_lt : items.length < 65536

/-- The number of the items and the items. -/
def RawTable.bytes {ι : Type} (laid : ι → List UInt8) (t : RawTable ι) : List UInt8 :=
  be16 (.ofNat t.items.length) ++ t.items.flatMap laid

/-- An attribute, by the index of its name, with any contents. -/
structure RawAttribute where
  name : UInt16
  body : List UInt8
  length_lt : body.length < 4294967296

/-- The index of the name, the number of bytes that follow, and these. -/
def RawAttribute.bytes (a : RawAttribute) : List UInt8 :=
  be16 a.name ++ (be32 (.ofNat a.body.length) ++ a.body)

/-- A field or a method. -/
structure RawMember where
  access : UInt16
  name : UInt16
  descriptor : UInt16
  attributes : RawTable RawAttribute

def RawMember.bytes (m : RawMember) : List UInt8 :=
  be16 m.access ++ (be16 m.name ++ (be16 m.descriptor ++ m.attributes.bytes RawAttribute.bytes))

/-- A table of fields or methods up to the attributes of one of them. -/
structure OpenMember where
  count : UInt16
  before : List RawMember
  before_lt : before.length < count.toNat
  access : UInt16
  name : UInt16
  descriptor : UInt16

/-- The number of all members, those before this one, and the head of this one. -/
def OpenMember.bytes (m : OpenMember) : List UInt8 :=
  be16 m.count ++ (m.before.flatMap RawMember.bytes ++
    (be16 m.access ++ (be16 m.name ++ be16 m.descriptor)))

/-- What stands before the members in a class file, with its pool. -/
structure RawHead where
  magic : UInt32
  minor : UInt16
  major : UInt16
  poolBytes : List UInt8
  pool : Pool
  reads_pool : ∃ offset, Pool.read (Cursor.start poolBytes) = .ok (pool, ⟨offset, []⟩)
  access : UInt16
  name : UInt16
  superName : UInt16
  interfaces : RawTable UInt16

def RawHead.bytes (h : RawHead) : List UInt8 :=
  be32 h.magic ++ (be16 h.minor ++ be16 h.major) ++ (h.poolBytes ++
    (be16 h.access ++ (be16 h.name ++ (be16 h.superName ++ h.interfaces.bytes be16))))

/-- What stands between the head of a class file and a table of attributes: that of the class, of
a field or of a method. -/
inductive AttributePlace
  | ofClass (fields methods : RawTable RawMember)
  | ofField (field : OpenMember)
  | ofMethod (fields : RawTable RawMember) (method : OpenMember)

namespace AttributePlace

def bytes : AttributePlace → List UInt8
  | ofClass fields methods => fields.bytes RawMember.bytes ++ methods.bytes RawMember.bytes
  | ofField field => field.bytes
  | ofMethod fields method => fields.bytes RawMember.bytes ++ method.bytes

/-- Attributes of this name are not known for the element that has the table. -/
def Ignores (name : String) : AttributePlace → Prop
  | ofClass .. => Element.ofClass.attribute? name = none
  | ofField _ => ∀ descriptor, (Element.ofField descriptor).attribute? name = none
  | ofMethod .. => Element.ofMethod.attribute? name = none

end AttributePlace

/-- A position in a table of attributes, behind some of them. -/
structure AttributePosition where
  head : RawHead
  place : AttributePlace
  before : List RawAttribute

/-- A class file that has the position.  By its count, the table goes on with `later` attributes;
in fact `rest` follows. -/
def AttributePosition.file (t : AttributePosition) (later : Nat) (rest : List UInt8) : List UInt8 :=
  t.head.bytes ++ (t.place.bytes ++
    (be16 (.ofNat (t.before.length + later)) ++ (t.before.flatMap RawAttribute.bytes ++ rest)))

namespace Scan

variable {σ : Type} (v : Visitor σ) (p : Pool)

lemma confined_table {ι : Type} {x : Scan σ Unit} {laid : ι → List UInt8}
    (hx : ∀ i, Confined x (laid i)) (t : RawTable ι) : Confined (table x) (t.bytes laid) := by
  refine Confined.after_takes (Read.takes_u16 _) ?_
  rw [toNat_count t.length_lt]
  exact confined_times hx t.items

lemma confined_attributeEntry (element : Element) (a : RawAttribute) :
    Confined (attributeEntry v p element) a.bytes := by
  rw [attributeEntry_eq]
  refine (confined_reference p.utf8 a.name).bind fun name => ?_
  refine Confined.after_takes (Read.takes_u32 _) (confined_within (movable_contents p v _ name) ?_)
  exact (UInt32.toNat_ofNat_of_lt' a.length_lt).symm

lemma reports_unknown {element : Element} {a : RawAttribute} {name : String}
    (hname : p.utf8 a.name = .ok name) (hunknown : element.attribute? name = none) :
    Reports v (attributeEntry v p element) a.bytes [] () := by
  have hreads : p.readUtf8.Takes (be16 a.name) name :=
    (Read.takes_u16 a.name).bind_nil (Read.takes_ofExcept hname)
  rw [attributeEntry_eq]
  refine Reports.after_read hreads (Reports.after_read (Read.takes_u32 _) ?_)
  rw [contents, hunknown]
  exact reports_skip (UInt32.toNat_ofNat_of_lt' a.length_lt).symm

/-! ### Members -/

section Members

variable (start : Access → String → String → ClassEvent) (element : String → Element)
  (last : ClassEvent)

lemma confined_member (m : RawMember) : Confined (member v p start element last) m.bytes := by
  refine Confined.after_takes (Read.takes_u16 m.access) ?_
  refine (confined_reference p.utf8 m.name).bind fun name => ?_
  refine (confined_reference p.utf8 m.descriptor).bind fun descriptor => ?_
  have hattributes : Confined (attributes v p (element descriptor)) _ :=
    confined_table (confined_attributeEntry v p _) m.attributes
  exact hattributes.then_emit.after_emit

variable {v p start element last} {rest rest' : List UInt8}

/-- Files that differ from the attributes of a member on. -/
lemma agree_member (m : OpenMember)
    (h : ∀ descriptor, Agree (attributes v p (element descriptor)) rest
      (attributes v p (element descriptor)) rest') :
    Agree (table (member v p start element last)) (m.bytes ++ rest)
      (table (member v p start element last)) (m.bytes ++ rest') := by
  obtain ⟨later, hlater⟩ : ∃ later, m.count.toNat = m.before.length + (later + 1) :=
    Nat.exists_eq_add_of_lt m.before_lt
  simp only [OpenMember.bytes, List.append_assoc]
  refine Agree.after_takes (Read.takes_u16 m.count) (Read.takes_u16 m.count) ?_
  rw [hlater, times_add]
  refine (confined_times (confined_member v p start element last) m.before).agree_bind fun _ => ?_
  have hmember : Agree (member v p start element last)
      (be16 m.access ++ (be16 m.name ++ (be16 m.descriptor ++ rest)))
      (member v p start element last)
      (be16 m.access ++ (be16 m.name ++ (be16 m.descriptor ++ rest'))) := by
    refine Agree.after_takes (Read.takes_u16 m.access) (Read.takes_u16 m.access) ?_
    refine (confined_reference p.utf8 m.name).agree_bind fun name => ?_
    refine (confined_reference p.utf8 m.descriptor).agree_bind fun descriptor => ?_
    exact Agree.after_emit ((h descriptor).bind fun _ => movable_emit v last)
  exact hmember.bind fun _ => movable_times (movable_member p v start element last) later

end Members

/-! ### Classes -/

lemma confined_classVersion (magic : UInt32) (minor major : UInt16) :
    Confined (read Read.classVersion : Scan σ ClassVersion)
      (be32 magic ++ (be16 minor ++ be16 major)) := by
  rw [Read.classVersion, read_bind]
  refine Confined.after_takes (Read.takes_u32 magic) ?_
  split
  · rw [read_bind]
    refine Confined.after_takes (Read.takes_u16 minor) ?_
    rw [read_bind, ← List.append_nil (be16 major)]
    refine Confined.after_takes (Read.takes_u16 major) ?_
    split
    · exact confined_fail _ []
    · exact confined_pure _
  · exact confined_fail _ _

/-- The tables of a class. -/
def tables : Scan σ Unit := do
  table (member v p .fieldStart .ofField .fieldEnd)
  table (member v p .methodStart (fun _ => .ofMethod) .methodEnd)
  attributes v p .ofClass

lemma classBody_eq (version : ClassVersion) :
    classBody v p version = (do
      let access ← read Read.u16
      let name ← read p.readClassName
      let superName ← read p.readClassName?
      let interfaceCount ← read Read.u16
      let interfaces ← read (Read.times interfaceCount.toNat p.readClassName)
      emit v (.classStart version access name superName interfaces)
      tables v p
      read (Read.expectEnd "class attributes")
      emit v .classEnd) := by
  simp only [tables, table, bind_assoc]
  rfl

variable {v p} {rest rest' : List UInt8}

/-- Files that differ behind the head. -/
lemma agree_classFile (h : RawHead)
    (htables : Agree (tables v h.pool) rest (tables v h.pool) rest') :
    Agree (classFile v) (h.bytes ++ rest) (classFile v) (h.bytes ++ rest') := by
  unfold RawHead.bytes RawTable.bytes
  simp only [List.append_assoc (be32 _ ++ _), List.append_assoc h.poolBytes,
    List.append_assoc (be16 _)]
  refine (confined_classVersion h.magic h.minor h.major).agree_bind fun version => ?_
  obtain ⟨_, hpool⟩ := h.reads_pool
  have htakes := Read.takes_pool_of_read hpool
  refine Agree.after_takes htakes htakes ?_
  rw [classBody_eq]
  refine Agree.after_takes (Read.takes_u16 h.access) (Read.takes_u16 h.access) ?_
  refine (confined_reference h.pool.className h.name).agree_bind fun name => ?_
  refine (confined_readOptional h.pool.className h.superName).agree_bind fun superName => ?_
  refine Agree.after_takes (Read.takes_u16 _) (Read.takes_u16 _) ?_
  rw [toNat_count h.interfaces.length_lt]
  have hinterfaces := confined_readTimes (confined_reference (σ := σ) h.pool.className)
    h.interfaces.items
  refine hinterfaces.agree_bind fun interfaces => Agree.after_emit (htables.bind fun _ => ?_)
  exact (movable_expectEnd _).bind fun _ => movable_emit v _

lemma agree_tables {a : RawAttribute} {name : String} (hname : p.utf8 a.name = .ok name)
    {place : AttributePlace} (hignored : place.Ignores name) (before : List RawAttribute)
    (later : Nat) (hcount : before.length + (later + 1) < 65536) (rest : List UInt8) :
    Agree (tables v p)
      (place.bytes ++ (be16 (.ofNat (before.length + (later + 1))) ++
        (before.flatMap RawAttribute.bytes ++ (a.bytes ++ rest))))
      (tables v p)
      (place.bytes ++ (be16 (.ofNat (before.length + later)) ++
        (before.flatMap RawAttribute.bytes ++ rest))) := by
  have hattributes (element : Element) (hunknown : element.attribute? name = none) :=
    agree_table (movable_attributeEntry p v element) (confined_attributeEntry v p element)
      (reports_unknown v p hname hunknown) before later hcount rest
  cases place with
  | ofClass fields methods =>
    simp only [AttributePlace.bytes, List.append_assoc]
    refine (confined_table (confined_member v p _ _ _) fields).agree_bind fun _ => ?_
    refine (confined_table (confined_member v p _ _ _) methods).agree_bind fun _ => ?_
    exact hattributes .ofClass hignored
  | ofField field =>
    refine (agree_member field fun descriptor => hattributes _ (hignored descriptor)).bind
      fun _ => ?_
    exact (movable_table (movable_member p v _ _ _)).bind fun _ => movable_attributes p v _
  | ofMethod fields method =>
    simp only [AttributePlace.bytes, List.append_assoc]
    refine (confined_table (confined_member v p _ _ _) fields).agree_bind fun _ => ?_
    refine (agree_member method fun _ => hattributes _ hignored).bind fun _ => ?_
    exact movable_attributes p v _

end Scan

/-! ## Class files -/

lemma scanClass_eq_outcome {σ : Type} (v : Visitor σ) (bytes : List UInt8) (s : σ) :
    (scanClass v bytes s).2 = (Scan.outcome (Scan.classFile v ⟨0, bytes⟩ s)).2 ∧
      (scanClass v bytes s).1.mapError ClassError.withoutOffset =
        (Scan.outcome (Scan.classFile v ⟨0, bytes⟩ s)).1.map fun _ => () := by
  simp only [scanClass, Cursor.start]
  rcases Scan.classFile v ⟨0, bytes⟩ s with ⟨e | ⟨_, c⟩, t⟩ <;> exact ⟨rfl, rfl⟩

lemma eq_ok_iff_of_mapError_eq {r r' : Except ClassError Unit}
    (h : r.mapError ClassError.withoutOffset = r'.mapError ClassError.withoutOffset) :
    r = .ok () ↔ r' = .ok () := by
  rcases r with e | ⟨⟩ <;> rcases r' with e' | ⟨⟩
  · exact iff_of_false nofun nofun
  · cases h
  · cases h
  · exact Iff.rfl

/-- An attribute whose name is not known for the element that it is put on has no effect, whatever
its contents are: with it, at any position of the table, and without it, a class file has the same
events, and every visitor ends in the same state and with the same result, up to the offset of an
error.  What follows in the file need not make sense. -/
theorem scanClass_skipsUnknown (t : AttributePosition) (a : RawAttribute) {name : String}
    (hname : t.head.pool.utf8 a.name = .ok name) (hignored : t.place.Ignores name) (later : Nat)
    (hcount : t.before.length + (later + 1) < 65536) (rest : List UInt8) :
    let longer := t.file (later + 1) (a.bytes ++ rest)
    let shorter := t.file later rest
    (classEvents longer).2 = (classEvents shorter).2 ∧
      ((classEvents longer).1 = .ok () ↔ (classEvents shorter).1 = .ok ()) ∧
      ∀ (σ : Type) (v : Visitor σ) (s : σ),
        (scanClass v longer s).2 = (scanClass v shorter s).2 ∧
          (scanClass v longer s).1.mapError ClassError.withoutOffset =
            (scanClass v shorter s).1.mapError ClassError.withoutOffset := by
  intro longer shorter
  have hscan (σ : Type) (v : Visitor σ) (s : σ) :
      (scanClass v longer s).2 = (scanClass v shorter s).2 ∧
        (scanClass v longer s).1.mapError ClassError.withoutOffset =
          (scanClass v shorter s).1.mapError ClassError.withoutOffset := by
    have hagree := Scan.agree_classFile t.head
      (Scan.agree_tables (v := v) hname hignored t.before later hcount rest) 0 0 s
    obtain ⟨hstate, hresult⟩ := scanClass_eq_outcome v longer s
    obtain ⟨hstate', hresult'⟩ := scanClass_eq_outcome v shorter s
    rw [hstate, hstate', hresult, hresult']
    exact ⟨congrArg Prod.snd hagree, congrArg (fun r => r.1.map fun _ => ()) hagree⟩
  obtain ⟨hevents, hresult⟩ := hscan _ Visitor.log []
  exact ⟨congrArg List.reverse hevents, eq_ok_iff_of_mapError_eq hresult, hscan⟩

/-- The first position in the attributes of the method `m` of a class `A`. -/
def methodPosition : AttributePosition where
  head :=
    { magic := 0xCAFEBABE, minor := 0, major := 52,
      poolBytes := [0, 6, 1, 0, 1, 65, 7, 0, 1, 1, 0, 1, 109, 1, 0, 3, 40, 41, 86,
        1, 0, 4, 67, 111, 100, 101],
      pool := ⟨[none, some (.utf8 "A"), some (.classEntry 1), some (.utf8 "m"),
        some (.utf8 "()V"), some (.utf8 "Code")]⟩,
      reads_pool := ⟨26, rfl⟩, access := 0x0021, name := 2, superName := 0,
      interfaces := ⟨[], by decide⟩ }
  place := .ofMethod ⟨[], by decide⟩
    { count := 1, before := [], before_lt := by decide, access := 1, name := 3, descriptor := 4 }
  before := []

/-- The code of a method is skipped. -/
theorem scanClass_skipsUnknown_code :
    let code : RawAttribute := ⟨5, [1, 2, 3], by decide⟩
    let longer := methodPosition.file 1 (code.bytes ++ be16 0)
    methodPosition.head.pool.utf8 code.name = .ok "Code" ∧ methodPosition.place.Ignores "Code" ∧
      (classEvents longer).1 = .ok () ∧
      (classEvents longer).2 =
        [.classStart ⟨52, 0⟩ 0x0021 "A" none [], .methodStart 1 "m" "()V", .methodEnd,
          .classEnd] := by
  intro code longer
  have hname : methodPosition.head.pool.utf8 code.name = .ok "Code" := rfl
  obtain ⟨hevents, hresult, -⟩ := scanClass_skipsUnknown methodPosition code hname rfl 0
    (by decide) (be16 0)
  exact ⟨hname, rfl, hresult.mpr rfl, hevents.trans rfl⟩

end JavaScope
