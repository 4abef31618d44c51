/-
# The layout of constant pools

The entries of a constant pool as a class file stores them, in any order, and what it means
that an index refers to a text or to a class.  The reader gets from the bytes of a pool the
constants of its entries (`takes_pool`), and from an index what the index refers to.
-/
import JavaScope.Proofs.ClassFile.Framing
import JavaScope.Proofs.Text.ModifiedUtf8

namespace JavaScope

/-- An entry of a constant pool as a class file stores it. -/
inductive PoolEntry
  | utf8 (text : String)
  | integer (bits : UInt32)
  | float (bits : UInt32)
  | long (bits : UInt64)
  | double (bits : UInt64)
  | classEntry (name : UInt16)
  | string (text : UInt16)
  /-- A member, a method handle, a module or another constant that no stub shows. -/
  | other (tag : UInt8) (body : List UInt8)
deriving DecidableEq, Repr

namespace PoolEntry

/-- The tags of the constants that no stub shows, with the sizes of their bodies. -/
def otherSizes : List (UInt8 × Nat) :=
  [(9, 4), (10, 4), (11, 4), (12, 4), (15, 3), (16, 2), (17, 4), (18, 4), (19, 2), (20, 2)]

/-- The entry has a form in bytes. -/
def Fits : PoolEntry → Prop
  | utf8 s => (Text.ModifiedUtf8.encode s.toList).length < 65536
  | other tag body => (tag, body.length) ∈ otherSizes
  | _ => True

/-- The bytes of an entry: its tag and its body. -/
def bytes : PoolEntry → List UInt8
  | utf8 s =>
    1 :: (be16 (.ofNat (Text.ModifiedUtf8.encode s.toList).length)
      ++ Text.ModifiedUtf8.encode s.toList)
  | integer n => 3 :: be32 n
  | float n => 4 :: be32 n
  | long n => 5 :: be64 n
  | double n => 6 :: be64 n
  | classEntry i => 7 :: be16 i
  | string i => 8 :: be16 i
  | other tag body => tag :: body

/-- What the reader keeps of an entry. -/
def constant : PoolEntry → Constant
  | utf8 s => .utf8 s
  | integer n => .integer n
  | float n => .float n
  | long n => .long n
  | double n => .double n
  | classEntry i => .classEntry i
  | string i => .string i
  | other _ _ => .other

/-- The indices that an entry takes up: two for a constant of eight bytes. -/
def slots (e : PoolEntry) : List (Option Constant) :=
  match e with
  | long _ | double _ => [some e.constant, none]
  | _ => [some e.constant]

/-- The pool with these entries.  Index 0 is not used. -/
def pool (es : List PoolEntry) : Pool := ⟨none :: es.flatMap slots⟩

/-- The bytes of a pool: the number of its indices, and its entries. -/
def PoolLaid (es : List PoolEntry) (bytes : List UInt8) : Prop :=
  (∀ e ∈ es, e.Fits) ∧ (pool es).slots.length < 65536 ∧
    bytes = be16 (.ofNat (pool es).slots.length) ++ es.flatMap PoolEntry.bytes

/-! ## References -/

/-- The first index of the entry `e` is `i`. -/
def At (es : List PoolEntry) (i : UInt16) (e : PoolEntry) : Prop :=
  ∃ before after, es = before ++ e :: after ∧ i.toNat = (pool before).slots.length

/-- The bytes refer to a text. -/
def TextRef (es : List PoolEntry) (s : String) (bytes : List UInt8) : Prop :=
  ∃ i, At es i (.utf8 s) ∧ bytes = be16 i

/-- The bytes refer to a class by its internal name. -/
def ClassRef (es : List PoolEntry) (name : String) (bytes : List UInt8) : Prop :=
  ∃ i j, At es i (.classEntry j) ∧ At es j (.utf8 name) ∧ bytes = be16 i

/-- The bytes refer to something, or are the index 0, which stands for its absence. -/
def OptionalRef (Ref : String → List UInt8 → Prop) : Option String → List UInt8 → Prop
  | some s, bytes => Ref s bytes
  | none, bytes => bytes = be16 0

/-! ## Reading a pool -/

lemma slots_eq (e : PoolEntry) :
    e.slots = if e.constant.isWide then [some e.constant, none] else [some e.constant] := by
  cases e <;> rfl

lemma skippedWidth?_eq {tag : UInt8} {n : Nat} (h : (tag, n) ∈ otherSizes) :
    Constant.skippedWidth? tag = some n ∧
      (tag ≠ 1 ∧ tag ≠ 3 ∧ tag ≠ 4 ∧ tag ≠ 5 ∧ tag ≠ 6 ∧ tag ≠ 7 ∧ tag ≠ 8) := by
  simp only [otherSizes, List.mem_cons, Prod.mk.injEq, List.not_mem_nil, or_false] at h
  rcases h with ⟨rfl, rfl⟩ | ⟨rfl, rfl⟩ | ⟨rfl, rfl⟩ | ⟨rfl, rfl⟩ | ⟨rfl, rfl⟩ | ⟨rfl, rfl⟩ |
    ⟨rfl, rfl⟩ | ⟨rfl, rfl⟩ | ⟨rfl, rfl⟩ | ⟨rfl, rfl⟩ <;> decide

/-- The body of an entry, read behind its tag. -/
lemma takes_readBody (start : Nat) (e : PoolEntry) (h : e.Fits) :
    ∃ tag body, e.bytes = tag :: body ∧ (Constant.readBody start tag).Takes body e.constant := by
  cases e with
  | utf8 s =>
    refine ⟨1, _, rfl, ?_⟩
    have hbytes := Read.takes_bytes (toNat_count h).symm
    rw [Constant.readBody, if_pos rfl]
    refine (Read.takes_u16 _).bind ?_
    refine hbytes.bind_nil ?_
    rw [Text.ModifiedUtf8.decode?_encode]
    show Read.Takes (pure (Constant.utf8 (String.ofList s.toList))) [] _
    rw [String.ofList_toList]
    exact Read.takes_pure (Constant.utf8 s)
  | integer n => exact ⟨3, _, rfl, (Read.takes_u32 n).map Constant.integer⟩
  | float n => exact ⟨4, _, rfl, (Read.takes_u32 n).map Constant.float⟩
  | long n => exact ⟨5, _, rfl, (Read.takes_u64 n).map Constant.long⟩
  | double n => exact ⟨6, _, rfl, (Read.takes_u64 n).map Constant.double⟩
  | classEntry i => exact ⟨7, _, rfl, (Read.takes_u16 i).map Constant.classEntry⟩
  | string i => exact ⟨8, _, rfl, (Read.takes_u16 i).map Constant.string⟩
  | other tag body =>
    obtain ⟨hwidth, h1, h3, h4, h5, h6, h7, h8⟩ := skippedWidth?_eq h
    refine ⟨tag, body, rfl, ?_⟩
    rw [Constant.readBody, if_neg h1, if_neg h3, if_neg h4, if_neg h5, if_neg h6, if_neg h7,
      if_neg h8, hwidth]
    exact (Read.takes_bytes rfl).map fun _ => Constant.other

lemma takes_constant (e : PoolEntry) (h : e.Fits) : Constant.read.Takes e.bytes e.constant := by
  refine Read.takes_offset_bind fun start => ?_
  obtain ⟨tag, body, hbytes, hbody⟩ := takes_readBody start e h
  rw [hbytes]
  exact (Read.takes_u8 tag).bind hbody

/-- Behind the bytes of some entries, the slots that are left to read are read. -/
lemma readSlots_flatMap {es : List PoolEntry} (h : ∀ e ∈ es, e.Fits) (n offset : Nat)
    (rest : List UInt8) :
    Pool.readSlots ((es.flatMap slots).length + n) ⟨offset, es.flatMap PoolEntry.bytes ++ rest⟩ =
      (Pool.readSlots n ⟨offset + (es.flatMap PoolEntry.bytes).length, rest⟩).map fun r =>
        (es.flatMap slots ++ r.1, r.2) := by
  induction es generalizing offset with
  | nil =>
    rw [List.flatMap_nil, List.flatMap_nil, List.length_nil, Nat.zero_add]
    show Pool.readSlots n ⟨offset, rest⟩ = (Pool.readSlots n ⟨offset, rest⟩).map id
    cases Pool.readSlots n ⟨offset, rest⟩ <;> rfl
  | cons e es ih =>
    have hrest := ih (fun e' he' => h e' (by simp [he'])) (offset + e.bytes.length)
    have hread := takes_constant e (h e (by simp)) offset (es.flatMap PoolEntry.bytes ++ rest)
    have hoffset : offset + (e.bytes ++ es.flatMap PoolEntry.bytes).length
        = offset + e.bytes.length + (es.flatMap PoolEntry.bytes).length := by
      rw [List.length_append, Nat.add_assoc]
    rw [List.flatMap_cons, List.flatMap_cons, slots_eq, List.append_assoc, hoffset]
    by_cases hwide : e.constant.isWide = true
    · -- a wide constant takes up the next index, too
      have hcount : ([some e.constant, none] ++ es.flatMap slots).length + n
          = (es.flatMap slots).length + n + 1 + 1 := by
        simp only [List.length_append, List.length_cons, List.length_nil]
        omega
      rw [if_pos hwide, hcount, Pool.readSlots]
      simp only [Read.bind_apply, Read.offset, hread, hwide, if_true, hrest]
      cases Pool.readSlots n _ <;> rfl
    · have hcount : ([some e.constant] ++ es.flatMap slots).length + n
          = (es.flatMap slots).length + n + 1 := by
        simp only [List.length_append, List.length_cons, List.length_nil]
        omega
      rw [if_neg hwide, hcount, Pool.readSlots.eq_def]
      simp only [Read.bind_apply, Read.offset, hread, hwide, Bool.false_eq_true, if_false, hrest]
      cases Pool.readSlots n _ <;> rfl

lemma takes_readSlots {es : List PoolEntry} (h : ∀ e ∈ es, e.Fits) :
    (Pool.readSlots (es.flatMap slots).length).Takes (es.flatMap PoolEntry.bytes)
      (es.flatMap slots) := by
  intro offset rest
  have hslots := readSlots_flatMap h 0 offset rest
  rw [Nat.add_zero] at hslots
  rw [hslots]
  show Except.ok (es.flatMap slots ++ [], _) = _
  rw [List.append_nil]

/-- The reader gets from the bytes of a pool the constants of its entries. -/
lemma takes_pool {es : List PoolEntry} {bytes : List UInt8} (h : PoolLaid es bytes) :
    Pool.read.Takes bytes (pool es) := by
  obtain ⟨hfits, hcount, rfl⟩ := h
  refine (Read.takes_u16 _).bind ?_
  have hnat := toNat_count hcount
  have hne : UInt16.ofNat (pool es).slots.length ≠ 0 := by
    intro h0
    rw [h0] at hnat
    simp [pool] at hnat
  rw [if_neg hne, hnat]
  exact (takes_readSlots hfits).map fun slots => Pool.mk (none :: slots)

/-! ## Looking up an index -/

/-- From the first index of an entry on stand its slots. -/
lemma slot_of_at {es : List PoolEntry} {i : UInt16} {e : PoolEntry} (h : At es i e) {k : Nat}
    (hk : k < e.slots.length) : (pool es).slots[i.toNat + k]? = e.slots[k]? := by
  obtain ⟨before, after, rfl, hi⟩ := h
  have hsplit : (pool (before ++ e :: after)).slots
      = (pool before).slots ++ (e.slots ++ after.flatMap slots) := by
    simp [pool]
  rw [hi, hsplit, List.getElem?_append_right (Nat.le_add_right _ _), Nat.add_sub_cancel_left,
    List.getElem?_append_left hk]

lemma constant_of_at {es : List PoolEntry} {i : UInt16} {e : PoolEntry} (h : At es i e) :
    (pool es).constant i = .ok e.constant := by
  have hslots : 0 < e.slots.length ∧ e.slots[0]? = some (some e.constant) := by
    rw [slots_eq]
    split
    · exact ⟨Nat.zero_lt_succ _, rfl⟩
    · exact ⟨Nat.zero_lt_succ _, rfl⟩
  have hslot := slot_of_at h hslots.1
  rw [Nat.add_zero, hslots.2] at hslot
  rw [Pool.constant, hslot]

/-- No entry has the index 0. -/
lemma ne_zero_of_at {es : List PoolEntry} {i : UInt16} {e : PoolEntry} (h : At es i e) : i ≠ 0 := by
  obtain ⟨before, after, -, hi⟩ := h
  rintro rfl
  simp [pool] at hi

lemma utf8_of_at {es : List PoolEntry} {i : UInt16} {s : String} (h : At es i (.utf8 s)) :
    (pool es).utf8 i = .ok s := by
  rw [Pool.utf8, constant_of_at h]
  rfl

lemma className_of_at {es : List PoolEntry} {i j : UInt16} {s : String}
    (h : At es i (.classEntry j)) (h' : At es j (.utf8 s)) : (pool es).className i = .ok s := by
  rw [Pool.className, constant_of_at h]
  exact utf8_of_at h'

lemma string_of_at {es : List PoolEntry} {i j : UInt16} {s : String}
    (h : At es i (.string j)) (h' : At es j (.utf8 s)) : (pool es).string i = .ok s := by
  rw [Pool.string, constant_of_at h]
  exact utf8_of_at h'

/-! ## Reading a reference -/

lemma takes_readUtf8 {es : List PoolEntry} {s : String} {bytes : List UInt8}
    (h : TextRef es s bytes) : (pool es).readUtf8.Takes bytes s := by
  obtain ⟨i, hi, rfl⟩ := h
  exact (Read.takes_u16 i).bind_nil (Read.takes_ofExcept (utf8_of_at hi))

lemma takes_readClassName {es : List PoolEntry} {s : String} {bytes : List UInt8}
    (h : ClassRef es s bytes) : (pool es).readClassName.Takes bytes s := by
  obtain ⟨i, j, hi, hj, rfl⟩ := h
  exact (Read.takes_u16 i).bind_nil (Read.takes_ofExcept (className_of_at hi hj))

/-- An optional reference, given how its index is looked up. -/
lemma takes_readOptional {look : UInt16 → Except ClassError String}
    {Ref : String → List UInt8 → Prop}
    (hlook : ∀ s bytes, Ref s bytes → ∃ i, i ≠ 0 ∧ look i = .ok s ∧ bytes = be16 i)
    {s : Option String} {bytes : List UInt8} (h : OptionalRef Ref s bytes) :
    (Pool.readOptional look).Takes bytes s := by
  cases s with
  | none =>
    have hbytes : bytes = be16 0 := h
    subst hbytes
    exact (Read.takes_u16 0).bind_nil (Read.takes_pure none)
  | some s =>
    obtain ⟨i, hi, hok, rfl⟩ := hlook s bytes h
    refine (Read.takes_u16 i).bind_nil ?_
    rw [if_neg hi]
    exact Read.takes_ofExcept_bind hok (Read.takes_pure (some s))

lemma takes_readUtf8? {es : List PoolEntry} {s : Option String} {bytes : List UInt8}
    (h : OptionalRef (TextRef es) s bytes) : (pool es).readUtf8?.Takes bytes s := by
  refine takes_readOptional (fun s bytes href => ?_) h
  obtain ⟨i, hi, rfl⟩ := href
  exact ⟨i, ne_zero_of_at hi, utf8_of_at hi, rfl⟩

lemma takes_readClassName? {es : List PoolEntry} {s : Option String} {bytes : List UInt8}
    (h : OptionalRef (ClassRef es) s bytes) : (pool es).readClassName?.Takes bytes s := by
  refine takes_readOptional (fun s bytes href => ?_) h
  obtain ⟨i, j, hi, hj, rfl⟩ := href
  exact ⟨i, ne_zero_of_at hi, className_of_at hi hj, rfl⟩

end PoolEntry

end JavaScope
