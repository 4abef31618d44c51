/-
# The indices of a constant pool

The entries of a constant pool take up its indices one behind the other from 1 on, those of eight
bytes two each (`PoolEntry.StartsAt`).  Looking an index up gives the entry that starts there if it
is of the sort asked for, and fails otherwise, whatever entries stand before it
(`PoolEntry.LooksUp`).  A pool that is read from any bytes has as many indices as these declare,
and in it every entry of eight bytes has its second index (`read_keepsIndices`).
-/
import JavaScope.Proofs.ClassFile.Safety
import JavaScope.Proofs.ClassFile.PoolLayout

namespace JavaScope

namespace PoolEntry

/-- The number of indices that an entry takes up. -/
def width : PoolEntry → Nat
  | long _ | double _ => 2
  | _ => 1

/-- The number of indices that some entries take up. -/
def span : List PoolEntry → Nat
  | [] => 0
  | e :: rest => e.width + span rest

/-- The number of indices of a pool with these entries, with the unused index 0. -/
def count (es : List PoolEntry) : Nat := 1 + span es

/-- The first index of the entry `e` is `i`, the next one after those of the entries before it. -/
def StartsAt (es : List PoolEntry) (i : UInt16) (e : PoolEntry) : Prop :=
  ∃ before after, es = before ++ e :: after ∧ i.toNat = count before

/-- No entry starts at the index: it is 0, the second one of an entry, or past the end. -/
def Unused (es : List PoolEntry) (i : UInt16) : Prop :=
  i = 0 ∨ (∃ j e, StartsAt es j e ∧ e.width = 2 ∧ i.toNat = j.toNat + 1) ∨ count es ≤ i.toNat

/-! ## Slots -/

lemma slots_eq_cons (e : PoolEntry) :
    e.slots = some e.constant :: List.replicate (e.width - 1) none := by
  cases e <;> rfl

lemma width_pos (e : PoolEntry) : 1 ≤ e.width ∧ e.width ≤ 2 := by
  cases e <;> simp [width]

lemma length_slots (e : PoolEntry) : e.slots.length = e.width := by
  have hwidth := e.width_pos
  rw [slots_eq_cons, List.length_cons, List.length_replicate]
  omega

lemma length_flatMap_slots (es : List PoolEntry) : (es.flatMap slots).length = span es := by
  induction es with
  | nil => rfl
  | cons e es ih => rw [List.flatMap_cons, List.length_append, length_slots, ih, span]

lemma span_append (es es' : List PoolEntry) : span (es ++ es') = span es + span es' := by
  rw [← length_flatMap_slots, List.flatMap_append, List.length_append, length_flatMap_slots,
    length_flatMap_slots]

lemma length_slots_pool (es : List PoolEntry) : (pool es).slots.length = count es := by
  rw [pool, List.length_cons, length_flatMap_slots, count, Nat.add_comm]

lemma at_iff_startsAt {es : List PoolEntry} {i : UInt16} {e : PoolEntry} :
    At es i e ↔ StartsAt es i e := by
  simp only [At, StartsAt, length_slots_pool]

/-- What is in a slot tells whether an entry starts there, or goes on, or the entries are at an
end. -/
lemma getElem?_flatMap_slots (es : List PoolEntry) (i : Nat) :
    match (es.flatMap slots)[i]? with
    | some (some k) => ∃ before e after,
        es = before ++ e :: after ∧ i = span before ∧ k = e.constant
    | some none => ∃ before e after,
        es = before ++ e :: after ∧ i = span before + 1 ∧ e.width = 2
    | none => span es ≤ i := by
  induction es generalizing i with
  | nil => exact Nat.zero_le i
  | cons e es ih =>
    rw [List.flatMap_cons]
    rcases Nat.lt_or_ge i e.width with hlt | hge
    · -- a slot of the first entry
      have hwidth := e.width_pos
      rw [List.getElem?_append_left (by rwa [length_slots]), slots_eq_cons]
      cases i with
      | zero => exact ⟨[], e, es, rfl, rfl, rfl⟩
      | succ i =>
        rw [List.getElem?_cons_succ, List.getElem?_replicate, if_pos (by omega)]
        obtain rfl : i = 0 := by omega
        exact ⟨[], e, es, rfl, rfl, by omega⟩
    · -- a slot of the others, which are moved by the width of the first
      obtain ⟨j, rfl⟩ := Nat.exists_eq_add_of_le hge
      have hrest := ih j
      rw [List.getElem?_append_right (by rw [length_slots]; omega), length_slots,
        Nat.add_sub_cancel_left]
      cases hslot : (es.flatMap slots)[j]? with
      | none =>
        rw [hslot] at hrest
        exact Nat.add_le_add_left hrest e.width
      | some slot =>
        rw [hslot] at hrest
        cases slot with
        | none =>
          obtain ⟨before, e', after, rfl, rfl, hwide⟩ := hrest
          exact ⟨e :: before, e', after, rfl, (Nat.add_assoc ..).symm, hwide⟩
        | some k =>
          obtain ⟨before, e', after, rfl, rfl, hk⟩ := hrest
          exact ⟨e :: before, e', after, rfl, rfl, hk⟩

/-- The look-up of a constant finds the entry that starts at an index, or tells that there is
none. -/
lemma constant_cases (es : List PoolEntry) (i : UInt16) :
    (∃ e, StartsAt es i e ∧ (pool es).constant i = .ok e.constant) ∨
      Unused es i ∧ (pool es).constant i = .error (Pool.badIndex i .usableEntry) := by
  rw [Pool.constant]
  cases hi : i.toNat with
  | zero => exact .inr ⟨.inl (UInt16.toNat_inj.mp hi), rfl⟩
  | succ n =>
    have hslot := getElem?_flatMap_slots es n
    rw [pool, List.getElem?_cons_succ]
    cases hfound : (es.flatMap slots)[n]? with
    | none =>
      rw [hfound] at hslot
      exact .inr ⟨.inr (.inr (by rw [count]; omega)), rfl⟩
    | some slot =>
      rw [hfound] at hslot
      cases slot with
      | some k =>
        obtain ⟨before, e, after, rfl, rfl, rfl⟩ := hslot
        exact .inl ⟨e, ⟨before, after, rfl, by rw [hi, count, Nat.add_comm]⟩, rfl⟩
      | none =>
        obtain ⟨before, e, after, rfl, rfl, hwide⟩ := hslot
        have hlt := i.toNat_lt
        have hfirst : (UInt16.ofNat (count before)).toNat = count before :=
          toNat_count (by rw [count]; omega)
        exact .inr ⟨.inr (.inl ⟨_, e, ⟨before, after, rfl, hfirst⟩, hwide,
          by rw [hi, hfirst, count, Nat.add_comm 1]⟩), rfl⟩

/-- At an unused index no entry starts, and there are no others of this sort. -/
lemma unused_iff {es : List PoolEntry} {i : UInt16} :
    Unused es i ↔ ∀ e, ¬StartsAt es i e := by
  constructor
  · rintro (rfl | ⟨j, e', hj, hwide, hi⟩ | hend) e he
    · obtain ⟨before, after, -, hzero⟩ := he
      rw [count] at hzero
      have hnat : (0 : UInt16).toNat = 0 := rfl
      omega
    · -- the slot behind the first one of an entry is empty
      have hsecond := slot_of_at (at_iff_startsAt.mpr hj) (k := 1) (by rw [length_slots]; omega)
      have hfirst := slot_of_at (at_iff_startsAt.mpr he) (k := 0)
        (by rw [length_slots]; exact e.width_pos.1)
      rw [← hi, slots_eq_cons, hwide] at hsecond
      rw [Nat.add_zero, hsecond, slots_eq_cons] at hfirst
      cases hfirst
    · obtain ⟨before, after, rfl, hi⟩ := he
      have hwidth := e.width_pos
      simp only [count, span_append, span] at hend hi
      omega
  · intro hnone
    rcases constant_cases es i with ⟨e, he, -⟩ | ⟨hunused, -⟩
    · exact absurd he (hnone e)
    · exact hunused

/-! ## Looking an index up -/

/-- A look-up gives what its key leads to, and if that is nothing of the sort it blames the bytes. -/
structure LooksUp {κ α : Type} (look : κ → Except ClassError α) (Leads : κ → α → Prop) : Prop where
  found : ∀ k a, Leads k a → look k = .ok a
  fails : ∀ k, (∀ a, ¬Leads k a) → ∃ offset defect, look k = .error (.malformed offset defect)

lemma looksUp_ok {α : Type} : LooksUp (Except.ok : α → Except ClassError α) Eq where
  found := fun _ _ h => congrArg Except.ok h
  fails := fun a hnone => absurd rfl (hnone a)

/-- A look-up that goes on from what entries of one sort hold. -/
lemma looksUp_next {α β : Type} {es : List PoolEntry} {look : UInt16 → Except ClassError β}
    {f : UInt16 → Constant → Except ClassError β} {entry : α → PoolEntry}
    {next : α → Except ClassError β} {Next : α → β → Prop}
    (hlook : ∀ i, look i = (pool es).constant i >>= f i)
    (hsort : ∀ i a, f i (entry a).constant = next a)
    (hother : ∀ i e, (∀ a, e ≠ entry a) →
      ∃ offset defect, f i e.constant = .error (.malformed offset defect))
    (hnext : LooksUp next Next) :
    LooksUp look fun i b => ∃ a, StartsAt es i (entry a) ∧ Next a b where
  found := by
    rintro i b ⟨a, ha, hb⟩
    rw [hlook, constant_of_at (at_iff_startsAt.mpr ha)]
    exact (hsort i a).trans (hnext.found a b hb)
  fails := by
    intro i hnone
    rw [hlook]
    rcases constant_cases es i with ⟨e, he, hconstant⟩ | ⟨-, hconstant⟩
    · simp only [hconstant, bind, Except.bind]
      by_cases hentry : ∃ a, e = entry a
      · obtain ⟨a, rfl⟩ := hentry
        rw [hsort]
        exact hnext.fails a fun b hb => hnone b ⟨a, he, hb⟩
      · exact hother i e fun a ha => hentry ⟨a, ha⟩
    · rw [hconstant]
      exact ⟨0, _, rfl⟩

/-- A look-up that gives what entries of one sort hold. -/
lemma looksUp_sort {α : Type} {es : List PoolEntry} {look : UInt16 → Except ClassError α}
    {f : UInt16 → Constant → Except ClassError α} {entry : α → PoolEntry}
    (hlook : ∀ i, look i = (pool es).constant i >>= f i)
    (hsort : ∀ i a, f i (entry a).constant = .ok a)
    (hother : ∀ i e, (∀ a, e ≠ entry a) →
      ∃ offset defect, f i e.constant = .error (.malformed offset defect)) :
    LooksUp look fun i a => StartsAt es i (entry a) := by
  simpa using looksUp_next hlook hsort hother looksUp_ok

/-- Every sort of look-up finds the entries of that sort by their first indices; those of classes
and strings go on to the text that the entry refers to. -/
structure Aligned (es : List PoolEntry) (p : Pool) : Prop where
  utf8 : LooksUp p.utf8 fun i s => StartsAt es i (.utf8 s)
  integer : LooksUp p.integer fun i n => StartsAt es i (.integer n)
  long : LooksUp p.long fun i n => StartsAt es i (.long n)
  float : LooksUp p.float fun i n => StartsAt es i (.float n)
  double : LooksUp p.double fun i n => StartsAt es i (.double n)
  className : LooksUp p.className fun i s =>
    ∃ j, StartsAt es i (.classEntry j) ∧ StartsAt es j (.utf8 s)
  string : LooksUp p.string fun i s =>
    ∃ j, StartsAt es i (.string j) ∧ StartsAt es j (.utf8 s)

lemma looksUp_utf8 (es : List PoolEntry) :
    LooksUp (pool es).utf8 fun i s => StartsAt es i (.utf8 s) := by
  refine looksUp_sort (fun _ => rfl) (fun _ _ => rfl) fun i e hother => ?_
  cases e with
  | utf8 s => exact absurd rfl (hother s)
  | _ => exact ⟨0, _, rfl⟩

lemma aligned_pool (es : List PoolEntry) : Aligned es (pool es) where
  utf8 := looksUp_utf8 es
  integer := looksUp_sort (fun _ => rfl) (fun _ _ => rfl) fun i e hother => by
    cases e with
    | integer n => exact absurd rfl (hother n)
    | _ => exact ⟨0, _, rfl⟩
  long := looksUp_sort (fun _ => rfl) (fun _ _ => rfl) fun i e hother => by
    cases e with
    | long n => exact absurd rfl (hother n)
    | _ => exact ⟨0, _, rfl⟩
  float := looksUp_sort (fun _ => rfl) (fun _ _ => rfl) fun i e hother => by
    cases e with
    | float n => exact absurd rfl (hother n)
    | _ => exact ⟨0, _, rfl⟩
  double := looksUp_sort (fun _ => rfl) (fun _ _ => rfl) fun i e hother => by
    cases e with
    | double n => exact absurd rfl (hother n)
    | _ => exact ⟨0, _, rfl⟩
  className := looksUp_next (fun _ => rfl) (fun _ _ => rfl) (fun i e hother => by
    cases e with
    | classEntry j => exact absurd rfl (hother j)
    | _ => exact ⟨0, _, rfl⟩) (looksUp_utf8 es)
  string := looksUp_next (fun _ => rfl) (fun _ _ => rfl) (fun i e hother => by
    cases e with
    | string j => exact absurd rfl (hother j)
    | _ => exact ⟨0, _, rfl⟩) (looksUp_utf8 es)

/-! ## Reading a pool -/

/-- A constant of eight bytes is refused where one index is left. -/
lemma readSlots_one {e : PoolEntry} (hwide : e.width = 2) (offset : Nat) (rest : List UInt8) :
    Pool.readSlots 1 ⟨offset, e.bytes ++ rest⟩ = .error (.malformed offset .wideInLastSlot) := by
  have hconstant : e.Fits ∧ e.constant.isWide = true := by
    cases e with
    | long n => exact ⟨trivial, rfl⟩
    | double n => exact ⟨trivial, rfl⟩
    | _ => cases hwide
  have hread := takes_constant e hconstant.1 offset rest
  rw [Pool.readSlots]
  simp only [Read.bind_apply, Read.offset, hread, hconstant.2, if_true]
  rfl

lemma read_wideInLastSlot {es : List PoolEntry} {e : PoolEntry} {n : UInt16}
    (hfits : ∀ e ∈ es, e.Fits) (hwide : e.width = 2) (hn : n.toNat = count es + 1) (offset : Nat)
    (rest : List UInt8) :
    Pool.read ⟨offset, be16 n ++ (es.flatMap PoolEntry.bytes ++ (e.bytes ++ rest))⟩ =
      .error (.malformed (offset + 2 + (es.flatMap PoolEntry.bytes).length) .wideInLastSlot) := by
  have hne : n ≠ 0 := by
    rintro rfl
    cases hn
  have hleft : n.toNat - 1 = (es.flatMap slots).length + 1 := by
    have hlength := length_slots_pool es
    rw [pool, List.length_cons] at hlength
    omega
  have hslots := readSlots_flatMap hfits 1 (offset + 2) (e.bytes ++ rest)
  rw [readSlots_one hwide] at hslots
  rw [Pool.read, Read.bind_apply, Read.takes_u16 n offset]
  simp only [if_neg hne, hleft, Read.bind_apply]
  rw [show offset + (be16 n).length = offset + 2 from rfl, hslots]
  rfl

/-- A pool that is read has the indices that its bytes declare. -/
lemma length_slots_of_read {offset : Nat} {bytes : List UInt8} {p : Pool} {c : Cursor}
    (h : Pool.read ⟨offset, bytes⟩ = .ok (p, c)) :
    ∃ n rest, bytes = be16 n ++ rest ∧ p.slots.length = n.toNat ∧ PairsWide p.slots := by
  rw [Pool.read, Read.bind_apply] at h
  match bytes with
  | [] => cases h
  | [_] => cases h
  | a :: b :: rest =>
    refine ⟨Read.word16 a b, rest, by rw [be16_word16]; rfl, ?_⟩
    simp only [Read.u16] at h
    split at h
    · cases h
    · next hne =>
      rw [Read.bind_apply] at h
      have hgives := Read.gives_readSlots ((Read.word16 a b).toNat - 1) ⟨offset + 2, rest⟩
      cases hslots : Pool.readSlots ((Read.word16 a b).toNat - 1) ⟨offset + 2, rest⟩ with
      | error e =>
        rw [hslots] at h
        cases h
      | ok r =>
        rw [hslots] at h hgives
        obtain ⟨hlength, hpairs⟩ := hgives
        obtain ⟨rfl, -⟩ := Prod.mk.inj (Except.ok.inj h)
        have hpos : (Read.word16 a b).toNat ≠ 0 := fun hzero => hne (UInt16.toNat_inj.mp hzero)
        exact ⟨by rw [List.length_cons, hlength]; omega, hpairs.cons_none⟩

/-- From the bytes of entries, with the number of their indices, and whatever stands behind them,
the pool is read in which every look-up finds the entries by their first indices; no entry starts
at index 0, at the second index of an entry or past the end, and at every other index there is one.
A pool that is read from any bytes has the number of indices that these declare, among them the
second ones of all constants of eight bytes.  Such a constant is refused at the last index. -/
theorem read_keepsIndices :
    (∀ es : List PoolEntry, (∀ e ∈ es, e.Fits) → count es ≤ 65535 →
      ∃ p, Pool.read.Takes (be16 (.ofNat (count es)) ++ es.flatMap PoolEntry.bytes) p ∧
        p.slots.length = count es ∧ Aligned es p ∧ ∀ i, Unused es i ↔ ∀ e, ¬StartsAt es i e) ∧
      (∀ offset bytes p c, Pool.read ⟨offset, bytes⟩ = .ok (p, c) →
        ∃ n rest, bytes = be16 n ++ rest ∧ p.slots.length = n.toNat ∧ PairsWide p.slots) ∧
      ∀ (es : List PoolEntry) (e : PoolEntry) (n : UInt16) (offset : Nat) (rest : List UInt8),
        (∀ e ∈ es, e.Fits) → e.width = 2 → n.toNat = count es + 1 →
          Pool.read ⟨offset, be16 n ++ (es.flatMap PoolEntry.bytes ++ (e.bytes ++ rest))⟩ =
            .error (.malformed (offset + 2 + (es.flatMap PoolEntry.bytes).length)
              .wideInLastSlot) := by
  refine ⟨fun es hfits hcount => ?_, fun offset bytes p c h => length_slots_of_read h,
    fun es e n offset rest hfits hwide hn => read_wideInLastSlot hfits hwide hn offset rest⟩
  have hlength := length_slots_pool es
  have htakes : Pool.read.Takes (be16 (.ofNat (count es)) ++ es.flatMap PoolEntry.bytes)
      (pool es) :=
    takes_pool ⟨hfits, by omega, by rw [hlength]⟩
  exact ⟨pool es, htakes, hlength, aligned_pool es, fun i => unused_iff⟩

/-- A long integer takes up the indices 1 and 2, so the text behind it has index 3 and the class of
that name index 4. -/
theorem read_keepsIndices_wideEntry :
    let es : List PoolEntry := [.long 42, .utf8 "a/B", .classEntry 3]
    (∀ e ∈ es, e.Fits) ∧ count es ≤ 65535 ∧
      ∃ p, Pool.read.Takes (be16 5 ++ es.flatMap PoolEntry.bytes) p ∧ p.long 1 = .ok 42 ∧
        (∃ offset defect, p.long 2 = .error (.malformed offset defect)) ∧
        p.utf8 3 = .ok "a/B" ∧ p.className 4 = .ok "a/B" := by
  intro es
  have hfits : ∀ e ∈ es, e.Fits := by
    intro e he
    simp only [es, List.mem_cons, List.not_mem_nil, or_false] at he
    rcases he with rfl | rfl | rfl
    · trivial
    · show (Text.ModifiedUtf8.encode "a/B".toList).length < 65536
      decide
    · trivial
  have hcount : count es ≤ 65535 := by decide
  obtain ⟨p, htakes, -, haligned, hunused⟩ := read_keepsIndices.1 es hfits hcount
  have hlong : StartsAt es 1 (.long 42) := ⟨[], _, rfl, rfl⟩
  have htext : StartsAt es 3 (.utf8 "a/B") := ⟨[.long 42], _, rfl, rfl⟩
  have hclass : StartsAt es 4 (.classEntry 3) := ⟨[.long 42, .utf8 "a/B"], _, rfl, rfl⟩
  have hsecond : Unused es 2 := .inr (.inl ⟨1, _, hlong, rfl, rfl⟩)
  exact ⟨hfits, hcount, p, htakes, haligned.long.found 1 42 hlong,
    haligned.long.fails 2 fun n => (hunused 2).mp hsecond _, haligned.utf8.found 3 _ htext,
    haligned.className.found 4 _ ⟨3, hclass, htext⟩⟩

end PoolEntry

end JavaScope
