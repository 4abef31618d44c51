/-
# Framing

How numbers and lists are laid out in a class file, and what it means that a read or a scan
takes a given piece of bytes.

A read *takes* some bytes if it uses up exactly these, whatever stands behind them and
wherever in the file they are.  A scan *reports* events on some bytes if it takes them and
does to the state of its visitor what the events do one by one; it stops where the visitor
stops.  Both notions compose along the steps of a read or scan, so that the facts about a
whole class file are put together from those about its numbers.
-/
import Mathlib.Tactic.Lemma
import JavaScope.ClassFile.Scan

namespace JavaScope

/-! ## Numbers and lists -/

/-- A number in two bytes, the most significant first. -/
def be16 (n : UInt16) : List UInt8 := [(n >>> 8).toUInt8, n.toUInt8]

/-- A number in four bytes. -/
def be32 (n : UInt32) : List UInt8 := be16 (n >>> 16).toUInt16 ++ be16 n.toUInt16

/-- A number in eight bytes. -/
def be64 (n : UInt64) : List UInt8 := be32 (n >>> 32).toUInt32 ++ be32 n.toUInt32

/-- What is said of the items of a list, bytes or events, one behind the other. -/
inductive InTurn {α β : Type} (Says : α → List β → Prop) : List α → List β → Prop
  | nil : InTurn Says [] []
  | cons {a : α} {as : List α} {bs rest : List β} :
      Says a bs → InTurn Says as rest → InTurn Says (a :: as) (bs ++ rest)

lemma InTurn.eq_flatMap {α β : Type} {f : α → List β} {as : List α} {bs : List β}
    (h : InTurn (fun a bs => bs = f a) as bs) : bs = as.flatMap f := by
  induction h with
  | nil => rfl
  | cons ha _ ih => rw [List.flatMap_cons, ha, ih]

/-- The number of items of a list in two bytes, and then the items. -/
def Counted {α : Type} (Laid : α → List UInt8 → Prop) (as : List α) (bytes : List UInt8) : Prop :=
  as.length < 65536 ∧ ∃ rest, InTurn Laid as rest ∧ bytes = be16 (.ofNat as.length) ++ rest

lemma InTurn.with_mem {α β : Type} {Says : α → List β → Prop} {as : List α} {bs : List β}
    (h : InTurn Says as bs) : InTurn (fun a bs => Says a bs ∧ a ∈ as) as bs := by
  suffices hall : ∀ all, (∀ a ∈ as, a ∈ all) → InTurn (fun a bs => Says a bs ∧ a ∈ all) as bs from
    hall as fun a ha => ha
  intro all hall
  induction h with
  | nil => exact .nil
  | cons ha _ ih => exact .cons ⟨ha, hall _ (by simp)⟩ (ih fun b hb => hall b (by simp [hb]))

/-- In a counted list, what is laid out are items of the list. -/
lemma Counted.with_mem {α : Type} {Laid : α → List UInt8 → Prop} {as : List α}
    {bytes : List UInt8} (h : Counted Laid as bytes) :
    Counted (fun a bytes => Laid a bytes ∧ a ∈ as) as bytes := by
  obtain ⟨hlt, rest, hrest, rfl⟩ := h
  exact ⟨hlt, rest, hrest.with_mem, rfl⟩

/-- A count that fits two bytes is read back. -/
lemma toNat_count {n : Nat} (h : n < 65536) : (UInt16.ofNat n).toNat = n :=
  UInt16.toNat_ofNat_of_lt' h

/-- A word is made of its upper and its lower `k` bits. -/
lemma or_halves {w : Nat} (k : Nat) (h : w ≤ 2 * k) (n : BitVec w) :
    ((n >>> k).setWidth k).setWidth w <<< k ||| (n.setWidth k).setWidth w = n := by
  ext i hi
  simp only [BitVec.getElem_or, BitVec.getElem_shiftLeft, BitVec.getElem_setWidth,
    BitVec.getLsbD_setWidth, BitVec.getLsbD_ushiftRight]
  by_cases hk : i < k
  · simp [hk, BitVec.getLsbD_eq_getElem hi]
  · have hlow : i - k < k := by omega
    have hsum : k + (i - k) = i := by omega
    simp [hk, hlow, hsum, BitVec.getLsbD_eq_getElem hi]

lemma word16_be16 (n : UInt16) : Read.word16 (n >>> 8).toUInt8 n.toUInt8 = n :=
  UInt16.eq_of_toBitVec_eq (or_halves 8 (by omega) n.toBitVec)

/-- Two bytes are those of the number that they make. -/
lemma be16_word16 (a b : UInt8) : be16 (Read.word16 a b) = [a, b] := by
  have hhigh : (Read.word16 a b >>> 8).toUInt8 = a := by
    refine UInt8.eq_of_toBitVec_eq ?_
    ext i hi
    have hlt : 8 + i < 16 := by omega
    simp [Read.word16, hi, hlt]
  have hlow : (Read.word16 a b).toUInt8 = b := by
    refine UInt8.eq_of_toBitVec_eq ?_
    ext i hi
    simp [Read.word16]
  rw [be16, hhigh, hlow]

lemma word32_be32 (n : UInt32) : Read.word32 (n >>> 16).toUInt16 n.toUInt16 = n :=
  UInt32.eq_of_toBitVec_eq (or_halves 16 (by omega) n.toBitVec)

/-- Four bytes are those of the number that they make. -/
lemma be32_word32 (high low : UInt16) : be32 (Read.word32 high low) = be16 high ++ be16 low := by
  have hhigh : (Read.word32 high low >>> 16).toUInt16 = high := by
    refine UInt16.eq_of_toBitVec_eq ?_
    ext i hi
    have hlt : 16 + i < 32 := by omega
    simp [Read.word32, hi, hlt]
  have hlow : (Read.word32 high low).toUInt16 = low := by
    refine UInt16.eq_of_toBitVec_eq ?_
    ext i hi
    simp [Read.word32]
  rw [be32, hhigh, hlow]

lemma word64_be64 (n : UInt64) : Read.word64 (n >>> 32).toUInt32 n.toUInt32 = n :=
  UInt64.eq_of_toBitVec_eq (or_halves 32 (by omega) n.toBitVec)

/-! ## Reads -/

/-- The read uses up exactly these bytes and gives `a`. -/
def Read.Takes {α : Type} (x : Read α) (bytes : List UInt8) (a : α) : Prop :=
  ∀ offset rest, x ⟨offset, bytes ++ rest⟩ = .ok (a, ⟨offset + bytes.length, rest⟩)

namespace Read

variable {α β : Type} {x : Read α} {f : α → Read β} {bytes rest : List UInt8} {a : α} {b : β}

lemma bind_apply (x : Read α) (f : α → Read β) (c : Cursor) :
    (x >>= f) c =
      match x c with
      | .ok (a, c) => f a c
      | .error e => .error e := rfl

lemma exists_of_bind_eq_ok {c c₂ : Cursor} {b : β} (h : (x >>= f) c = .ok (b, c₂)) :
    ∃ a c₁, x c = .ok (a, c₁) ∧ f a c₁ = .ok (b, c₂) := by
  rw [bind_apply] at h
  cases hx : x c with
  | error e =>
    rw [hx] at h
    cases h
  | ok r =>
    rw [hx] at h
    exact ⟨r.1, r.2, rfl, h⟩

lemma of_bind_eq_error {c : Cursor} {e : ClassError} (h : (x >>= f) c = .error e) :
    x c = .error e ∨ ∃ a c₁, x c = .ok (a, c₁) ∧ f a c₁ = .error e := by
  rw [bind_apply] at h
  cases hx : x c with
  | error e' =>
    rw [hx] at h
    cases h
    exact .inl rfl
  | ok r =>
    rw [hx] at h
    exact .inr ⟨r.1, r.2, rfl, h⟩

lemma takes_pure (a : α) : Takes (pure a) [] a := fun _ _ => rfl

lemma Takes.bind (hx : Takes x bytes a) (hf : Takes (f a) rest b) :
    Takes (x >>= f) (bytes ++ rest) b := by
  intro offset tail
  rw [bind_apply, List.append_assoc, hx offset (rest ++ tail)]
  show f a ⟨offset + bytes.length, rest ++ tail⟩ = _
  rw [hf, List.length_append, Nat.add_assoc]

/-- A last step that takes nothing more. -/
lemma Takes.bind_nil (hx : Takes x bytes a) (hf : Takes (f a) [] b) :
    Takes (x >>= f) bytes b := by
  have h := hx.bind hf
  rwa [List.append_nil] at h

lemma Takes.map (hx : Takes x bytes a) (g : α → β) :
    Takes (x >>= fun a => pure (g a)) bytes (g a) :=
  hx.bind_nil (f := fun a => pure (g a)) (takes_pure (g a))

/-- A step that only looks where the cursor is. -/
lemma takes_offset_bind {f : Nat → Read β} (hf : ∀ n, Takes (f n) bytes b) :
    Takes (Read.offset >>= f) bytes b :=
  fun offset tail => hf offset offset tail

lemma takes_ofExcept_bind {y : Except ClassError α} (hy : y = .ok a) (hf : Takes (f a) bytes b) :
    Takes (Read.ofExcept y >>= f) bytes b := by
  subst hy
  exact hf

lemma takes_ofExcept {y : Except ClassError α} (hy : y = .ok a) :
    Takes (Read.ofExcept y) [] a := by
  subst hy
  exact takes_pure a

lemma takes_u8 (n : UInt8) : Takes u8 [n] n := fun _ _ => rfl

lemma takes_u16 (n : UInt16) : Takes u16 (be16 n) n := by
  intro offset tail
  show Except.ok (word16 (n >>> 8).toUInt8 n.toUInt8, _) = _
  rw [word16_be16]
  rfl

lemma takes_u32 (n : UInt32) : Takes u32 (be32 n) n := by
  intro offset tail
  show Except.ok (word32 (word16 _ _) (word16 _ _), _) = _
  rw [word16_be16, word16_be16, word32_be32]
  rfl

lemma takes_u64 (n : UInt64) : Takes u64 (be64 n) n := by
  have hlow := (takes_u32 n.toUInt32).map fun low => word64 (n >>> 32).toUInt32 low
  have h := (takes_u32 (n >>> 32).toUInt32).bind
    (f := fun high => u32 >>= fun low => pure (word64 high low)) hlow
  rwa [word64_be64] at h

lemma takes_bytes {n : Nat} (h : bytes.length = n) : Takes (Read.bytes n) bytes bytes := by
  intro offset tail
  subst h
  simp [Read.bytes]

lemma takes_times {Laid : α → List UInt8 → Prop} (hx : ∀ a bytes, Laid a bytes → Takes x bytes a)
    {as : List α} (h : InTurn Laid as bytes) : Takes (times as.length x) bytes as := by
  induction h with
  | nil => exact takes_pure []
  | @cons a as bytes rest ha _ ih => exact (hx a bytes ha).bind (ih.map fun rest => a :: rest)

end Read

/-! ## Scans -/

namespace Visitor

variable {σ : Type} (v : Visitor σ)

lemma visitAll_append (es fs : List ClassEvent) (s : σ) :
    v.visitAll (es ++ fs) s =
      match v.visitAll es s with
      | (.ok (), s) => v.visitAll fs s
      | (.error x, s) => (.error x, s) := by
  induction es generalizing s with
  | nil => rfl
  | cons e es ih =>
    simp only [List.cons_append, visitAll]
    rcases v.visit e s with ⟨⟨⟩ | ⟨⟩, s'⟩
    · rfl
    · exact ih s'

end Visitor

/-- The scan takes exactly these bytes and gives `a`, and on the way hands these events to the
visitor. -/
def Scan.Reports {σ α : Type} (v : Visitor σ) (x : Scan σ α) (bytes : List UInt8)
    (events : List ClassEvent) (a : α) : Prop :=
  ∀ offset rest s, x ⟨offset, bytes ++ rest⟩ s =
    match v.visitAll events s with
    | (.ok (), s) => (.ok (a, ⟨offset + bytes.length, rest⟩), s)
    | (.error e, s) => (.error e, s)

namespace Scan

variable {σ α β : Type} {v : Visitor σ} {x : Scan σ α} {f : α → Scan σ β}
  {bytes rest : List UInt8} {es fs : List ClassEvent} {a : α} {b : β}

lemma bind_apply (x : Scan σ α) (f : α → Scan σ β) (c : Cursor) (s : σ) :
    (x >>= f) c s =
      match x c s with
      | (.ok (a, c), s) => f a c s
      | (.error e, s) => (.error e, s) := rfl

lemma exists_of_bind_eq_ok {c c₂ : Cursor} {s s₂ : σ} {b : β}
    (h : (x >>= f) c s = (.ok (b, c₂), s₂)) :
    ∃ a c₁ s₁, x c s = (.ok (a, c₁), s₁) ∧ f a c₁ s₁ = (.ok (b, c₂), s₂) := by
  rw [bind_apply] at h
  rcases hx : x c s with ⟨e | ⟨a, c₁⟩, s₁⟩
  · rw [hx] at h
    cases h
  · rw [hx] at h
    exact ⟨a, c₁, s₁, rfl, h⟩

lemma of_bind_eq_error {c : Cursor} {s s₂ : σ} {e : ClassError}
    (h : (x >>= f) c s = (.error e, s₂)) :
    x c s = (.error e, s₂) ∨ ∃ a c₁ s₁, x c s = (.ok (a, c₁), s₁) ∧ f a c₁ s₁ = (.error e, s₂) := by
  rw [bind_apply] at h
  rcases hx : x c s with ⟨e' | ⟨a, c₁⟩, s₁⟩
  · rw [hx] at h
    cases h
    exact .inl rfl
  · rw [hx] at h
    exact .inr ⟨a, c₁, s₁, rfl, h⟩

lemma bind_assoc {γ : Type} (x : Scan σ α) (f : α → Scan σ β) (g : β → Scan σ γ) :
    (x >>= f) >>= g = x >>= fun a => f a >>= g := by
  funext c s
  simp only [bind_apply]
  rcases x c s with ⟨_ | ⟨a, c'⟩, s'⟩ <;> rfl

lemma reports_pure (a : α) : Reports v (pure a) [] [] a := fun _ _ _ => rfl

lemma Reports.bind (hx : Reports v x bytes es a) (hf : Reports v (f a) rest fs b) :
    Reports v (x >>= f) (bytes ++ rest) (es ++ fs) b := by
  intro offset tail s
  rw [bind_apply, List.append_assoc, hx offset (rest ++ tail) s, Visitor.visitAll_append]
  rcases v.visitAll es s with ⟨⟨⟩ | ⟨⟩, s'⟩
  · rfl
  · show f a ⟨offset + bytes.length, rest ++ tail⟩ s' = _
    rw [hf, List.length_append, Nat.add_assoc]

lemma reports_read {x : Read α} (h : x.Takes bytes a) : Reports v (Scan.read x) bytes [] a := by
  intro offset tail s
  show (x ⟨offset, bytes ++ tail⟩, s) = _
  rw [h]
  rfl

/-- A read in front of a scan. -/
lemma Reports.after_read {x : Read α} (hx : x.Takes bytes a)
    (hf : Reports v (f a) rest es b) :
    Reports v (Scan.read x >>= f) (bytes ++ rest) es b :=
  (reports_read hx).bind hf

lemma reports_emit (e : ClassEvent) : Reports v (emit v e) [] [e] () := by
  intro offset tail s
  simp only [emit, Visitor.visitAll, List.nil_append, List.length_nil, Nat.add_zero]
  rcases v.visit e s with ⟨⟨⟩ | ⟨⟩, s'⟩ <;> rfl

/-- An event in front of a scan. -/
lemma Reports.after_emit {x : Scan σ β} {e : ClassEvent} (hx : Reports v x bytes es b) :
    Reports v (emit v e >>= fun _ => x) bytes (e :: es) b := by
  have h := (reports_emit (v := v) e).bind (f := fun _ => x) hx
  rwa [List.nil_append] at h

/-- A last step that takes nothing more. -/
lemma Reports.bind_nil (hx : Reports v x bytes es a) (hf : Reports v (f a) [] fs b) :
    Reports v (x >>= f) bytes (es ++ fs) b := by
  have h := hx.bind hf
  rwa [List.append_nil] at h

/-- An event behind a scan. -/
lemma Reports.then_emit {x : Scan σ Unit} {e : ClassEvent} (hx : Reports v x bytes es ()) :
    Reports v (x >>= fun _ => emit v e) bytes (es ++ [e]) () :=
  hx.bind_nil (f := fun _ => emit v e) (reports_emit e)

lemma reports_times {ι : Type} {x : Scan σ Unit} {Laid : ι → List UInt8 → Prop}
    {Says : ι → List ClassEvent → Prop}
    (hx : ∀ i bytes, Laid i bytes → ∃ es, Says i es ∧ Reports v x bytes es ()) {is : List ι}
    (h : InTurn Laid is bytes) :
    ∃ es, InTurn Says is es ∧ Reports v (times is.length x) bytes es () := by
  induction h with
  | nil => exact ⟨[], .nil, reports_pure ()⟩
  | @cons i is bytes rest hi _ ih =>
    obtain ⟨es, hsaid, hes⟩ := hx i bytes hi
    obtain ⟨fs, hrest, hfs⟩ := ih
    exact ⟨es ++ fs, .cons hsaid hrest, hes.bind (f := fun _ => times is.length x) hfs⟩

/-- A counted list, scanned by its count. -/
lemma reports_counted {ι : Type} {x : Scan σ Unit} {Laid : ι → List UInt8 → Prop}
    {Says : ι → List ClassEvent → Prop}
    (hx : ∀ i bytes, Laid i bytes → ∃ es, Says i es ∧ Reports v x bytes es ()) {is : List ι}
    (h : Counted Laid is bytes) :
    ∃ es, InTurn Says is es ∧
      Reports v (Scan.read Read.u16 >>= fun count => times count.toNat x) bytes es () := by
  obtain ⟨hlt, rest, hrest, rfl⟩ := h
  obtain ⟨es, hsaid, hes⟩ := reports_times hx hrest
  refine ⟨es, hsaid, Reports.after_read (Read.takes_u16 _) ?_⟩
  rwa [toNat_count hlt]

/-- A counted list whose items each have their own events. -/
lemma reports_counted_flatMap {ι : Type} {x : Scan σ Unit} {Laid : ι → List UInt8 → Prop}
    {events : ι → List ClassEvent}
    (hx : ∀ i bytes, Laid i bytes → Reports v x bytes (events i) ()) {is : List ι}
    (h : Counted Laid is bytes) :
    Reports v (Scan.read Read.u16 >>= fun count => times count.toNat x) bytes
      (is.flatMap events) () := by
  have hone : ∀ i bytes, Laid i bytes → ∃ es, es = events i ∧ Reports v x bytes es () :=
    fun i bytes hi => ⟨events i, rfl, hx i bytes hi⟩
  obtain ⟨es, hsaid, hes⟩ := reports_counted hone h
  rwa [hsaid.eq_flatMap] at hes

/-- The scan takes all bytes that are left and on the way hands these events to the visitor. -/
def Exhausts (v : Visitor σ) (x : Scan σ Unit) (bytes : List UInt8) (events : List ClassEvent) :
    Prop :=
  ∀ offset s, x ⟨offset, bytes⟩ s =
    match v.visitAll events s with
    | (.ok (), s) => (.ok ((), ⟨offset + bytes.length, []⟩), s)
    | (.error e, s) => (.error e, s)

lemma exhausts_expectEnd (what : String) :
    Exhausts v (Scan.read (Read.expectEnd what)) [] [] := fun _ _ => rfl

lemma exhausts_expectEnd_bind {x : Scan σ Unit} {what : String} (hx : Exhausts v x [] es) :
    Exhausts v (Scan.read (Read.expectEnd what) >>= fun _ => x) [] es :=
  fun offset s => hx offset s

lemma Reports.exhausts {x : Scan σ Unit} (hx : Reports v x bytes es ()) :
    Exhausts v x bytes es := by
  intro offset s
  have h := hx offset [] s
  rwa [List.append_nil] at h

lemma Reports.bind_exhausts {f : α → Scan σ Unit} (hx : Reports v x bytes es a)
    (hf : Exhausts v (f a) rest fs) : Exhausts v (x >>= f) (bytes ++ rest) (es ++ fs) := by
  intro offset s
  rw [bind_apply, hx offset rest s, Visitor.visitAll_append]
  rcases v.visitAll es s with ⟨⟨⟩ | ⟨⟩, s'⟩
  · rfl
  · show f a ⟨offset + bytes.length, rest⟩ s' = _
    rw [hf, List.length_append, Nat.add_assoc]

/-- A scan that uses up a slice of the bytes. -/
lemma reports_within {n : Nat} {x : Scan σ Unit} (hx : Exhausts v x bytes es)
    (h : bytes.length = n) : Reports v (within n x) bytes es () := by
  intro offset tail s
  have hslice := Read.takes_bytes h offset tail
  simp only [within, hslice, hx offset s]
  rcases v.visitAll es s with ⟨⟨⟩ | ⟨⟩, s'⟩ <;> rfl

/-- A slice of the bytes that is not looked at. -/
lemma reports_skip {n : Nat} (h : bytes.length = n) :
    Reports v (within n (pure ())) bytes [] () := by
  intro offset tail s
  simp only [within, Read.takes_bytes h offset tail]
  rfl

end Scan

/-- The scan of a field or of a method: its head, its attributes and its end. -/
def Scan.member {σ : Type} (v : Visitor σ) (p : Pool)
    (start : Access → String → String → ClassEvent) (element : String → Element)
    (last : ClassEvent) : Scan σ Unit := do
  let access ← Scan.read Read.u16
  let name ← Scan.read p.readUtf8
  let descriptor ← Scan.read p.readUtf8
  Scan.emit v (start access name descriptor)
  Scan.attributes v p (element descriptor)
  Scan.emit v last

end JavaScope
