/-
# Readers and their windows

The reader of a class file, and the reader that is opened for each attribute in it, look at a
*window* of the file: a slice of it, from one offset to another.  In every run the reader in use
stands inside its window, so that what it is asked for are the bytes of the file at its offset, or
the error that they would go past the end of the window (`scanClass_staysInside`).  The window
of an attribute is as long as the attribute says, and its end is where the outer reader goes on.

What a run asks of its readers, one after the other, is told by the steps of the run
(`Scan.Steps.uses`).
-/
import JavaScope.Proofs.ClassFile.Steps
import JavaScope.Proofs.Stub.Size

namespace JavaScope

/-! ## Windows -/

/-- A slice of a file: the bytes from the offset `first` on that stand in front of `stop`. -/
structure Window where
  first : Nat
  stop : Nat
deriving DecidableEq, Repr

/-- The whole of a file. -/
def Window.whole (file : List UInt8) : Window := ⟨0, file.length⟩

/-- The cursor stands in a window of the file and has the rest of the window in front of it. -/
structure Cursor.Inside (file : List UInt8) (w : Window) (c : Cursor) : Prop where
  first_le : w.first ≤ c.offset
  le_stop : c.offset ≤ w.stop
  stop_le : w.stop ≤ file.length
  rest_eq : c.rest = (file.take w.stop).drop c.offset

/-- The cursor `n` bytes further on in a window. -/
def Window.skip (w : Window) (file : List UInt8) (c : Cursor) (n : Nat) : Cursor :=
  ⟨c.offset + n, (file.take w.stop).drop (c.offset + n)⟩

namespace Cursor.Inside

variable {file : List UInt8} {w : Window} {c : Cursor} {n : Nat}

lemma start (file : List UInt8) : (Cursor.start file).Inside file (Window.whole file) where
  first_le := Nat.le_refl 0
  le_stop := Nat.zero_le _
  stop_le := Nat.le_refl _
  rest_eq := by simp [Cursor.start, Window.whole]

lemma length_rest (h : c.Inside file w) : c.rest.length = w.stop - c.offset := by
  rw [h.rest_eq, List.length_drop, List.length_take_of_le h.stop_le]

lemma skip (h : c.Inside file w) (hn : c.offset + n ≤ w.stop) :
    (w.skip file c n).Inside file w where
  first_le := Nat.le_add_right_of_le h.first_le
  le_stop := hn
  stop_le := h.stop_le
  rest_eq := rfl

/-- A slice of a window is a window. -/
lemma slice (h : c.Inside file w) (hn : c.offset + n ≤ w.stop) :
    (⟨c.offset, (file.drop c.offset).take n⟩ : Cursor).Inside file ⟨c.offset, c.offset + n⟩ where
  first_le := Nat.le_refl _
  le_stop := Nat.le_add_right _ _
  stop_le := Nat.le_trans hn h.stop_le
  rest_eq := by rw [List.drop_take, Nat.add_sub_cancel_left]

/-- A reader in its window has the bytes of the file at its offset, and no others. -/
lemma bytes_eq (h : c.Inside file w) (n : Nat) :
    Read.bytes n c =
      if c.offset + n ≤ w.stop then .ok ((file.drop c.offset).take n, w.skip file c n)
      else .error (.malformed c.offset (.endOfInput n (w.stop - c.offset))) := by
  have hlength := h.length_rest
  have hstop := h.le_stop
  by_cases hn : c.offset + n ≤ w.stop
  · have htake : (c.rest.take n).length = n := List.length_take_of_le (by omega)
    have hslice : c.rest.take n = (file.drop c.offset).take n := by
      rw [h.rest_eq, List.drop_take, List.take_take, Nat.min_eq_left (by omega)]
    have hrest : c.rest.drop n = (file.take w.stop).drop (c.offset + n) := by
      rw [h.rest_eq, List.drop_drop]
    rw [if_pos hn, Read.bytes, if_pos htake, hslice, hrest]
    rfl
  · have htake : (c.rest.take n).length ≠ n := by
      rw [List.length_take]
      omega
    rw [if_neg hn, Read.bytes, if_neg htake, Read.tooShort, hlength]

/-- What was read stands in the window, and the cursor is behind it. -/
lemma of_bytes_eq_ok {taken : List UInt8} {after : Cursor} (h : c.Inside file w)
    (hread : Read.bytes n c = .ok (taken, after)) :
    c.offset + n ≤ w.stop ∧ taken = (file.drop c.offset).take n ∧ after = w.skip file c n := by
  rw [h.bytes_eq] at hread
  split at hread
  · next hn =>
    obtain ⟨rfl, rfl⟩ := Prod.mk.inj (Except.ok.inj hread)
    exact ⟨hn, rfl, rfl⟩
  · cases hread

lemma of_bytes_eq_error {e : ClassError} (h : c.Inside file w)
    (hread : Read.bytes n c = .error e) :
    w.stop < c.offset + n ∧ e = .malformed c.offset (.endOfInput n (w.stop - c.offset)) := by
  rw [h.bytes_eq] at hread
  split at hread
  · cases hread
  · next hn =>
    cases hread
    exact ⟨Nat.lt_of_not_le hn, rfl⟩

end Cursor.Inside

/-! ## Uses of readers -/

/-- What is done to a reader in the course of a run, with the window of the reader and the place
where it stands. -/
inductive ReaderUse
  /-- The reader is asked where it is or whether there are bytes left. -/
  | located (w : Window) (c : Cursor)
  /-- The reader is asked for its next bytes. -/
  | asked (w : Window) (c : Cursor) (count : Nat)
  /-- A reader is opened for the next part of the window, and starts at `start`. -/
  | opened (w : Window) (c : Cursor) (inner : Window) (start : Cursor)
  /-- The reader goes on at `c` after one that was opened for a part of its window. -/
  | resumed (w : Window) (c : Cursor) (inner : Window)

/-- The reader stands inside its window and has what is left of it.  If it is asked for bytes that
the window has, it gives the bytes of the file at its offset and moves past them; else it says so
and names its offset.  A reader is opened for as many bytes as the four bytes in front of them say,
all of them in the window of the outer reader, and starts at the first of them; the outer reader
resumes where they end. -/
def ReaderUse.Sound (file : List UInt8) : ReaderUse → Prop
  | located w c => c.Inside file w ∧ c.rest.length = w.stop - c.offset
  | asked w c count => c.Inside file w ∧
      Read.bytes count c =
        if c.offset + count ≤ w.stop then .ok ((file.drop c.offset).take count, w.skip file c count)
        else .error (.malformed c.offset (.endOfInput count (w.stop - c.offset)))
  | opened w c inner start => c.Inside file w ∧ inner.first = c.offset ∧ inner.stop ≤ w.stop ∧
      (start.Inside file inner ∧ start.offset = inner.first) ∧
      ∃ length : UInt32, w.first + 4 ≤ c.offset ∧
        (file.drop (c.offset - 4)).take 4 = be32 length ∧ inner.stop = inner.first + length.toNat
  | resumed w c inner => c.Inside file w ∧ c.offset = inner.stop

/-- If the error says where the file is malformed, then at an offset in the file; and if it says
that bytes are missing, a reader at this offset was asked for more bytes than its window has. -/
def ClassError.RaisedIn (file : List UInt8) (uses : List ReaderUse) (e : ClassError) : Prop :=
  ∀ offset defect, e = .malformed offset defect → offset ≤ file.length ∧
    ∀ needed left, defect = .endOfInput needed left →
      ∃ w c, .asked w c needed ∈ uses ∧ c.offset = offset ∧ left = w.stop - offset ∧
        w.stop < offset + needed

/-- What the steps of a read ask of the reader. -/
def Read.Steps.uses (w : Window) : {α : Type} → {notes : List Nat} → {x : Read α} →
    x.Steps notes → Cursor → List ReaderUse
  | _, _, _, .pure _, _ => []
  | _, _, _, .fail _ _, _ => []
  | _, _, _, .take n _ _, c => [.asked w c n]
  | _, _, _, .note next, c => .located w c :: (next c.offset).uses w c
  | _, _, _, @Read.Steps.bind _ _ _ x _ first next, c =>
    first.uses w c ++
      match x c with
      | .ok (a, c) => (next a).uses w c
      | .error _ => []
  | _, _, _, .expectEnd _, c => [.located w c]

/-- In place of a scan, tells what it would do to its reader. -/
def Scan.tell {σ : Type} (used : Cursor → σ → List ReaderUse) : Scan σ (List ReaderUse) :=
  fun c s => (.ok (used c s, c), s)

/-- What is done to a reader that is opened for the next `n` bytes, where `used` tells what is done
to it from its start on.  It starts where `Scan.within` lets a scan start. -/
def Scan.usesInside {σ : Type} (n : Nat) (used : Cursor → σ → List ReaderUse) (c : Cursor) (s : σ) :
    List ReaderUse :=
  match Scan.within n (tell used) c s with
  | (.ok (told, _), _) => told
  | (.error _, _) => []

/-- What is done to the readers when the next `n` bytes are scanned alone, where `used` tells what
is done in doing so.  The outer reader resumes at the cursor that `Scan.within` leaves. -/
def Scan.usesWithin {σ α : Type} (n : Nat) (body : Scan σ α)
    (used : Window → Cursor → σ → List ReaderUse) (w : Window) (c : Cursor) (s : σ) :
    List ReaderUse :=
  let inner : Window := ⟨c.offset, c.offset + n⟩
  let inside := usesInside n (fun start s => .opened w c inner start :: used inner start s) c s
  .asked w c n :: inside ++
    match within n body c s with
    | (.ok (_, after), _) => [.resumed w after inner]
    | (.error _, _) => []

/-- What the steps of a scan do to the readers. -/
def Scan.Steps.uses {σ : Type} {v : Visitor σ} : {α : Type} → {x : Scan σ α} →
    Scan.Steps v x → Window → Cursor → σ → List ReaderUse
  | _, _, .read steps, w, c, _ => steps.uses w c
  | _, _, .emit _, _, _, _ => []
  | _, _, @Scan.Steps.bind _ _ _ _ x _ first next, w, c, s =>
    first.uses w c s ++
      match x c s with
      | (.ok (a, c), s) => (next a).uses w c s
      | (.error _, _) => []
  | _, _, @Scan.Steps.sized _ _ _ body steps, w, c, s =>
    .asked w c 4 ::
      match Read.u32 c with
      | .ok (length, c) =>
        Scan.usesWithin length.toNat body (fun w c s => steps.uses w c s) w c s
      | .error _ => []

/-! ## Reads -/

section Reads

variable {α : Type} {file : List UInt8} {w : Window} {c : Cursor} {notes : List Nat} {x : Read α}

lemma Cursor.Inside.sound_asked (h : c.Inside file w) (n : Nat) :
    (ReaderUse.asked w c n).Sound file :=
  ⟨h, h.bytes_eq n⟩

lemma ClassError.RaisedIn.mono {uses uses' : List ReaderUse} {e : ClassError}
    (h : e.RaisedIn file uses) (hsub : uses ⊆ uses') : e.RaisedIn file uses' := by
  intro offset defect he
  obtain ⟨hle, hend⟩ := h offset defect he
  refine ⟨hle, fun needed left hdefect => ?_⟩
  obtain ⟨w, c, hmem, hrest⟩ := hend needed left hdefect
  exact ⟨w, c, hsub hmem, hrest⟩

/-- The error of a reader that is asked for too much. -/
lemma Cursor.Inside.raisedIn_of_bytes {n : Nat} {e : ClassError} {uses : List ReaderUse}
    (h : c.Inside file w) (hread : Read.bytes n c = .error e) (hmem : .asked w c n ∈ uses) :
    e.RaisedIn file uses := by
  obtain ⟨hlt, rfl⟩ := h.of_bytes_eq_error hread
  rintro _ _ ⟨⟩
  refine ⟨Nat.le_trans h.le_stop h.stop_le, ?_⟩
  rintro _ _ ⟨⟩
  exact ⟨w, c, hmem, rfl, rfl, hlt⟩

/-- An error that a read raises of its own. -/
lemma ClassError.PlacedAt.raisedIn {e : ClassError} (h : e.PlacedAt notes)
    (hnotes : ∀ place ∈ notes, place ≤ file.length) (uses : List ReaderUse) :
    e.RaisedIn file uses := by
  intro offset defect he
  obtain ⟨hplace, hend⟩ := h offset defect he
  refine ⟨?_, fun needed left hdefect => absurd hdefect (hend needed left)⟩
  rcases hplace with rfl | hmem
  · exact Nat.zero_le _
  · exact hnotes offset hmem

namespace Read.Steps

/-- A read leaves the cursor in its window. -/
lemma inside {a : α} {c' : Cursor} (steps : x.Steps notes) (hc : c.Inside file w)
    (h : x c = .ok (a, c')) : c'.Inside file w := by
  induction steps generalizing c c' with
  | pure a =>
    cases h
    exact hc
  | fail blames placed => cases h
  | take n decode takes =>
    rw [takes] at h
    rcases hread : Read.bytes n c with e | ⟨taken, after⟩
    · rw [hread] at h
      cases h
    · rw [hread] at h
      cases h
      obtain ⟨hn, -, rfl⟩ := hc.of_bytes_eq_ok hread
      exact hc.skip hn
  | note next ih => exact ih c.offset hc h
  | bind first next ihfirst ihnext =>
    obtain ⟨a, c₁, hfirst, hnext⟩ := exists_of_bind_eq_ok h
    exact ihnext a (ihfirst hc hfirst) hnext
  | expectEnd what =>
    unfold Read.expectEnd at h
    split at h <;> cases h
    exact hc

/-- What is asked in the course of a read is asked of a reader inside its window. -/
lemma uses_sound (steps : x.Steps notes) (hc : c.Inside file w) :
    ∀ use ∈ steps.uses w c, use.Sound file := by
  induction steps generalizing c with
  | pure a => exact nofun
  | fail blames placed => exact nofun
  | take n decode takes =>
    intro use huse
    obtain rfl := List.mem_singleton.mp huse
    exact hc.sound_asked n
  | note next ih =>
    rw [uses]
    exact List.forall_mem_cons.mpr ⟨⟨hc, hc.length_rest⟩, ih c.offset hc⟩
  | @bind _ _ _ x f first next ihfirst ihnext =>
    rw [uses]
    refine List.forall_mem_append.mpr ⟨ihfirst hc, ?_⟩
    rcases hx : x c with e | ⟨a, c₁⟩
    · exact nofun
    · exact ihnext a (first.inside hc hx)
  | expectEnd what => exact List.forall_mem_singleton.mpr ⟨hc, hc.length_rest⟩

/-- A read fails where the cursor was, and for want of bytes only if it asked for them. -/
lemma raisedIn {e : ClassError} (steps : x.Steps notes) (hc : c.Inside file w)
    (hnotes : ∀ place ∈ notes, place ≤ file.length) (h : x c = .error e) :
    e.RaisedIn file (steps.uses w c) := by
  induction steps generalizing c with
  | pure a => cases h
  | fail blames placed =>
    cases h
    exact placed.raisedIn hnotes _
  | take n decode takes =>
    rw [takes] at h
    rcases hread : Read.bytes n c with e' | ⟨taken, after⟩
    · rw [hread] at h
      cases h
      exact hc.raisedIn_of_bytes hread (List.mem_singleton_self _)
    · rw [hread] at h
      cases h
  | note next ih =>
    have hplace : c.offset ≤ file.length := Nat.le_trans hc.le_stop hc.stop_le
    have hraised := ih c.offset hc (List.forall_mem_cons.mpr ⟨hplace, hnotes⟩) h
    rw [uses]
    exact hraised.mono (List.subset_cons_self _ _)
  | @bind _ _ _ x f first next ihfirst ihnext =>
    rcases of_bind_eq_error h with hfirst | ⟨a, c₁, hfirst, hnext⟩
    · rw [uses]
      exact (ihfirst hc hnotes hfirst).mono (List.subset_append_left _ _)
    · have hlater := ihnext a (first.inside hc hfirst) hnotes hnext
      simp only [uses, hfirst]
      exact hlater.mono (List.subset_append_right _ _)
  | expectEnd what =>
    unfold Read.expectEnd at h
    split at h <;> cases h
    rintro _ _ ⟨⟩
    exact ⟨Nat.le_trans hc.le_stop hc.stop_le, nofun⟩

end Read.Steps

end Reads

/-! ## Scans -/

/-- The visitor refuses some event with this error. -/
def Visitor.Raises {σ : Type} (v : Visitor σ) (e : ClassError) : Prop :=
  ∃ event s, (v.visit event s).1 = .error e

section Scans

variable {σ α : Type} {file : List UInt8} {w : Window} {c : Cursor} {v : Visitor σ} {x : Scan σ α}
  {s : σ}

/-- The four bytes of a number stand in front of the cursor afterwards. -/
lemma Cursor.Inside.of_u32_eq_ok {length : UInt32} {after : Cursor} (h : c.Inside file w)
    (hread : Read.u32 c = .ok (length, after)) :
    after.Inside file w ∧ w.first + 4 ≤ after.offset ∧
      (file.drop (after.offset - 4)).take 4 = be32 length := by
  rw [Read.u32_eq] at hread
  rcases hbytes : Read.bytes 4 c with e | ⟨taken, after'⟩
  · rw [hbytes] at hread
    cases hread
  · rw [hbytes] at hread
    cases hread
    obtain ⟨hn, rfl, rfl⟩ := h.of_bytes_eq_ok hbytes
    have hfile := h.stop_le
    have hlength : ((file.drop c.offset).take 4).length = 4 := by
      rw [List.length_take_of_le]
      rw [List.length_drop]
      omega
    refine ⟨h.skip hn, Nat.add_le_add_right h.first_le 4, ?_⟩
    rw [Read.be32_number32 hlength]
    rfl

namespace Scan

/-! ### Parts that are scanned alone -/

/-- In its window, a scan of the next `n` bytes alone gives these bytes to a reader of their own and
leaves the cursor behind them, if the window has so many. -/
lemma within_eq (hc : c.Inside file w) (n : Nat) (body : Scan σ α) (s : σ) :
    within n body c s =
      if c.offset + n ≤ w.stop then
        match body ⟨c.offset, (file.drop c.offset).take n⟩ s with
        | (.ok (a, _), s) => (.ok (a, w.skip file c n), s)
        | (.error e, s) => (.error e, s)
      else (.error (.malformed c.offset (.endOfInput n (w.stop - c.offset))), s) := by
  rw [within, hc.bytes_eq]
  by_cases hn : c.offset + n ≤ w.stop
  · rcases hrun : body ⟨c.offset, (file.drop c.offset).take n⟩ s with ⟨e | r, s'⟩ <;>
      simp only [if_pos hn, hrun]
  · simp only [if_neg hn]

/-- The cursor is left where the bytes that were scanned alone end, however many were read. -/
lemma of_within_eq_ok {n : Nat} {body : Scan σ α} {a : α} {after : Cursor} {s' : σ}
    (hc : c.Inside file w) (h : within n body c s = (.ok (a, after), s')) :
    c.offset + n ≤ w.stop ∧ after = w.skip file c n := by
  rw [within_eq hc] at h
  split at h
  · next hn =>
    split at h <;> cases h
    exact ⟨hn, rfl⟩
  · cases h

lemma inside_within {n : Nat} {body : Scan σ α} {a : α} {after : Cursor} {s' : σ}
    (hc : c.Inside file w) (h : within n body c s = (.ok (a, after), s')) :
    after.Inside file w := by
  obtain ⟨hn, rfl⟩ := of_within_eq_ok hc h
  exact hc.skip hn

/-- A reader that is opened for the next bytes starts at the first of them and has all of them. -/
lemma usesInside_eq (hc : c.Inside file w) (n : Nat) (used : Cursor → σ → List ReaderUse) (s : σ) :
    usesInside n used c s =
      if c.offset + n ≤ w.stop then used ⟨c.offset, (file.drop c.offset).take n⟩ s else [] := by
  rw [usesInside, within_eq hc]
  by_cases hn : c.offset + n ≤ w.stop
  · rw [if_pos hn, if_pos hn]
    rfl
  · rw [if_neg hn, if_neg hn]

/-- Behind its length, a part of a file is scanned by a reader whose window it is, and the outer
reader resumes at its end. -/
lemma usesWithin_sound {length : UInt32} {body : Scan σ α}
    {used : Window → Cursor → σ → List ReaderUse} (hc : c.Inside file w)
    (hfirst : w.first + 4 ≤ c.offset) (hlength : (file.drop (c.offset - 4)).take 4 = be32 length)
    (hused : ∀ {w c s}, c.Inside file w → ∀ use ∈ used w c s, use.Sound file) :
    ∀ use ∈ usesWithin length.toNat body used w c s, use.Sound file := by
  simp only [usesWithin, usesInside_eq hc]
  refine List.forall_mem_append.mpr ⟨List.forall_mem_cons.mpr ⟨hc.sound_asked _, ?_⟩, ?_⟩
  · split
    · next hn =>
      have hstart := hc.slice hn
      refine List.forall_mem_cons.mpr ⟨?_, hused hstart⟩
      exact ⟨hc, rfl, hn, ⟨hstart, rfl⟩, length, hfirst, hlength, rfl⟩
    · exact nofun
  · rcases hrun : within length.toNat body c s with ⟨e | ⟨a, after⟩, s'⟩
    · exact nofun
    · obtain ⟨hn, rfl⟩ := of_within_eq_ok hc hrun
      exact List.forall_mem_singleton.mpr ⟨hc.skip hn, rfl⟩

/-- A scan of the next bytes alone fails as the scan of these bytes does, or for want of them. -/
lemma raisedIn_within {n : Nat} {body : Scan σ α} {used : Window → Cursor → σ → List ReaderUse}
    {e : ClassError} {s' : σ} (hc : c.Inside file w) (h : within n body c s = (.error e, s'))
    (hbody : ∀ {w c s}, c.Inside file w → body c s = (.error e, s') →
      v.Raises e ∨ e.RaisedIn file (used w c s)) :
    v.Raises e ∨ e.RaisedIn file (usesWithin n body used w c s) := by
  simp only [usesWithin, usesInside_eq hc]
  rw [within_eq hc] at h
  by_cases hn : c.offset + n ≤ w.stop
  · rw [if_pos hn] at h
    rcases hrun : body ⟨c.offset, (file.drop c.offset).take n⟩ s with ⟨e' | r, s₁⟩
    · rw [hrun] at h
      cases h
      refine (hbody (hc.slice hn) hrun).imp_right fun hraised => hraised.mono ?_
      intro use huse
      simp [hn, huse]
    · rw [hrun] at h
      cases h
  · rw [if_neg hn] at h
    cases h
    have hread : Read.bytes n c = .error _ := (hc.bytes_eq n).trans (if_neg hn)
    exact .inr (hc.raisedIn_of_bytes hread (List.mem_append_left _ List.mem_cons_self))

namespace Steps

/-! ### Scans -/

lemma inside {a : α} {c' : Cursor} {s' : σ} (steps : Scan.Steps v x) (hc : c.Inside file w)
    (h : x c s = (.ok (a, c'), s')) : c'.Inside file w := by
  induction steps generalizing c s c' s' with
  | read steps => exact steps.inside hc (Prod.mk.inj h).1
  | emit e =>
    unfold Scan.emit at h
    split at h <;> cases h
    exact hc
  | bind first next ihfirst ihnext =>
    obtain ⟨a, c₁, s₁, hfirst, hnext⟩ := exists_of_bind_eq_ok h
    exact ihnext a (ihfirst hc hfirst) hnext
  | sized steps ih =>
    obtain ⟨length, c₁, s₁, hlength, hwithin⟩ := exists_of_bind_eq_ok h
    exact inside_within (hc.of_u32_eq_ok (Prod.mk.inj hlength).1).1 hwithin

/-- What is done to readers in the course of a scan is done to readers inside their windows. -/
lemma uses_sound (steps : Scan.Steps v x) (hc : c.Inside file w) :
    ∀ use ∈ steps.uses w c s, use.Sound file := by
  induction steps generalizing w c s with
  | read steps =>
    rw [uses]
    exact steps.uses_sound hc
  | emit e =>
    rw [uses]
    exact nofun
  | @bind _ _ x f first next ihfirst ihnext =>
    rw [uses]
    refine List.forall_mem_append.mpr ⟨ihfirst hc, ?_⟩
    rcases hx : x c s with ⟨e | ⟨a, c₁⟩, s₁⟩
    · exact nofun
    · exact ihnext a (first.inside hc hx)
  | sized steps ih =>
    rw [uses]
    refine List.forall_mem_cons.mpr ⟨hc.sound_asked 4, ?_⟩
    rcases hlength : Read.u32 c with e | ⟨length, c₁⟩
    · exact nofun
    · obtain ⟨hc₁, hfirst, hbytes⟩ := hc.of_u32_eq_ok hlength
      exact usesWithin_sound hc₁ hfirst hbytes ih

/-- A scan fails because its visitor does, or where a reader was, and for want of bytes only if a
reader was asked for them. -/
lemma raisedIn {e : ClassError} {s' : σ} (steps : Scan.Steps v x) (hc : c.Inside file w)
    (h : x c s = (.error e, s')) : v.Raises e ∨ e.RaisedIn file (steps.uses w c s) := by
  induction steps generalizing w c s with
  | read steps =>
    rw [uses]
    exact .inr (steps.raisedIn hc nofun (Prod.mk.inj h).1)
  | emit event =>
    unfold Scan.emit at h
    split at h
    · cases h
    · next hvisit =>
      cases h
      exact .inl ⟨event, s, by rw [hvisit]⟩
  | bind first next ihfirst ihnext =>
    rw [uses]
    rcases of_bind_eq_error h with hfirst | ⟨a, c₁, s₁, hfirst, hnext⟩
    · exact (ihfirst hc hfirst).imp_right fun hraised =>
        hraised.mono (List.subset_append_left _ _)
    · rw [hfirst]
      exact (ihnext a (first.inside hc hfirst) hnext).imp_right fun hraised =>
        hraised.mono (List.subset_append_right _ _)
  | sized steps ih =>
    rw [uses]
    rcases of_bind_eq_error h with hlength | ⟨length, c₁, s₁, hlength, hwithin⟩
    · have hread := (Prod.mk.inj hlength).1
      rw [Read.u32_eq] at hread
      rcases hbytes : Read.bytes 4 c with e' | r
      · rw [hbytes] at hread
        cases hread
        exact .inr (hc.raisedIn_of_bytes hbytes List.mem_cons_self)
      · rw [hbytes] at hread
        cases hread
    · obtain ⟨hread, rfl⟩ := Prod.mk.inj hlength
      have hc₁ := (hc.of_u32_eq_ok hread).1
      rw [hread]
      exact (raisedIn_within hc₁ hwithin ih).imp_right fun hraised =>
        hraised.mono (List.subset_cons_self _ _)

end Steps

end Scan

/-- A scan of a whole file fails because its visitor does, or somewhere in the file. -/
lemma raisedIn_of_scanClass {e : ClassError} (steps : Scan.Steps v (Scan.classFile v))
    (h : (scanClass v file s).1 = .error e) :
    v.Raises e ∨ e.RaisedIn file (steps.uses (.whole file) (.start file) s) := by
  simp only [scanClass] at h
  rcases hrun : Scan.classFile v (.start file) s with ⟨e' | r, s'⟩
  · rw [hrun] at h
    cases h
    exact steps.raisedIn (.start file) hrun
  · rw [hrun] at h
    cases h

/-- Where a visitor names no offset of its own, the offset of an error is one of the file. -/
lemma offset_le_of_scanClass {offset : Nat} {defect : Defect}
    (hv : ∀ e, v.Raises e → e.PlacedAt [])
    (h : (scanClass v file s).1 = .error (.malformed offset defect)) : offset ≤ file.length := by
  obtain ⟨steps⟩ := Scan.stepwise_classFile v
  rcases raisedIn_of_scanClass steps h with hraises | hraised
  · exact ((hv _ hraises).raisedIn nofun [] offset defect rfl).1
  · exact (hraised offset defect rfl).1

end Scans

/-- The readers of a class file always know where they are.  A scan of a whole file, for any
visitor, consists of steps; and whatever the bytes of the file are, all that the steps ask of the
readers is sound: the reader in use stands inside its window, gives the bytes of the file at its
offset and never bytes behind its window, an attribute is read in a window as long as the attribute
says, and the cursor with which the outer reader resumes is where it ends.  An error is one of the
visitor's, or its offset is one of the file, and if it says that bytes are missing, they would run
past the end of a window.  In particular the offset of a malformed file is one of the file, whether
its events are kept or a stub is drafted from them. -/
theorem scanClass_staysInside {σ : Type} (v : Visitor σ) (file : List UInt8) (s : σ) :
    Nonempty (Scan.Steps v (Scan.classFile v)) ∧
      (∀ steps : Scan.Steps v (Scan.classFile v),
        (∀ use ∈ steps.uses (.whole file) (.start file) s, use.Sound file) ∧
        ∀ e, (scanClass v file s).1 = .error e →
          v.Raises e ∨ e.RaisedIn file (steps.uses (.whole file) (.start file) s)) ∧
      ∀ offset defect, (classEvents file).1 = .error (.malformed offset defect) ∨
        ClassStub.ofBytes file = .error (.malformed offset defect) → offset ≤ file.length := by
  refine ⟨Scan.stepwise_classFile v, fun steps => ⟨?_, fun e => raisedIn_of_scanClass steps⟩, ?_⟩
  · exact steps.uses_sound (.start file)
  · rintro offset defect (hlog | hstub)
    · have hv (e : ClassError) (h : Visitor.log.Raises e) : e.PlacedAt [] := nomatch h
      exact offset_le_of_scanClass hv hlog
    · have hv (e : ClassError) : StubDraft.visitor.Raises e → e.PlacedAt [] :=
        fun ⟨event, d, h⟩ => StubDraft.placedAt_of_raises h
      unfold ClassStub.ofBytes at hstub
      rcases hrun : scanClass StubDraft.visitor file .awaitingClass with ⟨e | ⟨⟩, d⟩
      · rw [hrun] at hstub
        cases hstub
        exact offset_le_of_scanClass hv (congrArg Prod.fst hrun)
      · rw [hrun] at hstub
        cases d with
        | closed stub => cases stub <;> cases hstub
        | _ => cases hstub

end JavaScope
