/-
# Writing modified UTF-8

The other direction of `Text.ModifiedUtf8`: how a class file writes a text.  Every 16-bit
unit of the UTF-16 form of the text takes one to three bytes, and U+0000 takes two.  The
main fact is `decode?_encode`: a text that is written and read comes back.

Reading tries standard UTF-8 first.  On a text without U+0000 and without characters above
U+FFFF the two forms agree.  All other texts are no standard UTF-8 when written in this
form, so the unit by unit reading takes over for the whole of them.
-/
import Mathlib.Tactic.Lemma
import JavaScope.Text.ModifiedUtf8

namespace JavaScope.Text

/-! ## Units -/

namespace Utf16

/-- The units of a character: one, or the two halves of a character above U+FFFF. -/
def unitsOf (c : Char) : List Nat :=
  if c.toNat < 0x10000 then [c.toNat]
  else [0xD800 + (c.toNat - 0x10000) / 0x400, 0xDC00 + (c.toNat - 0x10000) % 0x400]

/-- The units of a sequence of characters. -/
def encode (cs : List Char) : List Nat := cs.flatMap unitsOf

/-- No character has the number of a half. -/
lemma toNat_lt_or (c : Char) : c.toNat < 0xD800 ∨ 0xE000 ≤ c.toNat ∧ c.toNat < 0x110000 := by
  have h : c.toNat.isValidChar := c.valid
  unfold Nat.isValidChar at h
  omega

lemma unitsOf_lt (c : Char) : ∀ u ∈ unitsOf c, u < 0x10000 := by
  intro u hu
  have h := toNat_lt_or c
  unfold unitsOf at hu
  split at hu
  · simp only [List.mem_singleton] at hu
    omega
  · simp only [List.mem_cons, List.not_mem_nil, or_false] at hu
    omega

lemma encode_lt (cs : List Char) : ∀ u ∈ encode cs, u < 0x10000 := by
  intro u hu
  obtain ⟨c, -, hc⟩ := List.mem_flatMap.mp hu
  exact unitsOf_lt c u hc

/-- A unit that is not the first half of a pair is a character by itself. -/
lemma decode_cons_of_not_high {u : Nat} (us : List Nat) (h : isHigh u = false) :
    decode (u :: us) = single u :: decode us := by
  cases us with
  | nil => simp [decode]
  | cons v us => simp [decode, h]

lemma decode_unitsOf_append (c : Char) (us : List Nat) :
    decode (unitsOf c ++ us) = c :: decode us := by
  have hc := toNat_lt_or c
  by_cases h : c.toNat < 0x10000
  · have hhigh : isHigh c.toNat = false := by
      simp only [isHigh, Bool.and_eq_false_iff, decide_eq_false_iff_not]
      omega
    have hlow : isLow c.toNat = false := by
      simp only [isLow, Bool.and_eq_false_iff, decide_eq_false_iff_not]
      omega
    rw [unitsOf, if_pos h, List.singleton_append, decode_cons_of_not_high us hhigh]
    simp [single, hhigh, hlow, Char.ofNat_toNat]
  · have hhigh : isHigh (0xD800 + (c.toNat - 0x10000) / 0x400) = true := by
      simp only [isHigh, Bool.and_eq_true, decide_eq_true_eq]
      omega
    have hlow : isLow (0xDC00 + (c.toNat - 0x10000) % 0x400) = true := by
      simp only [isLow, Bool.and_eq_true, decide_eq_true_eq]
      omega
    have hjoin : 0x10000 + (0xD800 + (c.toNat - 0x10000) / 0x400 - 0xD800) * 0x400
        + (0xDC00 + (c.toNat - 0x10000) % 0x400 - 0xDC00) = c.toNat := by
      omega
    rw [unitsOf, if_neg h]
    simp only [List.cons_append, List.nil_append, decode, hhigh, hlow, Bool.and_self, if_true,
      join, hjoin, Char.ofNat_toNat]

lemma decode_encode (cs : List Char) : decode (encode cs) = cs := by
  induction cs with
  | nil => rfl
  | cons c cs ih =>
    rw [encode, List.flatMap_cons, decode_unitsOf_append]
    exact congrArg (c :: ·) ih

end Utf16

/-! ## Bytes -/

lemma continuation?_ofNat {n : Nat} (h : n < 0x40) :
    continuation? (UInt8.ofNat (0x80 + n)) = some n := by
  have hn : (UInt8.ofNat (0x80 + n)).toNat = 0x80 + n := UInt8.toNat_ofNat_of_lt' (by
    simp only [UInt8.size]; omega)
  simp only [continuation?, hn]
  rw [if_pos (by omega)]
  simp

namespace ModifiedUtf8

/-- The bytes of a unit. -/
def unitBytes (u : Nat) : List UInt8 :=
  if 0 < u ∧ u < 0x80 then [.ofNat u]
  else if u < 0x800 then [.ofNat (0xC0 + u / 0x40), .ofNat (0x80 + u % 0x40)]
  else [.ofNat (0xE0 + u / 0x1000), .ofNat (0x80 + u / 0x40 % 0x40), .ofNat (0x80 + u % 0x40)]

/-- The bytes of a text. -/
def encode (cs : List Char) : List UInt8 := (Utf16.encode cs).flatMap unitBytes

/-- The lead byte of a form of two bytes. -/
lemma toNat_lead2 {u : Nat} (h : u < 0x800) :
    (UInt8.ofNat (0xC0 + u / 0x40)).toNat = 0xC0 + u / 0x40 :=
  UInt8.toNat_ofNat_of_lt' (by simp only [UInt8.size]; omega)

/-- The lead byte of a form of three bytes. -/
lemma toNat_lead3 {u : Nat} (h : u < 0x10000) :
    (UInt8.ofNat (0xE0 + u / 0x1000)).toNat = 0xE0 + u / 0x1000 :=
  UInt8.toNat_ofNat_of_lt' (by simp only [UInt8.size]; omega)

lemma units?_unitBytes_append {u : Nat} (hu : u < 0x10000) (bs : List UInt8) :
    units? (unitBytes u ++ bs) = (units? bs).map (u :: ·) := by
  unfold unitBytes
  split
  · -- one byte
    next h =>
    have hn : (UInt8.ofNat u).toNat = u := UInt8.toNat_ofNat_of_lt' (by
      simp only [UInt8.size]; omega)
    rw [List.singleton_append, units?.eq_def]
    simp only [hn]
    rw [if_neg (by omega), if_pos (by omega)]
  · split
    · -- two bytes
      next h =>
      have hb := continuation?_ofNat (n := u % 0x40) (by omega)
      have hsum : u / 0x40 * 0x40 + u % 0x40 = u := by omega
      simp only [List.cons_append, List.nil_append, units?, toNat_lead2 h]
      rw [if_neg (by omega), if_neg (by omega), if_neg (by omega), if_pos (by omega)]
      simp only [hb, Nat.add_sub_cancel_left, hsum, Option.bind_eq_bind, Option.bind_some]
    · -- three bytes
      have hb := continuation?_ofNat (n := u / 0x40 % 0x40) (by omega)
      have hb' := continuation?_ofNat (n := u % 0x40) (by omega)
      have hsum : u / 0x1000 * 0x1000 + u / 0x40 % 0x40 * 0x40 + u % 0x40 = u := by omega
      simp only [List.cons_append, List.nil_append, units?, toNat_lead3 hu]
      rw [if_neg (by omega), if_neg (by omega), if_neg (by omega), if_neg (by omega),
        if_pos (by omega)]
      simp only [hb, hb', Nat.add_sub_cancel_left, hsum, Option.bind_eq_bind, Option.bind_some]

/-- Unit by unit, what is written is what is read. -/
lemma units?_flatMap_unitBytes {us : List Nat} (h : ∀ u ∈ us, u < 0x10000) :
    units? (us.flatMap unitBytes) = some us := by
  induction us with
  | nil => rfl
  | cons u us ih =>
    rw [List.flatMap_cons, units?_unitBytes_append (h u (by simp)),
      ih fun v hv => h v (by simp [hv])]
    rfl

end ModifiedUtf8

/-! ## Agreement with standard UTF-8 -/

namespace Utf8

open ModifiedUtf8 (unitBytes toNat_lead2 toNat_lead3)

/-- Both forms write such a character in the same way. -/
def isPlain (c : Char) : Bool := 0 < c.toNat && c.toNat < 0x10000

lemma char?_toNat {c : Char} (least : Nat) (h : least ≤ c.toNat) :
    char? least c.toNat = some c := by
  rw [char?, if_pos ⟨h, c.valid⟩, Char.ofNat_toNat]

lemma decode?_plain_append {c : Char} (h : isPlain c = true) (bs : List UInt8) :
    decode? (unitBytes c.toNat ++ bs) = (decode? bs).map (c :: ·) := by
  simp only [isPlain, Bool.and_eq_true, decide_eq_true_eq] at h
  unfold unitBytes
  split
  · -- one byte
    next hu =>
    have hn : (UInt8.ofNat c.toNat).toNat = c.toNat := UInt8.toNat_ofNat_of_lt' (by
      simp only [UInt8.size]; omega)
    rw [List.singleton_append, decode?.eq_def]
    simp only [hn, Char.ofNat_toNat]
    rw [if_pos (by omega)]
  · split
    · -- two bytes
      next h1 h2 =>
      have hb := continuation?_ofNat (n := c.toNat % 0x40) (by omega)
      have hsum : c.toNat / 0x40 * 0x40 + c.toNat % 0x40 = c.toNat := by omega
      simp only [List.cons_append, List.nil_append, decode?, toNat_lead2 h2]
      rw [if_neg (by omega), if_neg (by omega), if_pos (by omega)]
      simp only [hb, Nat.add_sub_cancel_left, hsum, Option.bind_eq_bind, Option.bind_some,
        char?_toNat (c := c) 0x80 (by omega)]
    · -- three bytes
      next h1 h2 =>
      have hb := continuation?_ofNat (n := c.toNat / 0x40 % 0x40) (by omega)
      have hb' := continuation?_ofNat (n := c.toNat % 0x40) (by omega)
      have hsum : c.toNat / 0x1000 * 0x1000 + c.toNat / 0x40 % 0x40 * 0x40 + c.toNat % 0x40
          = c.toNat := by omega
      simp only [List.cons_append, List.nil_append, decode?, toNat_lead3 h.2]
      rw [if_neg (by omega), if_neg (by omega), if_neg (by omega), if_pos (by omega)]
      simp only [hb, hb', Nat.add_sub_cancel_left, hsum, Option.bind_eq_bind, Option.bind_some,
        char?_toNat (c := c) 0x800 (by omega)]

/-- The two bytes of U+0000 are an overlong form. -/
lemma decode?_zero_append (bs : List UInt8) : decode? (unitBytes 0 ++ bs) = none := by
  have hb : continuation? (0x80 : UInt8) = some 0 := by decide
  have hc : char? 0x80 0 = none := by decide
  have hu : unitBytes 0 = [0xC0, 0x80] := by decide
  simp [hu, decode?, hb, hc]

/-- Halves are no characters. -/
lemma decode?_half_append {u : Nat} (h : 0xD800 ≤ u ∧ u < 0xE000) (bs : List UInt8) :
    decode? (unitBytes u ++ bs) = none := by
  have hb := continuation?_ofNat (n := u / 0x40 % 0x40) (by omega)
  have hb' := continuation?_ofNat (n := u % 0x40) (by omega)
  have hsum : u / 0x1000 * 0x1000 + u / 0x40 % 0x40 * 0x40 + u % 0x40 = u := by omega
  have hc : char? 0x800 u = none := by
    rw [char?, if_neg]
    unfold Nat.isValidChar
    omega
  rw [unitBytes, if_neg (by omega), if_neg (by omega)]
  simp only [List.cons_append, List.nil_append, decode?, toNat_lead3 (u := u) (by omega)]
  rw [if_neg (by omega), if_neg (by omega), if_neg (by omega), if_pos (by omega)]
  simp only [hb, hb', Nat.add_sub_cancel_left, hsum, hc, Option.bind_eq_bind, Option.bind_some,
    Option.bind_none]

/-- A text in modified UTF-8 is standard UTF-8 exactly if all its characters are plain. -/
lemma decode?_encode (cs : List Char) :
    decode? (ModifiedUtf8.encode cs) = if cs.all isPlain then some cs else none := by
  induction cs with
  | nil => rfl
  | cons c cs ih =>
    have hcons : ModifiedUtf8.encode (c :: cs)
        = (Utf16.unitsOf c).flatMap unitBytes ++ ModifiedUtf8.encode cs := by
      simp [ModifiedUtf8.encode, Utf16.encode]
    have hc := Utf16.toNat_lt_or c
    rw [hcons, Utf16.unitsOf]
    by_cases hplain : isPlain c = true
    · have h := hplain
      simp only [isPlain, Bool.and_eq_true, decide_eq_true_eq] at h
      rw [if_pos h.2]
      simp only [List.flatMap_cons, List.flatMap_nil, List.append_nil,
        decode?_plain_append hplain, ih, List.all_cons, hplain, Bool.true_and]
      split <;> rfl
    · rw [if_neg (by simp [hplain] : ¬ (c :: cs).all isPlain = true)]
      simp only [isPlain, Bool.and_eq_true, decide_eq_true_eq] at hplain
      split
      · have hzero : c.toNat = 0 := by omega
        simp only [List.flatMap_cons, List.flatMap_nil, List.append_nil, hzero,
          decode?_zero_append]
      · simp only [List.flatMap_cons, List.flatMap_nil, List.append_nil, List.append_assoc]
        exact decode?_half_append (by omega) _

end Utf8

namespace ModifiedUtf8

/-- A text that is written and read comes back. -/
theorem decode?_encode (cs : List Char) : decode? (encode cs) = some cs := by
  rw [decode?, Utf8.decode?_encode]
  by_cases h : cs.all Utf8.isPlain = true
  · rw [if_pos h]
    have hzero : '\x00' ∉ cs := by
      intro hmem
      have := List.all_eq_true.mp h _ hmem
      simp [Utf8.isPlain] at this
    simp [hzero]
  · rw [if_neg h]
    simp only [encode, units?_flatMap_unitBytes (Utf16.encode_lt cs), Option.map_some,
      Utf16.decode_encode]

end ModifiedUtf8

end JavaScope.Text
