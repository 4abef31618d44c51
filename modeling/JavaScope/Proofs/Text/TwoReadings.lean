/-
# The two readings of a text

A text in a class file is read as standard UTF-8 if it is well formed as that, and else unit by
unit.  Without bytes from 0xF0 on, which start the forms of four bytes, it makes no difference
which reading is taken (`decode?_eq_map_units?`): standard UTF-8 reads given characters from one
sequence of bytes only (`Utf8.eq_of_decode?`), and characters below U+10000 other than U+0000 are
written alike in both forms.  A text that is written character by character as the format says
comes back (`decode?_charBytes`).
-/
import Mathlib.Data.List.Basic
import JavaScope.Proofs.Text.ModifiedUtf8

namespace JavaScope.Text

/-! ## Standard UTF-8 -/

lemma continuation?_eq_some {b : UInt8} {x : Nat} (h : continuation? b = some x) :
    b.toNat = 0x80 + x ∧ x < 0x40 := by
  unfold continuation? at h
  split at h
  · have hx := Option.some.inj h
    omega
  · cases h

/-- A byte is told by its number. -/
lemma byte_ofNat {b : UInt8} {n : Nat} (h : b.toNat = n) : UInt8.ofNat n = b := by
  rw [← h, UInt8.ofNat_toNat]

lemma toNat_ofNat_of_isValidChar {n : Nat} (h : n.isValidChar) : (Char.ofNat n).toNat = n := by
  rw [Char.ofNat, dif_pos h]
  rfl

namespace Utf8

lemma char?_eq_some {least n : Nat} {c : Char} (h : char? least n = some c) :
    least ≤ n ∧ c.toNat = n := by
  unfold char? at h
  split at h
  · next hvalid =>
    obtain rfl := Option.some.inj h
    exact ⟨hvalid.1, toNat_ofNat_of_isValidChar hvalid.2⟩
  · cases h

/-- What is read as some characters is what these are written as. -/
lemma eq_of_decode? {bytes : List UInt8} {cs : List Char} (h : decode? bytes = some cs) :
    bytes = cs.flatMap String.utf8EncodeChar := by
  fun_induction decode? bytes generalizing cs with
  | case1 =>
    obtain rfl := Option.some.inj h
    rfl
  | case2 b bs n h80 =>
    -- one byte
    rename_i ih
    obtain ⟨cs, hcs, rfl⟩ := Option.map_eq_some_iff.mp h
    have hc : (Char.ofNat n).toNat = n := toNat_ofNat_of_isValidChar (.inl (by omega))
    rw [List.flatMap_cons, ← ih hcs, String.utf8EncodeChar]
    simp only [Char.toNat_val, hc]
    rw [if_pos (by omega), byte_ofNat (b := b) rfl]
    rfl
  | case4 b n h80 hC0 hE0 b₁ rest =>
    -- two bytes
    rename_i ih
    simp only [Option.bind_eq_bind, Option.bind_eq_some_iff] at h
    obtain ⟨x, hx, c, hc, h⟩ := h
    obtain ⟨cs, hcs, rfl⟩ := Option.map_eq_some_iff.mp h
    obtain ⟨hleast, hnat⟩ := char?_eq_some hc
    obtain ⟨hb₁, hx⟩ := continuation?_eq_some hx
    rw [List.flatMap_cons, ← ih hcs, String.utf8EncodeChar]
    simp only [Char.toNat_val, hnat]
    rw [if_neg (by omega), if_pos (by omega), byte_ofNat (b := b) (by omega),
      byte_ofNat (b := b₁) (by omega)]
    rfl
  | case6 b n h80 hC0 hE0 hF0 b₁ b₂ rest =>
    -- three bytes
    rename_i ih
    simp only [Option.bind_eq_bind, Option.bind_eq_some_iff] at h
    obtain ⟨x, hx, y, hy, c, hc, h⟩ := h
    obtain ⟨cs, hcs, rfl⟩ := Option.map_eq_some_iff.mp h
    obtain ⟨hleast, hnat⟩ := char?_eq_some hc
    obtain ⟨hb₁, hx⟩ := continuation?_eq_some hx
    obtain ⟨hb₂, hy⟩ := continuation?_eq_some hy
    rw [List.flatMap_cons, ← ih hcs, String.utf8EncodeChar]
    simp only [Char.toNat_val, hnat]
    rw [if_neg (by omega), if_neg (by omega), if_pos (by omega), byte_ofNat (b := b) (by omega),
      byte_ofNat (b := b₁) (by omega), byte_ofNat (b := b₂) (by omega)]
    rfl
  | case8 b n h80 hC0 hE0 hF0 hF8 b₁ b₂ b₃ rest =>
    -- four bytes
    rename_i ih
    simp only [Option.bind_eq_bind, Option.bind_eq_some_iff] at h
    obtain ⟨x, hx, y, hy, z, hz, c, hc, h⟩ := h
    obtain ⟨cs, hcs, rfl⟩ := Option.map_eq_some_iff.mp h
    obtain ⟨hleast, hnat⟩ := char?_eq_some hc
    obtain ⟨hb₁, hx⟩ := continuation?_eq_some hx
    obtain ⟨hb₂, hy⟩ := continuation?_eq_some hy
    obtain ⟨hb₃, hz⟩ := continuation?_eq_some hz
    rw [List.flatMap_cons, ← ih hcs, String.utf8EncodeChar]
    simp only [Char.toNat_val, hnat]
    rw [if_neg (by omega), if_neg (by omega), if_neg (by omega), byte_ofNat (b := b) (by omega),
      byte_ofNat (b := b₁) (by omega), byte_ofNat (b := b₂) (by omega),
      byte_ofNat (b := b₃) (by omega)]
    rfl
  | _ => cases h

/-- Only U+0000 is written with a zero byte. -/
lemma eq_zero_of_zero_mem {c : Char} (h : 0 ∈ String.utf8EncodeChar c) : c = '\x00' := by
  have hc := Utf16.toNat_lt_or c
  have hne {n : Nat} (hpos : 0 < n) (hn : n < 256) : 0 ≠ UInt8.ofNat n := by
    intro heq
    have hnat := congrArg UInt8.toNat heq
    rw [UInt8.toNat_ofNat_of_lt' hn] at hnat
    exact absurd hnat (Nat.ne_of_lt hpos)
  by_cases hzero : c.toNat = 0
  · rw [← Char.ofNat_toNat c, hzero]
  · exfalso
    simp only [String.utf8EncodeChar, Char.toNat_val] at h
    split at h
    · exact hne (by omega) (by omega) (List.mem_singleton.mp h)
    -- the bytes of longer forms are 0x80 at least
    split at h
    · simp only [List.mem_cons, List.not_mem_nil, or_false] at h
      rcases h with h | h <;> exact hne (by omega) (by omega) h
    split at h
    · simp only [List.mem_cons, List.not_mem_nil, or_false] at h
      rcases h with h | h | h <;> exact hne (by omega) (by omega) h
    · simp only [List.mem_cons, List.not_mem_nil, or_false] at h
      rcases h with h | h | h | h <;> exact hne (by omega) (by omega) h

/-- Characters above U+FFFF are written with a byte from 0xF0 on. -/
lemma lt_of_utf8EncodeChar {c : Char} (h : ∀ b ∈ String.utf8EncodeChar c, b.toNat < 0xF0) :
    c.toNat < 0x10000 := by
  refine Nat.lt_of_not_ge fun hc => ?_
  have hlt := Utf16.toNat_lt_or c
  rw [String.utf8EncodeChar] at h
  simp only [Char.toNat_val] at h
  rw [if_neg (by omega), if_neg (by omega), if_neg (by omega)] at h
  have hlead := h _ List.mem_cons_self
  rw [UInt8.toNat_ofNat_of_lt' (by simp only [UInt8.size]; omega)] at hlead
  omega

end Utf8

/-! ## Characters -/

namespace ModifiedUtf8

/-- The three bytes of half a pair. -/
def halfBytes (u : Nat) : List UInt8 :=
  [.ofNat (0xE0 + u / 0x1000), .ofNat (0x80 + u / 0x40 % 0x40), .ofNat (0x80 + u % 0x40)]

/-- The bytes of a character: two for U+0000, and three for each half of a character above U+FFFF.
All others are written as in standard UTF-8. -/
def charBytes (c : Char) : List UInt8 :=
  if c = '\x00' then [0xC0, 0x80]
  else if c.toNat < 0x10000 then String.utf8EncodeChar c
  else (Utf16.unitsOf c).flatMap halfBytes

/-- A character is written unit by unit. -/
lemma charBytes_eq (c : Char) : charBytes c = (Utf16.unitsOf c).flatMap unitBytes := by
  have hc := Utf16.toNat_lt_or c
  by_cases hzero : c = '\x00'
  · subst hzero
    decide
  have hpos : 0 < c.toNat := by
    refine Nat.pos_of_ne_zero fun hnat => hzero ?_
    rw [← Char.ofNat_toNat c, hnat]
  rw [charBytes, if_neg hzero]
  by_cases hlt : c.toNat < 0x10000
  · rw [if_pos hlt, Utf16.unitsOf, if_pos hlt, List.flatMap_singleton, unitBytes,
      String.utf8EncodeChar]
    simp only [Char.toNat_val]
    by_cases h80 : c.toNat < 0x80
    · rw [if_pos (by omega), if_pos ⟨hpos, h80⟩]
    by_cases h800 : c.toNat < 0x800
    · rw [if_neg (by omega), if_pos (by omega), if_neg (by omega), if_pos h800,
        Nat.mod_eq_of_lt (show c.toNat / 64 < 32 by omega), Nat.add_comm, Nat.add_comm (_ % _)]
    · rw [if_neg (by omega), if_neg (by omega), if_pos (by omega), if_neg (by omega),
        if_neg h800, Nat.mod_eq_of_lt (show c.toNat / 4096 < 16 by omega), Nat.add_comm,
        Nat.add_comm (c.toNat / 64 % 64), Nat.add_comm (c.toNat % 64)]
  · have hhalf {u : Nat} (hu : 0x800 ≤ u) : halfBytes u = unitBytes u := by
      rw [unitBytes, if_neg (by omega), if_neg (by omega), halfBytes]
    rw [if_neg hlt, Utf16.unitsOf, if_neg hlt]
    simp only [List.flatMap_cons, List.flatMap_nil]
    rw [hhalf (by omega), hhalf (by omega)]

lemma flatMap_charBytes (cs : List Char) : cs.flatMap charBytes = encode cs := by
  rw [encode, Utf16.encode, List.flatMap_assoc]
  exact List.flatMap_congr fun c _ => charBytes_eq c

/-- A text comes back that is written character by character. -/
theorem decode?_charBytes (s : String) :
    (decode? (s.toList.flatMap charBytes)).map String.ofList = some s := by
  rw [flatMap_charBytes, decode?_encode, Option.map_some, String.ofList_toList]

/-! ## Both readings -/

/-- No unit has a zero byte. -/
lemma zero_notMem_of_units? {bytes : List UInt8} {us : List Nat} (h : units? bytes = some us) :
    0 ∉ bytes := by
  have hne {b : UInt8} (hb : b.toNat ≠ 0) : 0 ≠ b := by
    rintro rfl
    exact hb rfl
  fun_induction units? bytes generalizing us with
  | case1 => exact List.not_mem_nil
  | case3 b bs n h0 h80 =>
    rename_i ih
    obtain ⟨us, hus, -⟩ := Option.map_eq_some_iff.mp h
    simp only [List.mem_cons, not_or]
    exact ⟨hne h0, ih hus⟩
  | case5 b n h0 h80 hC0 hE0 b₁ rest =>
    rename_i ih
    simp only [Option.bind_eq_bind, Option.bind_eq_some_iff] at h
    obtain ⟨x, hx, h⟩ := h
    obtain ⟨us, hus, -⟩ := Option.map_eq_some_iff.mp h
    have hb₁ := (continuation?_eq_some hx).1
    simp only [List.mem_cons, not_or]
    exact ⟨hne h0, hne (by omega), ih hus⟩
  | case7 b n h0 h80 hC0 hE0 hF0 b₁ b₂ rest =>
    rename_i ih
    simp only [Option.bind_eq_bind, Option.bind_eq_some_iff] at h
    obtain ⟨x, hx, y, hy, h⟩ := h
    obtain ⟨us, hus, -⟩ := Option.map_eq_some_iff.mp h
    have hb₁ := (continuation?_eq_some hx).1
    have hb₂ := (continuation?_eq_some hy).1
    simp only [List.mem_cons, not_or]
    exact ⟨hne h0, hne (by omega), hne (by omega), ih hus⟩
  | _ => cases h

lemma units?_of_zero_mem {bytes : List UInt8} (h : 0 ∈ bytes) : units? bytes = none :=
  Option.eq_none_iff_forall_ne_some.mpr fun _ hus => zero_notMem_of_units? hus h

/-- A zero byte makes either reading refuse the text. -/
lemma decode?_of_zero_mem {bytes : List UInt8} (h : 0 ∈ bytes) : decode? bytes = none := by
  rw [decode?]
  cases hstd : Utf8.decode? bytes with
  | none => rw [units?_of_zero_mem h]; rfl
  | some cs =>
    rw [Utf8.eq_of_decode? hstd] at h
    obtain ⟨c, hc, hzero⟩ := List.mem_flatMap.mp h
    obtain rfl := Utf8.eq_zero_of_zero_mem hzero
    exact if_pos hc

/-- Without bytes from 0xF0 on, a text is read as if there were only the reading unit by unit.
Neither reading accepts a zero byte. -/
theorem decode?_eq_map_units? {bytes : List UInt8} (h : ∀ b ∈ bytes, b < 0xF0) :
    decode? bytes = (units? bytes).map Utf16.decode ∧
      (0 ∈ bytes → decode? bytes = none ∧ units? bytes = none) := by
  refine ⟨?_, fun hzero => ⟨decode?_of_zero_mem hzero, units?_of_zero_mem hzero⟩⟩
  by_cases hzero : 0 ∈ bytes
  · rw [decode?_of_zero_mem hzero, units?_of_zero_mem hzero, Option.map_none]
  cases hstd : Utf8.decode? bytes with
  | none => rw [decode?, hstd]
  | some cs =>
    have hbytes := Utf8.eq_of_decode? hstd
    -- each of the characters is written alike in both forms
    have halike : ∀ c ∈ cs, String.utf8EncodeChar c = charBytes c := by
      intro c hc
      have hmem : ∀ b ∈ String.utf8EncodeChar c, b ∈ bytes := fun b hb =>
        hbytes ▸ List.mem_flatMap.mpr ⟨c, hc, hb⟩
      have hplain : c ≠ '\x00' := by
        rintro rfl
        exact hzero (hmem 0 (by decide))
      have hlt := Utf8.lt_of_utf8EncodeChar fun b hb => UInt8.lt_iff_toNat_lt.mp (h b (hmem b hb))
      rw [charBytes, if_neg hplain, if_pos hlt]
    rw [List.flatMap_congr halike, flatMap_charBytes] at hbytes
    rw [hbytes, decode?_encode, encode, units?_flatMap_unitBytes (Utf16.encode_lt cs),
      Option.map_some, Utf16.decode_encode]

/-- A text of characters of one, two and three bytes is read by both. -/
theorem decode?_eq_map_units?_shortForms :
    (∀ b ∈ ([0x41, 0xC3, 0xA9, 0xE2, 0x82, 0xAC] : List UInt8), b < 0xF0) ∧
      decode? [0x41, 0xC3, 0xA9, 0xE2, 0x82, 0xAC] = some ['A', 'é', '€'] ∧
      decode? [0x41, 0xC3, 0xA9, 0xE2, 0x82, 0xAC] =
        (units? [0x41, 0xC3, 0xA9, 0xE2, 0x82, 0xAC]).map Utf16.decode := by
  have hlow : ∀ b ∈ ([0x41, 0xC3, 0xA9, 0xE2, 0x82, 0xAC] : List UInt8), b < 0xF0 := by simp
  exact ⟨hlow, by decide, (decode?_eq_map_units? hlow).1⟩

/-- Four bytes of standard UTF-8 make a character, but no units. -/
example : decode? [0xF0, 0x9F, 0x98, 0x80] = some ['😀'] ∧ units? [0xF0, 0x9F, 0x98, 0x80] = none := by
  decide

end ModifiedUtf8

end JavaScope.Text
