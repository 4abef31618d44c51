/-
# Modified UTF-8

Class files store text in a variant of UTF-8: the character U+0000 takes two bytes, and a
character above U+FFFF is written as the two halves of its UTF-16 form, three bytes each.
Many producers write standard UTF-8 instead, so a text is first read as that, and only if
it is not well formed as a sequence of 16-bit units of one to three bytes.  No byte of a
text is zero in either reading.
-/

namespace JavaScope.Text

/-- The six payload bits of a continuation byte, none if `b` is not one. -/
def continuation? (b : UInt8) : Option Nat :=
  if 0x80 ≤ b.toNat ∧ b.toNat < 0xC0 then some (b.toNat - 0x80) else none

/-! ## Standard UTF-8 -/

namespace Utf8

/-- The character with number `n`, refused below `least` (an overlong form) and where no
character has that number. -/
def char? (least n : Nat) : Option Char :=
  if least ≤ n ∧ n.isValidChar then some (Char.ofNat n) else none

/-- The characters of a well-formed sequence of bytes. -/
def decode? : List UInt8 → Option (List Char)
  | [] => some []
  | b :: bs =>
    let n := b.toNat
    if n < 0x80 then (decode? bs).map (Char.ofNat n :: ·)
    else if n < 0xC0 then none
    else if n < 0xE0 then
      match bs with
      | b₁ :: rest => do
        let c ← char? 0x80 ((n - 0xC0) * 0x40 + (← continuation? b₁))
        (decode? rest).map (c :: ·)
      | _ => none
    else if n < 0xF0 then
      match bs with
      | b₁ :: b₂ :: rest => do
        let c ← char? 0x800
          ((n - 0xE0) * 0x1000 + (← continuation? b₁) * 0x40 + (← continuation? b₂))
        (decode? rest).map (c :: ·)
      | _ => none
    else if n < 0xF8 then
      match bs with
      | b₁ :: b₂ :: b₃ :: rest => do
        let c ← char? 0x10000
          ((n - 0xF0) * 0x40000 + (← continuation? b₁) * 0x1000
            + (← continuation? b₂) * 0x40 + (← continuation? b₃))
        (decode? rest).map (c :: ·)
      | _ => none
    else none

end Utf8

/-! ## Units of sixteen bits -/

namespace Utf16

/-- The first half of a character above U+FFFF. -/
def isHigh (u : Nat) : Bool := 0xD800 ≤ u && u < 0xDC00

/-- The second half of a character above U+FFFF. -/
def isLow (u : Nat) : Bool := 0xDC00 ≤ u && u < 0xE000

/-- The character that two halves make. -/
def join (high low : Nat) : Char :=
  Char.ofNat (0x10000 + (high - 0xD800) * 0x400 + (low - 0xDC00))

/-- Stands for a half that has lost its other half. -/
def replacement : Char := '\uFFFD'

/-- The character of a unit that is half of no pair. -/
def single (u : Nat) : Char :=
  if isHigh u || isLow u then replacement else Char.ofNat u

/-- The characters of a sequence of units below 2¹⁶. -/
def decode : List Nat → List Char
  | [] => []
  | [u] => [single u]
  | u :: v :: us =>
    if isHigh u && isLow v then join u v :: decode us else single u :: decode (v :: us)

end Utf16

/-! ## The text of a constant -/

namespace ModifiedUtf8

/-- The units of a sequence of forms of one, two or three bytes.  Overlong forms are
accepted, among them the two bytes of U+0000; a zero byte and the lead bytes of longer
forms are not. -/
def units? : List UInt8 → Option (List Nat)
  | [] => some []
  | b :: bs =>
    let n := b.toNat
    if n = 0 then none
    else if n < 0x80 then (units? bs).map (n :: ·)
    else if n < 0xC0 then none
    else if n < 0xE0 then
      match bs with
      | b₁ :: rest => do
        let u := (n - 0xC0) * 0x40 + (← continuation? b₁)
        (units? rest).map (u :: ·)
      | _ => none
    else if n < 0xF0 then
      match bs with
      | b₁ :: b₂ :: rest => do
        let u := (n - 0xE0) * 0x1000 + (← continuation? b₁) * 0x40 + (← continuation? b₂)
        (units? rest).map (u :: ·)
      | _ => none
    else none

/-- The text of a constant: read as standard UTF-8 if it is well formed, which forbids
U+0000, and else unit by unit. -/
def decode? (bytes : List UInt8) : Option (List Char) :=
  match Utf8.decode? bytes with
  | some cs => if '\x00' ∈ cs then none else some cs
  | none => (units? bytes).map Utf16.decode

end ModifiedUtf8

end JavaScope.Text
