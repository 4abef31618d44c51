/-
# Shortest decimals

A binary floating-point number stands for the interval of reals that round to it.  It is
written with the fewest decimal digits of any number in that interval; of several such
numbers the nearest is taken, and of two equally near ones the greater.  All arithmetic is
on natural numbers, so the digits are exact for every format.
-/

namespace JavaScope.Decimal

/-! ## Binary numbers -/

/-- A binary interchange format: one sign bit, then the exponent, then the fraction. -/
structure Format where
  exponentBits : Nat
  fractionBits : Nat
deriving DecidableEq, Repr

/-- Single precision. -/
def binary32 : Format := ⟨8, 23⟩

/-- Double precision. -/
def binary64 : Format := ⟨11, 52⟩

/-- The magnitude `mantissa * 2 ^ exponent`. -/
structure Binary where
  mantissa : Nat
  exponent : Int
  /-- The number below is half as far away as the number above. -/
  narrowBelow : Bool
deriving DecidableEq, Repr

/-- What the bits of a format stand for. -/
inductive Number
  | nan
  | infinite (negative : Bool)
  | finite (negative : Bool) (magnitude : Binary)
deriving DecidableEq, Repr

namespace Format

/-- The greatest exponent field, which marks infinities and non-numbers. -/
def specialExponent (f : Format) : Nat := Nat.pow 2 f.exponentBits - 1

/-- The exponent of the last fraction bit of the smallest numbers. -/
def leastExponent (f : Format) : Int :=
  2 - (Nat.pow 2 (f.exponentBits - 1) : Nat) - (f.fractionBits : Int)

/-- The fraction field. -/
def fraction (f : Format) (bits : Nat) : Nat := bits % Nat.pow 2 f.fractionBits

/-- The exponent field. -/
def exponent (f : Format) (bits : Nat) : Nat :=
  bits / Nat.pow 2 f.fractionBits % Nat.pow 2 f.exponentBits

/-- The sign bit. -/
def isNegative (f : Format) (bits : Nat) : Bool :=
  bits / Nat.pow 2 (f.fractionBits + f.exponentBits) % 2 = 1

/-- A non-number. -/
def isNaN (f : Format) (bits : Nat) : Bool :=
  f.exponent bits = f.specialExponent && f.fraction bits ≠ 0

/-- One of the two zeros. -/
def isZero (f : Format) (bits : Nat) : Bool :=
  f.exponent bits = 0 && f.fraction bits = 0

/-- The number that the bits stand for. -/
def decode (f : Format) (bits : Nat) : Number :=
  let e := f.exponent bits
  let m := f.fraction bits
  if e = f.specialExponent then
    if m = 0 then .infinite (f.isNegative bits) else .nan
  else if e = 0 then .finite (f.isNegative bits) ⟨m, f.leastExponent, false⟩
  else
    .finite (f.isNegative bits)
      ⟨Nat.pow 2 f.fractionBits + m, f.leastExponent + (e - 1 : Nat), m = 0 && 1 < e⟩

/-- Equality of numbers: the two zeros are equal, and a non-number equals nothing. -/
def sameNumber (f : Format) (a b : Nat) : Bool :=
  !f.isNaN a && !f.isNaN b && (a = b || (f.isZero a && f.isZero b))

end Format

/-! ## The digits -/

/-- The number `digits * 10 ^ exponent`. -/
structure Scaled where
  digits : Nat
  exponent : Int
deriving DecidableEq, Repr

/-- Compares `a * 10 ^ i` with `n * 2 ^ j`. -/
def compareScaled (a : Nat) (i : Int) (n : Nat) (j : Int) : Ordering :=
  compare (a * Nat.pow 10 i.toNat * Nat.pow 2 (-j).toNat)
    (n * Nat.pow 2 j.toNat * Nat.pow 10 (-i).toNat)

namespace Binary

/-- The decimal is one of the reals that round to `x`: it lies between the midpoints to the
numbers below and above.  The midpoints belong to `x` when its mantissa is even. -/
def readsBack (x : Binary) (d : Scaled) : Bool :=
  let low := if x.narrowBelow then 4 * x.mantissa - 1 else 4 * x.mantissa - 2
  let high := 4 * x.mantissa + 2
  let closed := x.mantissa % 2 = 0
  let fromLow := compareScaled d.digits d.exponent low (x.exponent - 2)
  let fromHigh := compareScaled d.digits d.exponent high (x.exponent - 2)
  (fromLow = .gt || (closed && fromLow = .eq)) && (fromHigh = .lt || (closed && fromHigh = .eq))

/-- The multiple of `10 ^ e` at or below `x`, as a count. -/
def floorAt (x : Binary) (e : Int) : Nat :=
  (x.mantissa * Nat.pow 2 x.exponent.toNat * Nat.pow 10 (-e).toNat)
    / (Nat.pow 2 (-x.exponent).toNat * Nat.pow 10 e.toNat)

/-- The numbers of digits before the point, up to `fuel` less than `k`: the least power of
ten above `x`, given that `10 ^ k` is above it. -/
def scaleFrom (x : Binary) : Nat → Int → Int
  | 0, k => k
  | fuel + 1, k =>
    if compareScaled 1 (k - 1) x.mantissa x.exponent = .gt then x.scaleFrom fuel (k - 1) else k

/-- The least `k` with `x < 10 ^ k`, for a positive `x`.  As `x` is below `2 ^ b` for its bit
length `b`, and `2 ^ b` below `10 ^ b` or `10 ^ (b / 3 + 1)`, the search starts there. -/
def scale (x : Binary) : Int :=
  let length : Int := (Nat.log2 x.mantissa + 1 : Nat) + x.exponent
  let start : Int := if 0 ≤ length then length / 3 + 1 else length / 4 + 1
  x.scaleFrom (length.natAbs + 3) start

/-- The nearer of the two neighbours of `x` among the multiples of `10 ^ e` that read back
as `x`, the greater one if they are equally near. -/
def onGrid? (x : Binary) (e : Int) : Option Scaled :=
  let n := x.floorAt e
  let below : Scaled := ⟨n, e⟩
  let above : Scaled := ⟨n + 1, e⟩
  match x.readsBack below, x.readsBack above with
  | true, true =>
    if compareScaled (2 * n + 1) e x.mantissa (x.exponent + 1) = .gt then some below
    else some above
  | true, false => some below
  | false, true => some above
  | false, false => none

/-- The exact value as a decimal. -/
def exact (x : Binary) : Scaled :=
  ⟨x.mantissa * Nat.pow 2 x.exponent.toNat * Nat.pow 5 (-x.exponent).toNat,
    -((-x.exponent).toNat : Int)⟩

/-- The first hit among the grids of `digits`, `digits + 1`, … digits, `fuel` of them; the
exact value if there is none. -/
def search (x : Binary) (k : Int) : Nat → Nat → Scaled
  | 0, _ => x.exact
  | fuel + 1, digits =>
    match x.onGrid? (k - digits) with
    | some d => d
    | none => x.search k fuel (digits + 1)

/-- The shortest decimal of a positive number; seventeen digits are enough for the widest
format here. -/
def shortest (x : Binary) : Scaled := x.search x.scale 17 1

end Binary

/-! ## Positional notation -/

namespace Scaled

/-- The same number with `fuel` trailing zeros at most moved into the exponent. -/
def normalize : Nat → Scaled → Scaled
  | 0, d => d
  | fuel + 1, d =>
    if d.digits % 10 = 0 ∧ d.digits ≠ 0 then normalize fuel ⟨d.digits / 10, d.exponent + 1⟩ else d

/-- The number without an exponent: zeros fill up to the point on either side, and there is
no point behind a whole number. -/
def positional (d : Scaled) : List Char :=
  let ds := Nat.toDigits 10 d.digits
  if 0 ≤ d.exponent then ds ++ List.replicate d.exponent.toNat '0'
  else
    let places := (-d.exponent).toNat
    if places < ds.length then
      ds.take (ds.length - places) ++ '.' :: ds.drop (ds.length - places)
    else '0' :: '.' :: (List.replicate (places - ds.length) '0' ++ ds)

end Scaled

/-- The text of a magnitude. -/
def Binary.text (x : Binary) : List Char :=
  if x.mantissa = 0 then ['0']
  else
    let d := x.shortest
    (d.normalize (Nat.toDigits 10 d.digits).length).positional

/-- The text of a number: `NaN`, `inf` and `-inf` for the special ones, and a sign before
every negative one, negative zero included. -/
def Number.text : Number → String
  | .nan => "NaN"
  | .infinite negative => if negative then "-inf" else "inf"
  | .finite negative x => String.ofList (if negative then '-' :: x.text else x.text)

end JavaScope.Decimal
