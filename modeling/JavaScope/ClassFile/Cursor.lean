/-
# Cursors over class-file bytes

A cursor stands in front of a piece of a class file and knows the offset of that piece in
the whole file, which error messages report.  A *read* moves a cursor over the bytes that
it takes; numbers are stored with their most significant byte first.
-/
import JavaScope.ClassFile.Error

namespace JavaScope

/-- A position in a class file, with the bytes that may be read from there. -/
structure Cursor where
  offset : Nat
  rest : List UInt8
deriving DecidableEq, Repr, Inhabited

/-- A cursor in front of a whole file. -/
def Cursor.start (bytes : List UInt8) : Cursor := ⟨0, bytes⟩

/-- Takes something off the bytes in front of a cursor, or fails. -/
def Read (α : Type) : Type := Cursor → Except ClassError (α × Cursor)

namespace Read

instance : Monad Read where
  pure a := fun c => .ok (a, c)
  bind x f := fun c =>
    match x c with
    | .ok (a, c') => f a c'
    | .error e => .error e

variable {α : Type}

/-- Fails with a given error. -/
def fail (e : ClassError) : Read α := fun _ => .error e

/-- A result that is there without reading. -/
def ofExcept (x : Except ClassError α) : Read α := fun c => x.map (·, c)

/-- The offset of the cursor. -/
def offset : Read Nat := fun c => .ok (c.offset, c)

/-- The error of a read that needs more bytes than there are. -/
def tooShort (needed : Nat) : Read α := fun c =>
  .error (.malformed c.offset (.endOfInput needed c.rest.length))

/-- The next `n` bytes. -/
def bytes (n : Nat) : Read (List UInt8) := fun c =>
  let taken := c.rest.take n
  if taken.length = n then .ok (taken, ⟨c.offset + n, c.rest.drop n⟩) else tooShort n c

/-- A byte. -/
def u8 : Read UInt8 := fun c =>
  match c.rest with
  | a :: rest => .ok (a, ⟨c.offset + 1, rest⟩)
  | _ => tooShort 1 c

/-- The number with these two bytes. -/
def word16 (a b : UInt8) : UInt16 := a.toUInt16 <<< 8 ||| b.toUInt16

/-- A number of two bytes. -/
def u16 : Read UInt16 := fun c =>
  match c.rest with
  | a :: b :: rest => .ok (word16 a b, ⟨c.offset + 2, rest⟩)
  | _ => tooShort 2 c

/-- The number with these two halves. -/
def word32 (high low : UInt16) : UInt32 := high.toUInt32 <<< 16 ||| low.toUInt32

/-- A number of four bytes. -/
def u32 : Read UInt32 := fun c =>
  match c.rest with
  | a :: b :: d :: e :: rest => .ok (word32 (word16 a b) (word16 d e), ⟨c.offset + 4, rest⟩)
  | _ => tooShort 4 c

/-- The number with these two halves. -/
def word64 (high low : UInt32) : UInt64 := high.toUInt64 <<< 32 ||| low.toUInt64

/-- A number of eight bytes, read in two halves. -/
def u64 : Read UInt64 := do
  let high ← u32
  let low ← u32
  return word64 high low

/-- Reads the same thing `n` times. -/
def times (n : Nat) (x : Read α) : Read (List α) :=
  match n with
  | 0 => pure []
  | n + 1 => do
    let a ← x
    let rest ← times n x
    return a :: rest

/-- Fails unless all bytes were read. -/
def expectEnd (what : String) : Read Unit := fun c =>
  if c.rest.isEmpty then .ok ((), c)
  else .error (.malformed c.offset (.trailingBytes c.rest.length what))

end Read

end JavaScope
