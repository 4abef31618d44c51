/-
# Constant pools

A class file keeps its texts and numbers in a pool and refers to them by index.  Index 0 is
never used, and a constant of eight bytes takes two indices, the second of which is unused
too.  Only the constants that a class stub can show are kept in decoded form.
-/
import JavaScope.ClassFile.Cursor
import JavaScope.Text.ModifiedUtf8

namespace JavaScope

/-- A constant of the pool.  Numbers are kept as stored. -/
inductive Constant
  | utf8 (text : String)
  | integer (bits : UInt32)
  | float (bits : UInt32)
  | long (bits : UInt64)
  | double (bits : UInt64)
  /-- A class, by the index of its name. -/
  | classEntry (name : UInt16)
  /-- A string, by the index of its text. -/
  | string (text : UInt16)
  /-- Members, method handles, modules and other constants that are only skipped. -/
  | other
deriving DecidableEq, Repr, Inhabited

namespace Constant

/-- The constant takes two indices. -/
def isWide : Constant → Bool
  | long _ | double _ => true
  | _ => false

/-- The number of bytes behind the tag of a constant that is only skipped. -/
def skippedWidth? (tag : UInt8) : Option Nat :=
  if tag = 9 ∨ tag = 10 ∨ tag = 11 ∨ tag = 12 ∨ tag = 17 ∨ tag = 18 then some 4
  else if tag = 15 then some 3
  else if tag = 16 ∨ tag = 19 ∨ tag = 20 then some 2
  else none

/-- The constant behind a tag.  Errors about the tag and the text name the offset `start`
of the tag. -/
def readBody (start : Nat) (tag : UInt8) : Read Constant :=
  if tag = 1 then do
    let length ← Read.u16
    let bytes ← Read.bytes length.toNat
    match Text.ModifiedUtf8.decode? bytes with
    | some cs => return utf8 (String.ofList cs)
    | none => Read.fail (.malformed start .badText)
  else if tag = 3 then return integer (← Read.u32)
  else if tag = 4 then return float (← Read.u32)
  else if tag = 5 then return long (← Read.u64)
  else if tag = 6 then return double (← Read.u64)
  else if tag = 7 then return classEntry (← Read.u16)
  else if tag = 8 then return string (← Read.u16)
  else
    match skippedWidth? tag with
    | some width => do
      let _ ← Read.bytes width
      return other
    | none => Read.fail (.malformed start (.unknownConstantTag tag))

/-- A constant with its tag. -/
def read : Read Constant := do
  let start ← Read.offset
  let tag ← Read.u8
  readBody start tag

end Constant

/-- A constant pool: the constant at each index, if the index is used. -/
structure Pool where
  slots : List (Option Constant)
deriving DecidableEq, Repr, Inhabited

namespace Pool

/-- The constants of the next `n` indices. -/
def readSlots : Nat → Read (List (Option Constant))
  | 0 => pure []
  | n + 1 => do
    let start ← Read.offset
    let k ← Constant.read
    if k.isWide then
      match n with
      | 0 => Read.fail (.malformed start .wideInLastSlot)
      | m + 1 => return some k :: none :: (← readSlots m)
    else return some k :: (← readSlots n)

/-- A pool.  Its count includes the unused index 0. -/
def read : Read Pool := do
  let count ← Read.u16
  if count = 0 then
    Read.fail (.malformed (← Read.offset) .emptyPool)
  else
    return ⟨none :: (← readSlots (count.toNat - 1))⟩

/-! ## Look-up

An error about an index is reported at offset 0, as an index has no place of its own. -/

/-- The error of an index that leads to nothing usable or to a constant of another sort. -/
def badIndex (index : UInt16) (expected : PoolExpectation) : ClassError :=
  .malformed 0 (.badPoolIndex index expected)

/-- The constant at an index. -/
def constant (p : Pool) (index : UInt16) : Except ClassError Constant :=
  match p.slots[index.toNat]? with
  | some (some k) => .ok k
  | _ => .error (badIndex index .usableEntry)

/-- The text at an index. -/
def utf8 (p : Pool) (index : UInt16) : Except ClassError String := do
  match ← p.constant index with
  | .utf8 s => return s
  | _ => throw (badIndex index .utf8)

/-- The internal name of the class at an index. -/
def className (p : Pool) (index : UInt16) : Except ClassError String := do
  match ← p.constant index with
  | .classEntry name => p.utf8 name
  | _ => throw (badIndex index .classEntry)

/-- The text of the string at an index. -/
def string (p : Pool) (index : UInt16) : Except ClassError String := do
  match ← p.constant index with
  | .string text => p.utf8 text
  | _ => throw (badIndex index .string)

/-- The integer at an index. -/
def integer (p : Pool) (index : UInt16) : Except ClassError UInt32 := do
  match ← p.constant index with
  | .integer bits => return bits
  | _ => throw (badIndex index .integer)

/-- The long integer at an index. -/
def long (p : Pool) (index : UInt16) : Except ClassError UInt64 := do
  match ← p.constant index with
  | .long bits => return bits
  | _ => throw (badIndex index .long)

/-- The single-precision number at an index. -/
def float (p : Pool) (index : UInt16) : Except ClassError UInt32 := do
  match ← p.constant index with
  | .float bits => return bits
  | _ => throw (badIndex index .float)

/-- The double-precision number at an index. -/
def double (p : Pool) (index : UInt16) : Except ClassError UInt64 := do
  match ← p.constant index with
  | .double bits => return bits
  | _ => throw (badIndex index .double)

/-! ## References -/

/-- The text that the next index leads to. -/
def readUtf8 (p : Pool) : Read String := do
  Read.ofExcept (p.utf8 (← Read.u16))

/-- The name of the class that the next index leads to. -/
def readClassName (p : Pool) : Read String := do
  Read.ofExcept (p.className (← Read.u16))

/-- An optional reference: index 0 stands for absence. -/
def readOptional (look : UInt16 → Except ClassError String) : Read (Option String) := do
  let index ← Read.u16
  if index = 0 then return none else return some (← Read.ofExcept (look index))

/-- The text that the next index leads to, if it is not 0. -/
def readUtf8? (p : Pool) : Read (Option String) := readOptional p.utf8

/-- The name of the class that the next index leads to, if it is not 0. -/
def readClassName? (p : Pool) : Read (Option String) := readOptional p.className

end Pool

end JavaScope
