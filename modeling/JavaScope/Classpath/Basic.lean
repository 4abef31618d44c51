/-
# Classpaths

A classpath gives the bytes of a class by the internal name of the class.  Absence is an
answer; only a failure to read is an error.  Classes may be held in memory, and classpaths
may be searched one after the other.
-/
import JavaScope.ClassFile.Error

namespace JavaScope

/-- Where class bytes come from. -/
structure Classpath where
  /-- The bytes of the class with this internal name; none if there is no such class. -/
  classBytes : String → Except ReadError (Option (List UInt8))

namespace Classpath

/-- Searches several classpaths in order.  The first that has the class, or fails,
decides. -/
def search : List Classpath → String → Except ReadError (Option (List UInt8))
  | [], _ => .ok none
  | p :: rest, name => do
    match ← p.classBytes name with
    | some bytes => return some bytes
    | none => search rest name

/-- Several classpaths as one. -/
def composite (parts : List Classpath) : Classpath := ⟨search parts⟩

end Classpath

/-! ## Classes in memory -/

/-- Class files held in memory, by internal name, in the order in which their names were
first inserted. -/
structure MemoryClasspath where
  classes : List (String × List UInt8) := []
deriving Repr, Inhabited

namespace MemoryClasspath

/-- The bytes of a class. -/
def get? (m : MemoryClasspath) (name : String) : Option (List UInt8) := m.classes.lookup name

/-- There is a class of this name. -/
def contains (m : MemoryClasspath) (name : String) : Bool := (m.get? name).isSome

/-- Adds a class.  If there is one of that name, its bytes are replaced in place. -/
def insert (m : MemoryClasspath) (name : String) (bytes : List UInt8) : MemoryClasspath :=
  if m.contains name then
    ⟨m.classes.map fun (n, old) => (n, if n = name then bytes else old)⟩
  else ⟨m.classes ++ [(name, bytes)]⟩

/-- Removes a class.  The others keep their order. -/
def erase (m : MemoryClasspath) (name : String) : MemoryClasspath :=
  ⟨m.classes.filter (·.1 ≠ name)⟩

/-- The names of all classes. -/
def names (m : MemoryClasspath) : List String := m.classes.map (·.1)

/-- The number of classes. -/
def size (m : MemoryClasspath) : Nat := m.classes.length

/-- The classes as a classpath, which cannot fail. -/
def toClasspath (m : MemoryClasspath) : Classpath := ⟨fun name => .ok (m.get? name)⟩

end MemoryClasspath

end JavaScope
