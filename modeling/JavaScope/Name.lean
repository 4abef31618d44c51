/-
# Spellings of class names

A class has three spellings.  Its *binary* name (`java.util.Map$Entry`) separates packages
by dots and nesting by dollars, its *internal* name (`java/util/Map$Entry`) is the one that
class files store, and its *simple* name (`Entry`) is what source code writes without a
qualifier.  This file turns the first two into each other, cuts simple names, and lists the
internal names that a dotted source name may stand for.
-/

namespace JavaScope.Name

/-! ## Characters -/

/-- Replaces every `old` by `new`. -/
def replace (old new : Char) (cs : List Char) : List Char :=
  cs.map fun c => if c = old then new else c

/-- What follows the last character that satisfies `p`; everything if none does. -/
def afterLast (p : Char → Bool) (cs : List Char) : List Char :=
  (cs.reverse.takeWhile fun c => !p c).reverse

/-- What precedes the last character that satisfies `p`; nothing if none does. -/
def beforeLast (p : Char → Bool) (cs : List Char) : List Char :=
  ((cs.reverse.dropWhile fun c => !p c).drop 1).reverse

/-- The pieces between the characters that satisfy `p`; one more than there are of those. -/
def segments (p : Char → Bool) : List Char → List (List Char)
  | [] => [[]]
  | c :: cs =>
    if p c then [] :: segments p cs
    else
      match segments p cs with
      | [] => [[c]]
      | s :: rest => (c :: s) :: rest

/-! ## Spellings -/

/-- The internal spelling of a binary name: `java.util.Map$Entry` gives
`java/util/Map$Entry`. -/
def toInternal (binary : String) : String :=
  String.ofList (replace '.' '/' binary.toList)

/-- The binary spelling of an internal name: `java/util/Map$Entry` gives
`java.util.Map$Entry`. -/
def toBinary (internal : String) : String :=
  String.ofList (replace '/' '.' internal.toList)

/-- Separates packages, in either spelling. -/
def isSeparator (c : Char) : Bool := c = '.' || c = '/'

/-- The simple name of a class given in either spelling: what follows the last separator
and then the last `$`.  Local and anonymous classes keep their suffix (`1`, `1Local`). -/
def simple (name : String) : String :=
  String.ofList (afterLast (· = '$') (afterLast isSeparator name.toList))

/-- A name that source code may write without a qualifier: not empty, no separator. -/
def isSimple (name : String) : Bool :=
  !name.isEmpty && name.toList.all fun c => !isSeparator c

/-- The last segment of a dotted name. -/
def lastSegment (dotted : String) : String :=
  String.ofList (afterLast (· = '.') dotted.toList)

/-- A dotted name without its last segment; empty when there is only one. -/
def qualifier (dotted : String) : String :=
  String.ofList (beforeLast (· = '.') dotted.toList)

/-! ## Nesting -/

/-- Turns the last `/` into a `$`: the last package segment becomes an enclosing class. -/
def nestLast : List Char → List Char
  | [] => []
  | c :: cs => if c = '/' ∧ '/' ∉ cs then '$' :: cs else c :: nestLast cs

/-- An internal name, followed by what `n` more turns of `nestLast` make of it. -/
def nestings : Nat → List Char → List (List Char)
  | 0, cs => [cs]
  | n + 1, cs => cs :: nestings n (nestLast cs)

/-- The internal names that a dotted source name may stand for.  How many of its last
segments name nested classes is not written in source, so the longest package path comes
first and each further candidate has one more level of nesting. -/
def candidates (dotted : String) : List String :=
  let internal := replace '.' '/' dotted.toList
  (nestings (internal.count '/') internal).map String.ofList

end JavaScope.Name
