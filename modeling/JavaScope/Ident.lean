/-
# Identifiers

Files, syntax nodes and source declarations are known to the analysis by number only.  A
declaration is identified by its file and its node; that pair is the identity of every
symbol declared in source.
-/

namespace JavaScope

/-- An analysed source file. -/
structure FileId where
  index : UInt32
deriving DecidableEq, Repr, Inhabited

/-- A syntax node of one file: a scope, a declaration or an import. -/
structure NodeId where
  index : UInt32
deriving DecidableEq, Repr, Inhabited

/-- A declaration in source. -/
structure DefId where
  file : FileId
  node : NodeId
deriving DecidableEq, Repr, Inhabited

namespace FileId

/-- How a file is named to a reader. -/
def display (f : FileId) : String := s!"file#{f.index.toNat}"

/-- How a file is named in a trace. -/
def trace (f : FileId) : String := s!"FileId({f.index.toNat})"

end FileId

/-- How a node is named in a trace. -/
def NodeId.trace (n : NodeId) : String := s!"NodeId({n.index.toNat})"

/-- How a declaration is named in a trace. -/
def DefId.trace (d : DefId) : String := s!"DefId({d.file.trace}:{d.node.index.toNat})"

end JavaScope
