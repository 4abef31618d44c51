/-
# Classes in a directory

A directory of class files holds the class `a/b/C` in the file `a/b/C.class`.  Names of
classes come from class files and sources that are not trusted, so a name that could lead
out of the directory has no path.
-/
import JavaScope.Classpath.Basic
import JavaScope.Name

namespace JavaScope

/-! ## Paths -/

namespace PosixPath

/-- The names between the separators of a path. -/
def names (path : String) : List String :=
  (Name.segments (· = '/') path.toList).map String.ofList

/-- The path starts at the top of the file system. -/
def isAbsolute (path : String) : Bool := path.toList.head? = some '/'

/-- What stands in front of the names of the files in a directory: its path with a separator
behind it, unless there is one or the path is empty. -/
def front (directory : String) : String :=
  if directory = "" ∨ directory.toList.getLast? = some '/' then directory else directory ++ "/"

/-- The path that leads on from a directory.  An absolute path does not need the directory. -/
def join (directory path : String) : String :=
  if isAbsolute path then path else front directory ++ path

end PosixPath

/-! ## Trees of files -/

/-- What is found at a path. -/
inductive FileOutcome
  | content (bytes : List UInt8)
  | notFound
  | failed (reason : String)
deriving DecidableEq, Repr, Inhabited

/-- Files and directories, by their paths below a root as lists of components. -/
structure FileTree where
  files : List (List String × List UInt8) := []
  directories : List (List String) := []
deriving Repr, Inhabited

namespace FileTree

/-- The greatest length of a component of a path, in bytes. -/
def maxComponent : Nat := 255

/-- The greatest length of a path, in bytes. -/
def maxPath : Nat := 4095

/-- The directory exists: it is listed, or a listed path leads through it. -/
def isDirectory (t : FileTree) (path : List String) : Bool :=
  path.isEmpty || t.directories.any (path.isPrefixOf ·)
    || t.files.any fun (file, _) => path.isPrefixOf file && path.length < file.length

/-- Follows the components of a path: `done` exists and is a directory. -/
def walk (t : FileTree) (done : List String) : List String → FileOutcome
  | [] => .failed "Is a directory (os error 21)"
  | component :: rest =>
    let path := done ++ [component]
    if maxComponent < component.utf8ByteSize then .failed "File name too long (os error 36)"
    else if t.isDirectory path then t.walk path rest
    else
      match t.files.lookup path with
      | none => .notFound
      | some bytes =>
        if rest.isEmpty then .content bytes else .failed "Not a directory (os error 20)"

/-- Reads the file at the components `path` below the root, which is called `name` as a
whole. -/
def read (t : FileTree) (name : String) (path : List String) : FileOutcome :=
  if name.toList.contains '\x00' then .failed "file name contained an unexpected NUL byte"
  else if maxPath < name.utf8ByteSize then .failed "File name too long (os error 36)"
  else t.walk [] path

end FileTree

/-! ## Class files in a tree -/

/-- A directory of class files. -/
structure DirectoryClasspath where
  /-- The path of the directory, as error messages show it. -/
  root : String
  tree : FileTree
deriving Repr, Inhabited

namespace DirectoryClasspath

/-- A name that could lead out of the directory: it is empty, starts at the top of the file
system, has an empty segment, `.` or `..` as a segment, or a backslash. -/
def isRefused (internal : String) : Bool :=
  internal.isEmpty || PosixPath.isAbsolute internal ||
    (PosixPath.names internal).any (fun n => n = "" || n = "." || n = "..") ||
    internal.toList.contains '\\'

/-- The path of a class file.  There is none for a name that is refused. -/
def path? (root internal : String) : Option String :=
  if isRefused internal then none else some (PosixPath.join root (internal ++ ".class"))

/-- The names that lead from the root to a class file. -/
def below (internal : String) : List String := PosixPath.names (internal ++ ".class")

/-- The class files as a classpath. -/
def toClasspath (d : DirectoryClasspath) : Classpath where
  classBytes internal :=
    match path? d.root internal with
    | none => .ok none
    | some path =>
      match d.tree.read path (below internal) with
      | .content bytes => .ok (some bytes)
      | .notFound => .ok none
      | .failed reason => .error ⟨path, reason⟩

end DirectoryClasspath

end JavaScope
