/-
# Shadow groups

A shadow group is a chain of frames for one namespace, the innermost first.  Each frame
answers which declarations of a name it binds.  A look-up for the nearest binding stops at
the first frame that has one: a local variable hides a field of the same name.  Frames are
never changed.  Pushing a frame gives a new group, so that sibling scopes share the chain
of the scope around them, and pushing a frame that is known to bind nothing gives the same
group.
-/
import JavaScope.Shadow.SymbolMap

namespace JavaScope

/-! ## Frames -/

/-- What a frame stands for. -/
inductive FrameKind
  | root
  /-- Types of packages and classes imported on demand, also implicitly. -/
  | onDemandImport
  /-- Static members of classes imported on demand. -/
  | staticOnDemandImport
  /-- Types of the package of the file. -/
  | samePackage
  | singleTypeImport
  | singleStaticImport
  /-- Types declared at the top of the file. -/
  | fileTypes
  /-- Members inherited from supertypes. -/
  | inherited
  /-- Members declared in a type body. -/
  | members
  | typeParameters
  /-- Parameters of a method or lambda. -/
  | formals
  /-- Local variables and local classes. -/
  | locals
deriving DecidableEq, Repr, Inhabited

namespace FrameKind

/-- The frame comes from imports. -/
def isImport : FrameKind → Bool
  | onDemandImport | staticOnDemandImport | singleTypeImport | singleStaticImport => true
  | _ => false

/-- All kinds of frames. -/
def all : List FrameKind :=
  [root, onDemandImport, staticOnDemandImport, samePackage, singleTypeImport,
   singleStaticImport, fileTypes, inherited, members, typeParameters, formals, locals]

/-- The name of a frame kind in traces. -/
def label : FrameKind → String
  | root => "Root"
  | onDemandImport => "OnDemandImport"
  | staticOnDemandImport => "StaticOnDemandImport"
  | samePackage => "SamePackage"
  | singleTypeImport => "SingleTypeImport"
  | singleStaticImport => "SingleStaticImport"
  | fileTypes => "FileTypes"
  | inherited => "Inherited"
  | members => "Members"
  | typeParameters => "TypeParameters"
  | formals => "Formals"
  | locals => "Locals"

end FrameKind

/-- The identity of a frame: a stamp for the occasion on which it was pushed, and its place
in its chain, counted from the outermost frame, which has place 1.  Frames of one chain
differ by their places, and frames of different chains by their stamps. -/
structure FrameId where
  stamp : Nat
  place : Nat
deriving DecidableEq, Repr, Inhabited

/-- The identity of what is outside all frames. -/
def FrameId.root : FrameId := ⟨0, 0⟩

/-- A link of a chain: the bindings of declarations of equal precedence. -/
structure Frame (ρ : Type) where
  id : FrameId
  kind : FrameKind
  bindings : ρ
deriving Inhabited

/-- Sets of bindings that may be known to be empty without a look-up. -/
class Bindings (ρ : Type) where
  /-- It is known that nothing is bound. -/
  isDefinitelyEmpty : ρ → Bool := fun _ => false

instance {α : Type} : Bindings (SymbolMap α) where
  isDefinitelyEmpty := SymbolMap.isEmpty

/-! ## Groups -/

/-- A chain of frames, the innermost first. -/
structure ShadowGroup (ρ : Type) where
  frames : List (Frame ρ) := []
deriving Inhabited

namespace ShadowGroup

variable {ρ : Type}

/-- The group without frames. -/
def empty : ShadowGroup ρ := {}

/-- There are no frames. -/
def isRoot (g : ShadowGroup ρ) : Bool := g.frames.isEmpty

/-- The number of frames. -/
def depth (g : ShadowGroup ρ) : Nat := g.frames.length

/-- The identity of the innermost frame. -/
def frameId (g : ShadowGroup ρ) : FrameId :=
  match g.frames with
  | f :: _ => f.id
  | [] => .root

/-- The kind of the innermost frame. -/
def frameKind (g : ShadowGroup ρ) : FrameKind :=
  match g.frames with
  | f :: _ => f.kind
  | [] => .root

/-- The group around the innermost frame. -/
def parent? (g : ShadowGroup ρ) : Option (ShadowGroup ρ) :=
  match g.frames with
  | _ :: rest => some ⟨rest⟩
  | [] => none

/-- Both groups are the same chain, not only alike: a chain is known by its innermost
frame. -/
def sameChain (g h : ShadowGroup ρ) : Bool := g.frameId = h.frameId

/-- The kinds of the frames, the innermost first. -/
def kinds (g : ShadowGroup ρ) : List FrameKind := g.frames.map (·.kind)

/-- The group in a trace. -/
def trace (g : ShadowGroup ρ) : String :=
  "[" ++ ", ".intercalate (g.kinds.map (·.label)) ++ "]"

/-- A new innermost frame, unless it is known to bind nothing. -/
def push [Bindings ρ] (g : ShadowGroup ρ) (stamp : Nat) (kind : FrameKind) (bindings : ρ) :
    ShadowGroup ρ :=
  if Bindings.isDefinitelyEmpty bindings then g
  else ⟨⟨⟨stamp, g.depth + 1⟩, kind, bindings⟩ :: g.frames⟩

end ShadowGroup

/-! ## The nearest binding -/

/-- A declaration that was found, with the frame that binds it. -/
structure Found (α : Type) where
  result : α
  frame : FrameId
  kind : FrameKind
  /-- The frame binds other declarations of the name too. -/
  isAmbiguous : Bool
deriving Inhabited

/-- The same find with another result. -/
def Found.map {α β : Type} (f : α → β) (x : Found α) : Found β :=
  ⟨f x.result, x.frame, x.kind, x.isAmbiguous⟩

section Lookup

variable {m : Type → Type} [Monad m] {ρ α : Type}

/-- The first of the bindings of a name in the nearest of these frames that has any.
Frames behind it are not asked. -/
def findFirst (ask : ρ → String → m (List α)) (name : String) :
    List (Frame ρ) → m (Option (Found α))
  | [] => pure none
  | f :: rest => do
    match ← ask f.bindings name with
    | [] => findFirst ask name rest
    | a :: more => pure (some ⟨a, f.id, f.kind, !more.isEmpty⟩)

/-- The first of the bindings of a name in the nearest frame that has any. -/
def ShadowGroup.resolveFirst (ask : ρ → String → m (List α)) (g : ShadowGroup ρ)
    (name : String) : m (Option (Found α)) :=
  findFirst ask name g.frames

end Lookup

end JavaScope
