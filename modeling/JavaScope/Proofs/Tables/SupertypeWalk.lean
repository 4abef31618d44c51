/-
# The walk through the supertypes

Which supertypes a type body gathers at which distance does not depend on their members
(`supertypeWalk`).  At each distance the variables and member types are those of the supertypes
there.  The methods are those which the supertypes there pass on and which no overrider covers; the
overriders are the methods of the type itself and those listed at smaller distances
(`value_inheritedLevels`).
-/
import Mathlib.Data.List.GetD
import JavaScope.Proofs.Run.Transparency
import JavaScope.Tables.Inheritance

namespace JavaScope

/-! ## Queries for lists -/

namespace Query

variable {α β : Type} (p : Classpath)

lemma value_forEach (f : α → Query β) (as : List α) :
    (forEach f as).value p = as.map fun a => (f a).value p := by
  induction as with
  | nil => rfl
  | cons a rest ih =>
    rw [forEach, value_bind, value_bind, value_pure, ih]
    rfl

lemma value_filterMap (f : α → Query (Option β)) (as : List α) :
    (filterMap f as).value p = as.filterMap fun a => (f a).value p := by
  rw [filterMap, value_bind, value_pure, value_forEach, List.filterMap_map]
  rfl

end Query

section Walk

variable (x : FileIndex) (p : Classpath) (scope : SymbolTable)

/-! ## The supertypes at each distance -/

namespace Supertype

/-- The direct supertypes of a gathered type, as a walk in this scope finds them. -/
def direct : Supertype → List Supertype
  | stub c => (c.supertypes.filterMap fun n => (Query.stubOfBinary n).value p).map stub
  | source _ h => h.supertypes.filterMap fun w => (resolveSupertype x scope w).value p

/-- The direct supertypes that were not visited before, and the names visited then. -/
def expand (s : Supertype) (visited : List String) : List Supertype × List String :=
  match s with
  | stub c =>
    let (names, visited) := unvisited id visited c.supertypes
    ((names.filterMap fun n => (Query.stubOfBinary n).value p).map stub, visited)
  | source .. => unvisited binaryName visited (s.direct x p scope)

/-- The direct supertypes of several types, each gathered once. -/
def expandAll : List Supertype → List String → List Supertype × List String
  | [], visited => ([], visited)
  | s :: rest, visited =>
    let (next, visited) := s.expand x p scope visited
    let (others, visited) := expandAll rest visited
    (next ++ others, visited)

end Supertype

/-- The supertypes at each distance from a frontier on, up to `remaining` distances. -/
def walkFrom : (remaining : Nat) → List Supertype → List String → List (List Supertype)
  | _, [], _ => []
  | 0, _ :: _, _ => []
  | remaining + 1, s :: rest, visited =>
    let (next, visited) := Supertype.expandAll x p scope (s :: rest) visited
    (s :: rest) :: walkFrom remaining next visited

/-- The supertypes that a type in source gathers, one entry for each distance, the direct
supertypes first. -/
def supertypeWalk (config : Config) (header : TypeHeader) : List (List Supertype) :=
  let (frontier, visited) := unvisited Supertype.binaryName [header.binaryName]
    (header.supertypes.filterMap fun w => (resolveSupertype x scope w).value p)
  walkFrom x p scope config.maxSupertypeDepth frontier visited

/-! ## The members at each distance -/

/-- The variables that a supertype passes on. -/
def Supertype.vars : Supertype → List VariableSymbol
  | stub c => c.fieldSymbols
  | source node _ => (x.declaredAt node).vars.filter fun v => !v.modifiers.isPrivate

/-- The member types that a supertype passes on; those of a class file need class files of their
own. -/
def Supertype.memberTypes : Supertype → List TypeSymbol
  | stub c =>
    (c.inheritableMemberTypes.filterMap fun t =>
      (Query.stubOfBinary t.binaryName).value p).map (·.symbol)
  | source node _ => (x.declaredAt node).types.filter fun t => !t.modifiers.isPrivate

/-- The methods that a supertype passes on, overridden or not. -/
def Supertype.offered : Supertype → List MethodSymbol
  | stub c =>
    c.methodSymbols.filter fun m => c.kind.passesOnStaticMethods || !m.modifiers.isStatic
  | source node h => passedOnMethods (x.kindOf h.binaryName) (x.declaredAt node).methods

/-- The parameter types of a method by which overriding goes. -/
def erasedIn (m : MethodSymbol) : List TypeRef := (erasedParameters scope m).value p

/-- Methods as overriders. -/
def asOverriders (ms : List MethodSymbol) : Overriders :=
  ms.map fun m => (m.name, erasedIn p scope m)

/-- Nothing overrides the method. -/
def uncovered (os : Overriders) (m : MethodSymbol) : Bool := !os.cover m.name (erasedIn p scope m)

/-- The methods at each distance, the nearest first, that neither the overriders nor methods
from smaller distances override. -/
def listed : Overriders → List (List Supertype) → List (List MethodSymbol)
  | _, [] => []
  | os, level :: rest =>
    let ms := (level.flatMap (·.offered x)).filter (uncovered p scope os)
    ms :: listed (os ++ asOverriders p scope ms) rest

/-- The members of the supertypes at one distance, but for covered methods. -/
def membersOf (os : Overriders) (level : List Supertype) : Members where
  vars := level.flatMap (·.vars x)
  types := level.flatMap (·.memberTypes x p)
  methods := (level.flatMap (·.offered x)).filter (uncovered p scope os)

/-- The members of the supertypes at each distance, with these methods. -/
def membersWith : List (List Supertype) → List (List MethodSymbol) → List Members :=
  List.zipWith fun level ms => ⟨level.flatMap (·.vars x), level.flatMap (·.memberTypes x p), ms⟩

lemma length_listed (os : Overriders) (walk : List (List Supertype)) :
    (listed x p scope os walk).length = walk.length := by
  induction walk generalizing os with
  | nil => rfl
  | cons level rest ih => rw [listed, List.length_cons, List.length_cons, ih]

/-! ## Levels -/

lemma value_overridersOf (ms : List MethodSymbol) :
    (overridersOf scope ms).value p = asOverriders p scope ms := by
  rw [overridersOf, Query.value_forEach]
  exact List.map_congr_left fun m _ => Query.value_bind p _ _

lemma erasedIn_of_stub {m : MethodSymbol} (h : m.origin.isSource = false) :
    erasedIn p scope m = m.parameters := by
  rw [erasedIn, erasedParameters, if_neg (by simp [h])]
  rfl

lemma value_membersOfStub (os : Overriders) (c : ClassStub) :
    (membersOfStub os c).value p = membersOf x p scope os [.stub c] := by
  rw [membersOfStub, Query.value_bind, Query.value_pure, Query.value_filterMap]
  have hmethods : (c.methodSymbols.filter fun m =>
      (c.kind.passesOnStaticMethods || !m.modifiers.isStatic) && !os.cover m.name m.parameters) =
        ((Supertype.stub c).offered x).filter (uncovered p scope os) := by
    rw [Supertype.offered, List.filter_filter]
    refine List.filter_congr fun m hm => ?_
    -- class files have erased types already
    obtain ⟨stub, -, rfl⟩ := List.mem_map.mp hm
    rw [uncovered, erasedIn_of_stub p scope rfl, Bool.and_comm]
  rw [hmethods, membersOf, List.flatMap_singleton, List.flatMap_singleton, List.flatMap_singleton]
  rfl

lemma value_membersOfSource (os : Overriders) (node : NodeId) (h : TypeHeader) :
    (membersOfSource scope os (x.kindOf h.binaryName) (x.declaredAt node)).value p =
      membersOf x p scope os [.source node h] := by
  have hone (m : MethodSymbol) :
      (do
        let parameters ← erasedParameters scope m
        return if os.cover m.name parameters then none else some m : Query _).value p =
        Option.guard (uncovered p scope os) m := by
    rw [Query.value_bind, Query.value_pure, Option.guard, uncovered, erasedIn]
    cases os.cover m.name ((erasedParameters scope m).value p) <;> rfl
  rw [membersOfSource, Query.value_bind, Query.value_pure, Query.value_filterMap]
  simp only [hone]
  rw [List.filterMap_eq_filter, membersOf, List.flatMap_singleton, List.flatMap_singleton,
    List.flatMap_singleton]
  rfl

/-- A level takes what a supertype passes on, and its supertypes. -/
lemma value_add (os : Overriders) (l : Level) (s : Supertype) :
    (l.add x scope os s).value p =
      ⟨l.members.append (membersOf x p scope os [s]), l.next ++ (s.expand x p scope l.visited).1,
        (s.expand x p scope l.visited).2⟩ := by
  cases s with
  | stub c =>
    rw [Level.add, Query.value_bind, Query.value_bind, Query.value_pure, supertypesOfStub,
      Query.value_bind, Query.value_pure, Query.value_filterMap, value_membersOfStub]
    rfl
  | source node h =>
    rw [Level.add, Query.value_bind, Query.value_bind, Query.value_pure, supertypesOfSource,
      Query.value_bind, Query.value_pure, Query.value_filterMap, value_membersOfSource]
    rfl

lemma membersOf_cons (os : Overriders) (s : Supertype) (rest : List Supertype) :
    membersOf x p scope os (s :: rest) =
      (membersOf x p scope os [s]).append (membersOf x p scope os rest) := by
  simp [membersOf, Members.append]

lemma value_addAll (os : Overriders) (ss : List Supertype) (l : Level) :
    (l.addAll x scope os ss).value p =
      ⟨l.members.append (membersOf x p scope os ss),
        l.next ++ (Supertype.expandAll x p scope ss l.visited).1,
        (Supertype.expandAll x p scope ss l.visited).2⟩ := by
  induction ss generalizing l with
  | nil => simp [Level.addAll, Supertype.expandAll, membersOf, Members.append]
  | cons s rest ih =>
    rw [Level.addAll, Query.value_bind, ih, value_add, membersOf_cons x p scope os s rest]
    simp [Supertype.expandAll, Members.append, List.append_assoc]

lemma value_levelsFrom (tooDeep : Diagnostic) (remaining : Nat) (frontier : List Supertype)
    (visited : List String) (os : Overriders) :
    (levelsFrom x scope tooDeep remaining frontier visited os).value p =
      let walk := walkFrom x p scope remaining frontier visited
      membersWith x p walk (listed x p scope os walk) := by
  induction remaining generalizing frontier visited os with
  | zero => cases frontier <;> rfl
  | succ remaining ih =>
    cases frontier with
    | nil => rfl
    | cons s rest =>
      rw [levelsFrom, Query.value_bind, Query.value_bind, Query.value_bind, Query.value_pure, ih,
        value_overridersOf, value_addAll]
      rfl

/-- The members that a type inherits from each distance. -/
theorem value_inheritedLevels (config : Config) (header : TypeHeader) (own : Declared) :
    (inheritedLevels config x scope header own).value p =
      let walk := supertypeWalk x p scope config header
      membersWith x p walk (listed x p scope (asOverriders p scope own.methods) walk) := by
  rw [inheritedLevels, Query.value_bind, Query.value_bind, value_levelsFrom, value_overridersOf,
    supertypesOfSource, Query.value_bind, Query.value_pure, Query.value_filterMap]
  rfl

section MembersWith

variable {walk : List (List Supertype)} {ms : List (List MethodSymbol)}

lemma length_membersWith (h : ms.length = walk.length) :
    (membersWith x p walk ms).length = walk.length := by
  rw [membersWith, List.length_zipWith, h, Nat.min_self]

lemma methods_membersWith (h : ms.length = walk.length) (k : Nat) :
    ((membersWith x p walk ms).getD k {}).methods = ms.getD k [] := by
  have hsnd := List.map_snd_zip (Nat.le_of_eq h)
  rw [List.zip, List.map_zipWith] at hsnd
  have hmethods : (membersWith x p walk ms).map Members.methods = ms := by
    rw [membersWith, List.map_zipWith]
    exact hsnd
  have hget := List.getD_map (membersWith x p walk ms) {} (n := k) Members.methods
  rw [hmethods] at hget
  exact hget.symm

end MembersWith

end Walk

end JavaScope
