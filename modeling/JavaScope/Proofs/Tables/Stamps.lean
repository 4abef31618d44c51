/-
# Stamps

Stamps tell tables and frames apart; which stamps a file gets depends on the order of its scopes.
Nothing else does: look-ups in tables that differ in their stamps find the same (`unstamped`), and
so tables inside of them are built alike (`unstamped_scopeTable`).
-/
import JavaScope.Proofs.Run.Transparency
import JavaScope.Tables.ScopeTables

namespace JavaScope

/-! ## Without stamps -/

/-- A place in a chain, whatever the chain. -/
def FrameId.unstamped (f : FrameId) : FrameId := { f with stamp := 0 }

/-- What was found, with the kind and the place of the frame. -/
def Found.unstamped {α : Type} (x : Found α) : Found α := { x with frame := x.frame.unstamped }

/-- A frame without its stamp. -/
def Frame.unstamped {ρ : Type} (f : Frame ρ) : Frame ρ := { f with id := f.id.unstamped }

/-- A group whose frames have no stamps. -/
def ShadowGroup.unstamped {ρ : Type} (g : ShadowGroup ρ) : ShadowGroup ρ :=
  ⟨g.frames.map Frame.unstamped⟩

/-- A table without stamps, by itself: the groups of a table show all names in it. -/
def SymbolTable.unstamped (t : SymbolTable) : SymbolTable :=
  .inside .empty 0 t.vars.unstamped t.types.unstamped t.methods.unstamped

/-! ## Look-ups -/

section Lookup

variable {m : Type → Type} [Monad m] [LawfulMonad m] {ρ α : Type}

lemma findFirst_unstamped (ask : ρ → String → m (List α)) (name : String)
    (frames : List (Frame ρ)) :
    findFirst ask name (frames.map Frame.unstamped) =
      Option.map Found.unstamped <$> findFirst ask name frames := by
  induction frames with
  | nil => simp [findFirst]
  | cons f rest ih =>
    simp only [List.map_cons, findFirst, map_bind]
    refine bind_congr fun found => ?_
    cases found with
    | nil => exact ih
    | cons a more =>
      simp only [map_pure]
      rfl

namespace Candidates

/-- What is left to draw, without stamps. -/
def unstamped (c : Candidates ρ α) : Candidates ρ α :=
  { c with frames := c.frames.map Frame.unstamped }

lemma firstOf_unstamped (ask : ρ → String → m (List α)) (name : String)
    (frames : List (Frame ρ)) :
    firstOf ask name (frames.map Frame.unstamped) =
      Option.map (Prod.map id unstamped) <$> firstOf ask name frames := by
  induction frames with
  | nil => simp [firstOf]
  | cons f rest ih =>
    simp only [List.map_cons, firstOf, map_bind]
    refine bind_congr fun found => ?_
    cases found with
    | nil => exact ih
    | cons a more =>
      simp only [map_pure]
      rfl

lemma next?_unstamped (ask : ρ → String → m (List α)) (c : Candidates ρ α) :
    c.unstamped.next? ask = Option.map (Prod.map id unstamped) <$> c.next? ask := by
  obtain ⟨name, bucket, frames⟩ := c
  cases bucket with
  | nil => exact firstOf_unstamped ask name frames
  | cons a more =>
    simp only [next?, map_pure]
    rfl

lemma take_unstamped (ask : ρ → String → m (List α)) (n : Nat) (c : Candidates ρ α) :
    c.unstamped.take ask n = Prod.map id unstamped <$> c.take ask n := by
  induction n generalizing c with
  | zero =>
    simp only [take, map_pure]
    rfl
  | succ n ih =>
    rw [take, take, next?_unstamped, bind_map_left, map_bind]
    refine bind_congr fun drawn => ?_
    cases drawn with
    | none =>
      simp only [map_pure]
      rfl
    | some drawn =>
      obtain ⟨a, left⟩ := drawn
      simp only [Option.map_some, Prod.map_apply, id_eq, ih, bind_map_left, map_bind, map_pure]
      rfl

omit [LawfulMonad m] in
lemma allOf_unstamped (ask : ρ → String → m (List α)) (name : String)
    (frames : List (Frame ρ)) :
    allOf ask name (frames.map Frame.unstamped) = allOf ask name frames := by
  induction frames with
  | nil => rfl
  | cons f rest ih =>
    rw [List.map_cons, allOf, allOf, ih]
    rfl

end Candidates

end Lookup

namespace SymbolTable

variable {t t' : SymbolTable}

lemma resolveType_unstamped (t : SymbolTable) (name : String) :
    t.unstamped.resolveType name = Option.map Found.unstamped <$> t.resolveType name :=
  findFirst_unstamped _ name t.types.frames

lemma resolveValue_unstamped (t : SymbolTable) (name : String) :
    t.unstamped.resolveValue name = (t.resolveValue name).map Found.unstamped :=
  findFirst_unstamped (m := Id) _ name t.vars.frames

lemma methodCandidates_unstamped (t : SymbolTable) (name : String) (limit : Option Nat) :
    t.unstamped.methodCandidates name limit = t.methodCandidates name limit := by
  cases limit with
  | none => exact congrArg Id.run (congrArg (List.append [] <$> ·)
      (Candidates.allOf_unstamped (m := Id) _ name t.methods.frames))
  | some n =>
    exact congrArg (fun drawn => (Id.run drawn).1)
      (Candidates.take_unstamped (m := Id) _ n (t.resolveMethod name))

/-- What makes use of a type, but not of the stamp of its frame, does not depend on stamps. -/
lemma bind_resolveType {β : Type} (h : t.unstamped = t'.unstamped)
    {f : Option (Found TypeSymbol) → Query β} (hf : ∀ x, f (x.map Found.unstamped) = f x)
    (name : String) : t.resolveType name >>= f = t'.resolveType name >>= f := by
  -- a look-up in the table without stamps gives the same to `f`
  have hsame (t : SymbolTable) : t.unstamped.resolveType name >>= f = t.resolveType name >>= f := by
    rw [resolveType_unstamped, bind_map_left]
    exact bind_congr hf
  rw [← hsame t, ← hsame t', h]

end SymbolTable

/-! ## Inherited members -/

/-- Two indexes of a file give the same answers. -/
structure FileIndex.Alike (x x' : FileIndex) : Prop where
  file : x.file = x'.file
  declaredAt : ∀ node, x.declaredAt node = x'.declaredAt node
  body? : ∀ name, x.body? name = x'.body? name
  kindOf : ∀ name, x.kindOf name = x'.kindOf name

section Inherited

variable {x x' : FileIndex} {scope scope' : SymbolTable} (hx : x.Alike x')
  (hscope : scope.unstamped = scope'.unstamped)

include hscope

lemma resolveElement_congr : resolveElement scope = resolveElement scope' := by
  funext element
  unfold resolveElement
  -- only a simple name is looked up in the scope
  split
  · rfl
  split
  · rfl
  · refine SymbolTable.bind_resolveType hscope (fun found => ?_) element
    cases found <;> rfl

lemma erasedParameters_congr : erasedParameters scope = erasedParameters scope' := by
  funext m
  have hone : eraseParameter scope = eraseParameter scope' := by
    funext written
    rw [eraseParameter, eraseParameter, resolveElement_congr hscope]
  rw [erasedParameters, erasedParameters, hone]

lemma overridersOf_congr : overridersOf scope = overridersOf scope' := by
  funext ms
  rw [overridersOf, overridersOf, erasedParameters_congr hscope]

lemma membersOfSource_congr : membersOfSource scope = membersOfSource scope' := by
  funext os kind d
  rw [membersOfSource, membersOfSource, erasedParameters_congr hscope]

include hx

lemma resolveSupertype_congr : resolveSupertype x scope = resolveSupertype x' scope' := by
  have hfile : x.supertype? = x'.supertype? := by
    funext name
    rw [FileIndex.supertype?, FileIndex.supertype?, hx.body?]
  funext written
  rw [resolveSupertype, resolveSupertype, hfile]
  split
  · rfl
  split
  · rfl
  · refine SymbolTable.bind_resolveType hscope (fun found => ?_) _
    cases found <;> rfl

lemma supertypesOfSource_congr : supertypesOfSource x scope = supertypesOfSource x' scope' := by
  funext header visited
  rw [supertypesOfSource, supertypesOfSource, resolveSupertype_congr hx hscope]

lemma levelAdd_congr : Level.add x scope = Level.add x' scope' := by
  funext os l s
  cases s with
  | stub c => rfl
  | source node header =>
    rw [Level.add, Level.add, supertypesOfSource_congr hx hscope, membersOfSource_congr hscope,
      hx.kindOf, hx.declaredAt]

lemma levelAddAll_congr (os : Overriders) (ss : List Supertype) (l : Level) :
    l.addAll x scope os ss = l.addAll x' scope' os ss := by
  induction ss generalizing l with
  | nil => rfl
  | cons s rest ih =>
    rw [Level.addAll, Level.addAll, levelAdd_congr hx hscope]
    exact bind_congr ih

lemma levelsFrom_congr (tooDeep : Diagnostic) (remaining : Nat) (frontier : List Supertype)
    (visited : List String) (os : Overriders) :
    levelsFrom x scope tooDeep remaining frontier visited os =
      levelsFrom x' scope' tooDeep remaining frontier visited os := by
  induction remaining generalizing frontier visited os with
  | zero => cases frontier <;> rfl
  | succ remaining ih =>
    cases frontier with
    | nil => rfl
    | cons s rest =>
      simp only [levelsFrom, levelAddAll_congr hx hscope, overridersOf_congr hscope, ih]

/-- Types in alike scopes inherit the same. -/
lemma inheritedLevels_congr (config : Config) (header : TypeHeader) (own : Declared) :
    inheritedLevels config x scope header own = inheritedLevels config x' scope' header own := by
  simp only [inheritedLevels, overridersOf_congr hscope, supertypesOfSource_congr hx hscope,
    levelsFrom_congr hx hscope, hx.file]

end Inherited

/-! ## Tables inside of tables -/

section Push

variable {ρ : Type} [Bindings ρ]

lemma ShadowGroup.unstamped_push (g : ShadowGroup ρ) (stamp : Nat) (kind : FrameKind)
    (bindings : ρ) :
    (g.push stamp kind bindings).unstamped = g.unstamped.push 0 kind bindings := by
  by_cases hpush : Bindings.isDefinitelyEmpty bindings
  · rw [push, push, if_pos hpush, if_pos hpush]
  · rw [push, push, if_neg hpush, if_neg hpush]
    simp [unstamped, depth, Frame.unstamped, FrameId.unstamped]

/-- Frames are pushed onto groups alike, one for each level. -/
lemma ShadowGroup.unstamped_foldr_push {α : Type} (g : ShadowGroup ρ) (stamp : Nat)
    (kind : FrameKind) (bindings : α → ρ) (levels : List α) :
    (levels.foldr (fun l g => g.push stamp kind (bindings l)) g).unstamped =
      levels.foldr (fun l g => g.push 0 kind (bindings l)) g.unstamped :=
  (List.foldr_hom _ fun l g => (unstamped_push g stamp kind (bindings l)).symm).symm

end Push

lemma SymbolTable.unstamped_inside (parent : SymbolTable) (stamp : Nat) (vars : VariableGroup)
    (types : TypeGroup) (methods : MethodGroup) :
    (inside parent stamp vars types methods).unstamped =
      .inside .empty 0 vars.unstamped types.unstamped methods.unstamped := rfl

namespace TablePlace

variable {q q' : TablePlace} (hq : q.parent.unstamped = q'.parent.unstamped)

include hq

lemma unstamped_unitTable (package : String) (i : Imported) (d : Declared) :
    (q.unitTable package i d).unstamped = (q'.unitTable package i d).unstamped := by
  injection hq with _ _ hvars htypes hmethods
  simp only [unitTable, pushTypes, SymbolTable.unstamped_inside, ShadowGroup.unstamped_push, hvars,
    htypes, hmethods]

lemma unstamped_bodyTable (levels : List Members) (d : Declared) :
    (q.bodyTable levels d).unstamped = (q'.bodyTable levels d).unstamped := by
  injection hq with _ _ hvars htypes hmethods
  simp only [bodyTable, pushTypes, pushVariables, pushMethods, SymbolTable.unstamped_inside,
    ShadowGroup.unstamped_push, ShadowGroup.unstamped_foldr_push, hvars, htypes, hmethods]

lemma unstamped_methodTable (d : Declared) :
    (q.methodTable d).unstamped = (q'.methodTable d).unstamped := by
  injection hq with _ _ hvars htypes hmethods
  simp only [methodTable, pushTypes, pushVariables, SymbolTable.unstamped_inside,
    ShadowGroup.unstamped_push, hvars, htypes, hmethods]

lemma unstamped_blockTable (d : Declared) :
    (q.blockTable d).unstamped = (q'.blockTable d).unstamped := by
  injection hq with _ _ hvars htypes hmethods
  simp only [blockTable, pushTypes, pushVariables, SymbolTable.unstamped_inside,
    ShadowGroup.unstamped_push, hvars, htypes, hmethods]

end TablePlace

/-- Two files differ, in what their tables share, in the order of scopes at most. -/
structure FileContext.Alike (x x' : FileContext) : Prop where
  config : x.config = x'.config
  file : x.unit.file = x'.unit.file
  package : x.unit.package = x'.unit.package
  imports : x.unit.imports = x'.unit.imports
  index : x.index.Alike x'.index

lemma FileContext.Alike.refl (x : FileContext) : x.Alike x :=
  ⟨rfl, rfl, rfl, rfl, ⟨rfl, fun _ => rfl, fun _ => rfl, fun _ => rfl⟩⟩

/-- Scopes at alike places have alike tables. -/
lemma unstamped_scopeTable {x x' : FileContext} (hx : x.Alike x') (q q' : TablePlace)
    (hq : q.parent.unstamped = q'.parent.unstamped) (i : ScopeInfo) :
    SymbolTable.unstamped <$> scopeTable x q i = SymbolTable.unstamped <$> scopeTable x' q' i := by
  unfold scopeTable
  simp only [hx.index.declaredAt, hx.config]
  cases i.kind with
  | compilationUnit =>
    have hpackage : x.unit.internalPackage = x'.unit.internalPackage := by
      rw [CompilationUnit.internalPackage, CompilationUnit.internalPackage, hx.package]
    have himports : importsOf x'.config x.unit = importsOf x'.config x'.unit := by
      rw [importsOf, importsOf, hx.file, hx.imports]
    simp only [map_bind, map_pure, himports, hpackage, TablePlace.unstamped_unitTable hq]
  | typeBody header =>
    by_cases hinherited : x'.config.inheritedMembers
    · simp only [if_pos hinherited, map_bind, map_pure, inheritedLevels_congr hx.index hq,
        TablePlace.unstamped_bodyTable hq]
    · simp only [if_neg hinherited, pure_bind, map_pure, TablePlace.unstamped_bodyTable hq]
  | methodBody => simp only [map_pure, TablePlace.unstamped_methodTable hq]
  | lambda => simp only [map_pure, TablePlace.unstamped_methodTable hq]
  | block => simp only [map_pure, TablePlace.unstamped_blockTable hq]
  | catchClause => simp only [map_pure, TablePlace.unstamped_blockTable hq]
  | forHeader => simp only [map_pure, TablePlace.unstamped_blockTable hq]

end JavaScope
