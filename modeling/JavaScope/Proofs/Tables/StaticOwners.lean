/-
# Static owners

The class that a static import names comes with a chain of supertypes, gathered level by level.
This is the walk through the supertypes, started at a class (`map_stub_chain`): the chain has the
classes at each distance up to the limit, each once, in the order in which a queue would meet them
(`listsSupertypes`).  Of the static methods along the chain those are left out that have the
parameter types of an earlier one (`hidesSameParameters`); fields come from the first class that
has any (`takesNearestFields`).  Hierarchies may be cyclic, and class files may name classes that
there are not.
-/
import JavaScope.Proofs.Tables.ImportPrecedence
import JavaScope.Proofs.Tables.InheritedMethods

namespace JavaScope

/-! ## Supertypes on the classpath -/

namespace Classpath

variable (p : Classpath)

/-- The class with a binary name. -/
def named? (binary : String) : Option ClassStub := p.stub? (Name.toInternal binary)

/-- The classes that a class file names as its supertypes, as far as they are on the classpath. -/
def supertypesOf (c : ClassStub) : List ClassStub := c.supertypes.filterMap p.named?

/-- A way of `n` steps leads from a class up to another. -/
inductive Climbs (c : ClassStub) : Nat → ClassStub → Prop
  | refl : Climbs c 0 c
  | step {n : Nat} {d e : ClassStub} : Climbs c n d → e ∈ p.supertypesOf d → Climbs c (n + 1) e

/-- The shortest way from a class up to another has `n` steps. -/
def ClassAt (c : ClassStub) (n : Nat) (d : ClassStub) : Prop :=
  p.Climbs c n d ∧ ∀ m < n, ¬p.Climbs c m d

/-- The chain lists the classes at a distance of at most `maxDepth` from a class. -/
structure ListsSupertypes (maxDepth : Nat) (c : ClassStub) (chain : List ClassStub) : Prop where
  /-- The class itself comes first. -/
  first : chain.head? = some c
  /-- No name occurs twice. -/
  once : (chain.map (·.binaryName)).Nodup
  exactly : ∀ d, d ∈ chain ↔ ∃ n ≤ maxDepth, p.ClassAt c n d
  nearestFirst : chain.Pairwise fun d e => ∀ m n, p.ClassAt c m d → p.ClassAt c n e → m ≤ n
  /-- Classes come in the order in which those before them name them, the first time each. -/
  inTurn : chain <+: ((c.binaryName :: chain.flatMap (·.supertypes)).eraseDups).filterMap p.named?

end Classpath

/-! ## The walk from a class -/

section Walk

variable {x : FileIndex} {p : Classpath} {scope : SymbolTable} {c d : ClassStub} {n : Nat}

open Supertype

/-- A round over classes asks for all the names in their class files that were not visited. -/
lemma expandAll_map_stub (level : List ClassStub) (visited : List String) :
    expandAll x p scope (level.map stub) visited =
      let new := unvisited id visited (level.flatMap (·.supertypes))
      ((new.1.filterMap p.named?).map stub, new.2) := by
  induction level generalizing visited with
  | nil => rfl
  | cons c rest ih =>
    simp only [List.map_cons, expandAll, ih, List.flatMap_cons, unvisited_append,
      List.filterMap_append, List.map_append]
    rfl

lemma value_superclassesFrom_nil (remaining : Nat) (visited : List String) :
    (superclassesFrom remaining [] visited).value p = [] := by
  cases remaining <;> rfl

/-- A level comes before what is gathered from it. -/
lemma value_superclassesFrom_succ (remaining : Nat) (level : List ClassStub)
    (visited : List String) :
    (superclassesFrom (remaining + 1) level visited).value p =
      let new := unvisited id visited (level.flatMap (·.supertypes))
      let next := new.1.filterMap p.named?
      next ++ (superclassesFrom remaining next new.2).value p := by
  rw [superclassesFrom, Query.value_bind, Query.value_filterMap]
  have hnamed : (fun n => (Query.stubOfBinary n).value p) = p.named? := rfl
  simp only [hnamed]
  cases (unvisited id visited (level.flatMap (·.supertypes))).1.filterMap p.named? with
  | nil => exact (value_superclassesFrom_nil remaining _).symm
  | cons d rest => exact Query.value_bind p _ _

/-- The levels that are gathered from a class are the rounds of the walk. -/
lemma map_stub_superclassesFrom (x : FileIndex) (scope : SymbolTable) (remaining : Nat)
    (level : List ClassStub) (visited : List String) :
    ((superclassesFrom remaining level visited).value p).map stub =
      let next := expandAll x p scope (level.map stub) visited
      (walkFrom x p scope remaining next.1 next.2).flatten := by
  induction remaining generalizing level visited with
  | zero =>
    simp only
    cases (expandAll x p scope (level.map stub) visited).1 <;> rfl
  | succ remaining ih =>
    rw [value_superclassesFrom_succ, expandAll_map_stub]
    simp only [List.map_append, ih]
    cases (unvisited id visited (level.flatMap (·.supertypes))).1.filterMap p.named? with
    | nil => cases remaining <;> rfl
    | cons d rest => rfl

lemma path_stub_iff {S : Supertype} :
    Path x p scope (stub c) n S ↔ ∃ d, S = stub d ∧ p.Climbs c n d := by
  constructor
  · intro h
    induction h with
    | refl => exact ⟨c, rfl, .refl⟩
    | step _ hdirect ih =>
      obtain ⟨d, rfl, hclimbs⟩ := ih
      obtain ⟨e, he, rfl⟩ := List.mem_map.mp hdirect
      exact ⟨e, rfl, hclimbs.step he⟩
  · rintro ⟨d, rfl, hclimbs⟩
    induction hclimbs with
    | refl => exact .refl
    | step _ he ih => exact ih.step (List.mem_map_of_mem he)

/-- From a class no type of a file is reached. -/
lemma noneAhead_stub : NoneAhead x p scope (stub c) n := by
  intro _ _ _ _ node header k hpath
  obtain ⟨d, hd, -⟩ := path_stub_iff.mp hpath
  cases hd

variable {u : CompilationUnit} (hc : (stub c).Known (.ofUnit u) p)
  (hapart : ∀ name c, p.stub? name = some c → c.binaryName ∉ u.bodyNames)

include hc hapart

lemma atDistance_stub_iff :
    AtDistance (.ofUnit u) p scope (stub c) n (stub d) ↔ p.ClassAt c n d := by
  have hclimbs {m : Nat} : Path (.ofUnit u) p scope (stub c) m (stub d) ↔ p.Climbs c m d := by
    rw [path_stub_iff]
    constructor
    · rintro ⟨d', heq, h⟩
      rwa [Supertype.stub.inj heq]
    · exact fun h => ⟨d, rfl, h⟩
  rw [AtDistance, Classpath.ClassAt, hclimbs]
  refine and_congr_right fun hd => forall₂_congr fun m _ => ⟨fun h hm => ?_, fun h S hS hname => ?_⟩
  · exact h _ (hclimbs.mpr hm) rfl
  · -- there is one class of a name
    obtain rfl := (hS.known hc).eq ((hclimbs.mpr hd).known hc) hapart hname
    exact h (hclimbs.mp hS)

/-- The rounds from a class find what is at their distances. -/
lemma mem_rounds_iff {remaining : Nat} {S : Supertype} :
    S ∈ (rounds (.ofUnit u) p scope (stub c) remaining).getD n [] ↔
      n ≤ remaining ∧ AtDistance (.ofUnit u) p scope (stub c) n S := by
  rw [getD_rounds]
  split
  · next hn => rw [mem_walkAt_iff hc hapart noneAhead_stub, and_iff_right hn]
  · next hn => simp [hn]

end Walk

/-! ## The chain -/

section Chain

lemma mem_flatten_iff_getD {α : Type} {ls : List (List α)} {a : α} :
    a ∈ ls.flatten ↔ ∃ k, a ∈ ls.getD k [] := by
  constructor
  · intro h
    rw [← List.take_length (l := ls), mem_flatten_take] at h
    obtain ⟨k, -, hk⟩ := h
    exact ⟨k, hk⟩
  · rintro ⟨k, hk⟩
    have htake : a ∈ (ls.take (k + 1)).flatten := mem_flatten_take.mpr ⟨k, k.lt_succ_self, hk⟩
    obtain ⟨l, hl, ha⟩ := List.mem_flatten.mp htake
    exact List.mem_flatten.mpr ⟨l, List.mem_of_mem_take hl, ha⟩

lemma pairwise_flatten_of_getD {α : Type} {R : α → α → Prop} {ls : List (List α)}
    (h : ∀ i j, i ≤ j → ∀ a ∈ ls.getD i [], ∀ b ∈ ls.getD j [], R a b) :
    ls.flatten.Pairwise R := by
  have hget {i : Nat} (hi : i < ls.length) : ls.getD i [] = ls[i] := List.getD_eq_getElem _ _ hi
  refine List.pairwise_flatten.mpr ⟨fun l hl => ?_, List.pairwise_iff_getElem.mpr ?_⟩
  · obtain ⟨i, hi, rfl⟩ := List.mem_iff_getElem.mp hl
    rw [← hget hi]
    exact List.pairwise_of_forall_mem_list (h i i le_rfl)
  · intro i j hi hj hij
    rw [← hget hi, ← hget hj]
    exact h i j hij.le

variable {p : Classpath} {c : ClassStub}

open Supertype

/-- What is gathered is met by a queue to which each class adds the names that are new. -/
lemma superclassesFrom_inTurn (remaining : Nat) (level : List ClassStub) (visited : List String) :
    let found := (superclassesFrom remaining level visited).value p
    found <+: ((((level ++ found).flatMap (·.supertypes)).filter (· ∉ visited)).eraseDups).filterMap
      p.named? := by
  induction remaining generalizing level visited with
  | zero => exact List.nil_prefix
  | succ remaining ih =>
    simp only [value_superclassesFrom_succ]
    have hrest := ih ((unvisited id visited (level.flatMap (·.supertypes))).1.filterMap p.named?)
      (unvisited id visited (level.flatMap (·.supertypes))).2
    rw [List.flatMap_append, List.filter_append, List.eraseDups_append, List.filterMap_append,
      unvisited_names]
    refine (List.prefix_append_right_inj _).mpr ?_
    rw [unvisited_names] at hrest
    rwa [removeAll_unvisited]

lemma chain_eq (config : Config) :
    ((staticOwner config c).value p).chain =
      c :: (superclassesFrom config.maxSupertypeDepth [c] [c.binaryName]).value p := by
  rw [staticOwner, Query.value_bind, Query.value_pure]

/-- The chain has the types of the rounds from the class on. -/
lemma map_stub_chain (x : FileIndex) (scope : SymbolTable) (config : Config) :
    ((staticOwner config c).value p).chain.map stub =
      (rounds x p scope (stub c) config.maxSupertypeDepth).flatten := by
  rw [chain_eq, List.map_cons, map_stub_superclassesFrom x scope, rounds, List.flatten_cons]
  rfl

/-- A file without types.  Classes are met in it as in any other file. -/
def typeless : CompilationUnit where
  file := ⟨0⟩
  package := none
  imports := []
  root := .node ⟨⟨0⟩, .compilationUnit, ⟨0, 0⟩, []⟩ []

lemma apart_typeless (name : String) (d : ClassStub) (_ : p.stub? name = some d) :
    d.binaryName ∉ typeless.bodyNames := List.not_mem_nil

variable (config : Config) {internal : String} (hname : Dotless internal)
  (hc : p.stub? internal = some c)

include hname hc

lemma mem_chain_iff (d : ClassStub) :
    d ∈ ((staticOwner config c).value p).chain ↔
      ∃ n ≤ config.maxSupertypeDepth, p.ClassAt c n d := by
  have hknown : (stub c).Known (.ofUnit typeless) p := .stub hname hc
  rw [← List.mem_map_of_injective (f := stub) fun _ _ => Supertype.stub.inj,
    map_stub_chain (.ofUnit typeless) .empty, mem_flatten_iff_getD]
  simp only [mem_rounds_iff hknown apart_typeless, atDistance_stub_iff hknown apart_typeless]

lemma nearestFirst_chain :
    ((staticOwner config c).value p).chain.Pairwise fun d e =>
      ∀ m n, p.ClassAt c m d → p.ClassAt c n e → m ≤ n := by
  have hknown : (stub c).Known (.ofUnit typeless) p := .stub hname hc
  have hpairs : (((staticOwner config c).value p).chain.map stub).Pairwise fun S T =>
      ∀ m n, AtDistance (.ofUnit typeless) p .empty (stub c) m S →
        AtDistance (.ofUnit typeless) p .empty (stub c) n T → m ≤ n := by
    rw [map_stub_chain (.ofUnit typeless) .empty]
    refine pairwise_flatten_of_getD fun i j hij S hS T hT m n hm hn => ?_
    rw [hm.unique ((mem_rounds_iff hknown apart_typeless).mp hS).2,
      hn.unique ((mem_rounds_iff hknown apart_typeless).mp hT).2]
    exact hij
  simpa only [List.pairwise_map, atDistance_stub_iff hknown apart_typeless] using hpairs

lemma inTurn_chain :
    let chain := ((staticOwner config c).value p).chain
    chain <+: ((c.binaryName :: chain.flatMap (·.supertypes)).eraseDups).filterMap p.named? := by
  have hself : p.named? c.binaryName = some c := value_stubOfBinary_binaryName hname hc
  have hothers : (fun n : String => !n == c.binaryName) = (· ∉ [c.binaryName]) := by
    funext n
    rw [Bool.eq_iff_iff]
    simp
  simp only [chain_eq]
  rw [List.eraseDups_cons, List.filterMap_cons_some hself, hothers]
  exact (List.prefix_cons_inj c).mpr (superclassesFrom_inTurn _ [c] [c.binaryName])

/-- The classes of the chain are those at a distance up to the limit, in the order of a queue. -/
theorem listsSupertypes :
    p.ListsSupertypes config.maxSupertypeDepth c ((staticOwner config c).value p).chain where
  first := by rw [chain_eq, List.head?_cons]
  once := by
    have hknown : (stub c).Known (.ofUnit typeless) p := .stub hname hc
    have hnames := nodup_rounds hknown .empty config.maxSupertypeDepth
    rwa [← map_stub_chain, List.map_map] at hnames
  exactly := mem_chain_iff config hname hc
  nearestFirst := nearestFirst_chain config hname hc
  inTurn := inTurn_chain config hname hc

end Chain

/-! ## Static members -/

namespace ClassStub

/-- The static methods of a name that the subclasses of a class can inherit, in order: no
initializers, and none that is private, synthetic or a bridge. -/
def staticMethods (n : String) (c : ClassStub) : List MethodSymbol :=
  (c.methods.filter fun m =>
    m.name = n ∧ m.modifiers.isStatic = true ∧ m.name ≠ constructorName ∧
      m.name ≠ initializerName ∧ m.modifiers.isPrivate = false ∧
      m.modifiers.isSynthetic = false ∧ m.modifiers.isBridge = false).map
    (·.symbol c.binaryName)

/-- The static fields of a name that the subclasses of a class can inherit, in order: none that is
private or synthetic. -/
def staticFields (n : String) (c : ClassStub) : List VariableSymbol :=
  (c.fields.filter fun f =>
    f.name = n ∧ f.modifiers.isStatic = true ∧ f.modifiers.isPrivate = false ∧
      f.modifiers.isSynthetic = false).map (·.symbol c.binaryName)

end ClassStub

/-- Of the methods that are offered, those are listed that do not have the parameter types of an
earlier one. -/
structure HidesSameParameters (offered listed : List MethodSymbol) : Prop where
  inOrder : listed.Sublist offered
  /-- No two listed methods have the same parameter types. -/
  apart : (listed.map (·.parameters)).Nodup
  /-- A method that is offered is listed, or one that is offered earlier is listed and has its
  parameter types. -/
  covered : ∀ before m after, offered = before ++ m :: after →
    m ∈ listed ∨ ∃ k ∈ before, k ∈ listed ∧ k.parameters = m.parameters

/-- The fields of a name are all those of the first class of the chain that has any. -/
structure TakesNearestFields (n : String) (chain : List ClassStub) (fs : List VariableSymbol) :
    Prop where
  nearest : ∀ before d after, chain = before ++ d :: after →
    (∀ e ∈ before, e.staticFields n = []) → d.staticFields n ≠ [] → fs = d.staticFields n
  nothing : (∀ d ∈ chain, d.staticFields n = []) → fs = []

namespace StaticOwner

lemma staticMethods_eq (n : String) (c : ClassStub) : staticMethods n c = c.staticMethods n := by
  rw [staticMethods, ClassStub.methodSymbols, ClassStub.inheritableMethods, ClassStub.staticMethods,
    List.filter_map, List.filter_filter]
  refine congrArg (List.map _) (List.filter_congr fun m _ => ?_)
  rw [Bool.eq_iff_iff]
  simp [MethodStub.isInitializer, Modifiers.isHidden, MethodStub.symbol]
  tauto

lemma staticFields_eq (n : String) (c : ClassStub) : staticFields n c = c.staticFields n := by
  rw [staticFields, ClassStub.fieldSymbols, ClassStub.inheritableFields, ClassStub.staticFields,
    List.filter_map, List.filter_filter]
  refine congrArg (List.map _) (List.filter_congr fun f _ => ?_)
  rw [Bool.eq_iff_iff]
  simp [Modifiers.isHidden, FieldStub.symbol]
  tauto

lemma hideSameParameters_append_singleton (ms : List MethodSymbol) (m : MethodSymbol) :
    hideSameParameters (ms ++ [m]) =
      if m.parameters ∈ (hideSameParameters ms).map (·.parameters) then hideSameParameters ms
      else hideSameParameters ms ++ [m] := by
  rw [hideSameParameters, List.foldl_append, List.foldl_cons, List.foldl_nil,
    ← hideSameParameters]
  refine if_congr ?_ rfl rfl
  simp

lemma hideSameParameters_append (ms more : List MethodSymbol) :
    hideSameParameters ms <+: hideSameParameters (ms ++ more) := by
  induction more using List.reverseRecOn with
  | nil => rw [List.append_nil]
  | append_singleton more m ih =>
    rw [← List.append_assoc, hideSameParameters_append_singleton]
    split
    · exact ih
    · exact ih.trans (List.prefix_append _ _)

lemma hideSameParameters_sublist (ms : List MethodSymbol) :
    (hideSameParameters ms).Sublist ms := by
  induction ms using List.reverseRecOn with
  | nil => exact List.Sublist.refl []
  | append_singleton ms m ih =>
    rw [hideSameParameters_append_singleton]
    split
    · exact ih.trans (List.sublist_append_left ms [m])
    · exact ih.append_right [m]

/-- Later methods with the parameter types of an earlier one are left out. -/
theorem hidesSameParameters (ms : List MethodSymbol) :
    HidesSameParameters ms (hideSameParameters ms) where
  inOrder := hideSameParameters_sublist ms
  apart := by
    induction ms using List.reverseRecOn with
    | nil => exact List.nodup_nil
    | append_singleton ms m ih =>
      rw [hideSameParameters_append_singleton]
      split
      · exact ih
      · next hnew =>
        rw [List.map_append, List.map_singleton]
        exact List.nodup_append'.mpr ⟨ih, List.nodup_singleton _, by simpa using hnew⟩
  covered := by
    rintro before m after rfl
    by_cases hold : m.parameters ∈ (hideSameParameters before).map (·.parameters)
    · obtain ⟨k, hk, heq⟩ := List.mem_map.mp hold
      exact .inr ⟨k, (hideSameParameters_sublist before).subset hk,
        (hideSameParameters_append before (m :: after)).subset hk, heq⟩
    · have hinitial := hideSameParameters_append (before ++ [m]) after
      rw [hideSameParameters_append_singleton, if_neg hold, List.append_assoc] at hinitial
      exact .inl (hinitial.subset (List.mem_append_right _ List.mem_cons_self))

/-- The first class of a chain that has fields of the name decides. -/
theorem takesNearestFields (o : StaticOwner) (n : String) :
    TakesNearestFields n o.chain (o.fields n) := by
  have hstatics : staticFields n = ClassStub.staticFields n := funext (staticFields_eq n)
  obtain ⟨chain⟩ := o
  rw [fields, hstatics]
  constructor
  · rintro before d after rfl hbefore hd
    have hnone : (before.map (ClassStub.staticFields n)).find? (fun fs => !fs.isEmpty) = none := by
      simpa using hbefore
    simp [List.find?_append, hnone, hd]
  · intro hnone
    have hfind : (chain.map (ClassStub.staticFields n)).find? (fun fs => !fs.isEmpty) = none := by
      simpa using hnone
    rw [hfind]
    rfl

/-- What the static import of a class sees: the static members of the class and of its supertypes
on the classpath. -/
structure Sees (maxDepth : Nat) (p : Classpath) (c : ClassStub) (o : StaticOwner) : Prop where
  chain : p.ListsSupertypes maxDepth c o.chain
  /-- Methods come from the class itself, and from its supertypes that are no interfaces. -/
  methods : ∀ n, HidesSameParameters
    ((c :: o.chain.tail.filter fun d => !d.kind.isInterface).flatMap (·.staticMethods n))
    (o.methods n)
  fields : ∀ n, TakesNearestFields n o.chain (o.fields n)

theorem sees_staticOwner {p : Classpath} {c : ClassStub} {internal : String}
    (hname : Dotless internal) (hc : p.stub? internal = some c) (config : Config) :
    ((staticOwner config c).value p).Sees config.maxSupertypeDepth p c where
  chain := listsSupertypes config hname hc
  methods := by
    intro n
    have hstatics : staticMethods n = ClassStub.staticMethods n := funext (staticMethods_eq n)
    rw [methods, methodChain, hstatics, chain_eq, List.tail_cons]
    simp only [TypeKind.passesOnStaticMethods_eq]
    exact hidesSameParameters _
  fields := takesNearestFields _

end StaticOwner

end JavaScope
