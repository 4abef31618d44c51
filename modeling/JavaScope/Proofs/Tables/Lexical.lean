/-
# Lexical resolution

What a name stands for in a scope is told by the declarations of the scope, by the members that
it inherits if it is a type body, and by what the name stands for in the scope around it
(`ResolvesInside`).  The tables that an analysis builds resolve names so at every scope but the
outermost one, whenever they are used (`buildTables_resolvesInside`).
-/
import JavaScope.Proofs.Shadow.Layers
import JavaScope.Proofs.Tables.Nesting

namespace JavaScope

/-! ## The layers of a scope -/

/-- The methods that a simple name can call: no constructors. -/
def callable (name : String) (ms : List MethodSymbol) : List MethodSymbol :=
  ms.filter fun m => !m.isConstructor && m.name = name

namespace ScopeKind

/-- The variables of a name that a scope adds to those around it, the nearest first. -/
def valueLayers (k : ScopeKind) (own : Declared) (levels : List Members) (name : String) :
    List (FrameKind × List VariableSymbol) :=
  let declared := own.vars.filter (·.name = name)
  match k with
  | typeBody _ =>
    (.members, declared) :: levels.map fun l => (.inherited, l.vars.filter (·.name = name))
  | methodBody | lambda => [(.formals, declared)]
  | block | catchClause | forHeader | compilationUnit => [(.locals, declared)]

/-- The types of a name that a scope adds to those around it, the nearest first. -/
def typeLayers (k : ScopeKind) (own : Declared) (levels : List Members) (name : String) :
    List (FrameKind × List TypeSymbol) :=
  let declared := own.types.filter (·.name = name)
  let parameters := own.typeParameters.filter (·.name = name)
  match k with
  | typeBody _ =>
    (.members, declared) :: (.typeParameters, parameters) ::
      levels.map fun l => (.inherited, l.types.filter (·.name = name))
  | methodBody | lambda => [(.locals, declared), (.typeParameters, parameters)]
  | block | catchClause | forHeader | compilationUnit => [(.locals, declared)]

/-- The methods of a name that a scope adds to those around it, the nearest first. -/
def methodsInside (k : ScopeKind) (own : Declared) (levels : List Members) (name : String) :
    List MethodSymbol :=
  match k with
  | typeBody _ => callable name own.methods ++ levels.flatMap fun l => callable name l.methods
  | _ => []

end ScopeKind

/-- Names resolve in a scope with the table `inner` as they do around it, in `outer`, but for
what the scope adds.  Look-ups of types are queries; `answer` answers them. -/
structure ResolvesInside (answer : Query (Option (Found TypeSymbol)) → Option (Found TypeSymbol))
    (k : ScopeKind) (own : Declared) (levels : List Members) (outer inner : SymbolTable) :
    Prop where
  values : ∀ name, FindsThrough (outer.resolveValue name) (k.valueLayers own levels name)
    (inner.resolveValue name)
  types : ∀ name, FindsThrough (answer (outer.resolveType name)) (k.typeLayers own levels name)
    (answer (inner.resolveType name))
  methods : ∀ name, inner.methodCandidates name none =
    k.methodsInside own levels name ++ outer.methodCandidates name none

/-! ## Pushed declarations -/

namespace TablePlace

variable {q : TablePlace} {n : String}

/-- The value that a group of variables gives a name. -/
abbrev valueIn (g : VariableGroup) (name : String) : Option (Found VariableSymbol) :=
  (g.resolveFirst (m := Id) (fun b n => pure (b.findVariables n)) name).run

/-- All methods of a name in a group of methods. -/
abbrev methodsIn (g : MethodGroup) (name : String) : List MethodSymbol :=
  (Candidates.allOf (m := Id) (fun b n => pure (b.findMethods n)) name g.frames).run

lemma pushVariables_layer {outside : Option (Found VariableSymbol)}
    {layers : List (FrameKind × List VariableSymbol)} {g : VariableGroup}
    (h : FindsThrough outside layers (valueIn g n)) (kind : FrameKind)
    (vars : List VariableSymbol) :
    FindsThrough outside ((kind, vars.filter (·.name = n)) :: layers)
      (valueIn (q.pushVariables kind vars g) n) := by
  have hfind : (bindVariables vars).find n = vars.filter (·.name = n) :=
    SymbolMap.find_ofList_map VariableSymbol.name vars n
  have hempty : Bindings.isDefinitelyEmpty (MemberBindings.declared (bindVariables vars)) →
      (bindVariables vars).find n = [] := fun h => SymbolMap.find_of_isEmpty h n
  rw [← hfind]
  exact h.push (fun _ => rfl) (fun _ => rfl) hempty _ kind

lemma pushTypes_layer
    {answer : Query (Option (Found TypeSymbol)) → Option (Found TypeSymbol)}
    (hanswer : ∀ x, answer (pure x) = x) {outside : Option (Found TypeSymbol)}
    {layers : List (FrameKind × List TypeSymbol)} {g : TypeGroup}
    (h : FindsThrough outside layers (answer (g.resolveFirst TypeBindings.find n)))
    (kind : FrameKind) (types : List TypeSymbol) :
    FindsThrough outside ((kind, types.filter (·.name = n)) :: layers)
      (answer ((q.pushTypes kind types g).resolveFirst TypeBindings.find n)) := by
  have hfind : (bindTypes types).find n = types.filter (·.name = n) :=
    SymbolMap.find_ofList_map TypeSymbol.name types n
  rw [← hfind]
  exact h.push hanswer (fun _ => rfl) (fun hempty => SymbolMap.find_of_isEmpty hempty n) _ kind

lemma methodsIn_pushMethods (kind : FrameKind) (methods : List MethodSymbol) (g : MethodGroup) :
    methodsIn (q.pushMethods kind methods g) n = callable n methods ++ methodsIn g n := by
  have hfind : (bindMethods methods).find n = callable n methods := by
    rw [bindMethods, SymbolMap.find_ofList_map MethodSymbol.name, List.filter_filter, callable]
    exact List.filter_congr fun m _ => Bool.and_comm _ _
  rw [← hfind]
  exact allOf_push rfl (fun hempty => SymbolMap.find_of_isEmpty hempty n) g _ kind

/-- Levels are pushed from the farthest on, so the nearest is asked first. -/
lemma inheritedVariables_layers (g : VariableGroup) (levels : List Members) :
    FindsThrough (valueIn g n)
      (levels.map fun l => (.inherited, l.vars.filter (·.name = n)))
      (valueIn (levels.foldr (fun l g => q.pushVariables .inherited l.vars g) g) n) := by
  induction levels with
  | nil => exact .outside
  | cons l levels ih => exact pushVariables_layer ih .inherited l.vars

lemma inheritedTypes_layers
    {answer : Query (Option (Found TypeSymbol)) → Option (Found TypeSymbol)}
    (hanswer : ∀ x, answer (pure x) = x) (g : TypeGroup) (levels : List Members) :
    FindsThrough (answer (g.resolveFirst TypeBindings.find n))
      (levels.map fun l => (.inherited, l.types.filter (·.name = n)))
      (answer ((levels.foldr (fun l g => q.pushTypes .inherited l.types g) g).resolveFirst
        TypeBindings.find n)) := by
  induction levels with
  | nil => exact .outside
  | cons l levels ih => exact pushTypes_layer hanswer ih .inherited l.types

lemma methodsIn_inherited (g : MethodGroup) (levels : List Members) :
    methodsIn (levels.foldr (fun l g => q.pushMethods .inherited l.methods g) g) n =
      (levels.flatMap fun l => callable n l.methods) ++ methodsIn g n := by
  induction levels with
  | nil => rfl
  | cons l levels ih =>
    rw [List.foldr_cons, methodsIn_pushMethods, ih, List.flatMap_cons, List.append_assoc]

/-! ## The tables of scopes -/

variable {answer : Query (Option (Found TypeSymbol)) → Option (Found TypeSymbol)}
  (hanswer : ∀ x, answer (pure x) = x)

include hanswer

lemma bodyTable_resolvesInside (q : TablePlace) (header : TypeHeader) (levels : List Members)
    (d : Declared) :
    ResolvesInside answer (.typeBody header) d levels q.parent (q.bodyTable levels d) where
  values name :=
    pushVariables_layer (inheritedVariables_layers q.parent.vars levels) .members d.vars
  types name := by
    have hinherited := inheritedTypes_layers (q := q) (n := name) hanswer q.parent.types levels
    have hparameters :=
      pushTypes_layer (q := q) hanswer hinherited .typeParameters d.typeParameters
    exact pushTypes_layer hanswer hparameters .members d.types
  methods name := by
    have hown := methodsIn_pushMethods (q := q) (n := name) .members d.methods
      (levels.foldr (fun l g => q.pushMethods .inherited l.methods g) q.parent.methods)
    rw [methodsIn_inherited, ← List.append_assoc] at hown
    exact hown

lemma methodTable_resolvesInside (q : TablePlace) {k : ScopeKind}
    (hk : k = .methodBody ∨ k = .lambda) (levels : List Members) (d : Declared) :
    ResolvesInside answer k d levels q.parent (q.methodTable d) := by
  have hlayers : ResolvesInside answer .methodBody d levels q.parent (q.methodTable d) :=
    ⟨fun _ => pushVariables_layer .outside .formals d.vars,
      fun _ => pushTypes_layer hanswer
        (pushTypes_layer hanswer .outside .typeParameters d.typeParameters) .locals d.types,
      fun _ => rfl⟩
  rcases hk with rfl | rfl
  · exact hlayers
  · exact ⟨hlayers.values, hlayers.types, hlayers.methods⟩

lemma blockTable_resolvesInside (q : TablePlace) {k : ScopeKind}
    (hk : k = .block ∨ k = .catchClause ∨ k = .forHeader) (levels : List Members) (d : Declared) :
    ResolvesInside answer k d levels q.parent (q.blockTable d) := by
  have hlayers : ResolvesInside answer .block d levels q.parent (q.blockTable d) :=
    ⟨fun _ => pushVariables_layer .outside .locals d.vars,
      fun _ => pushTypes_layer hanswer .outside .locals d.types, fun _ => rfl⟩
  rcases hk with rfl | rfl | rfl
  · exact hlayers
  · exact ⟨hlayers.values, hlayers.types, hlayers.methods⟩
  · exact ⟨hlayers.values, hlayers.types, hlayers.methods⟩

end TablePlace

/-- The levels of members that a scope inside `outer` inherits, the nearest first: none, unless
it is a type body. -/
def inheritedBy (x : FileContext) (p : Classpath) (outer : SymbolTable) (k : ScopeKind)
    (own : Declared) : List Members :=
  match k with
  | .typeBody header =>
    if x.config.inheritedMembers then (inheritedLevels x.config x.index outer header own).value p
    else []
  | _ => []

lemma value_scopeTable_typeBody (x : FileContext) (p : Classpath) (q : TablePlace)
    {i : ScopeInfo} {header : TypeHeader} (hkind : i.kind = .typeBody header) :
    (scopeTable x q i).value p =
      q.bodyTable (inheritedBy x p q.parent i.kind (x.index.declaredAt i.id))
        (x.index.declaredAt i.id) := by
  simp only [scopeTable, hkind, inheritedBy]
  by_cases hinherited : x.config.inheritedMembers
  · rw [if_pos hinherited, if_pos hinherited, Query.value_bind]
    rfl
  · rw [if_neg hinherited, if_neg hinherited]
    rfl

/-- The table of a scope resolves names inside of the table that it is built in. -/
lemma scopeTable_resolvesInside
    {answer : Query (Option (Found TypeSymbol)) → Option (Found TypeSymbol)}
    (hanswer : ∀ x, answer (pure x) = x) (x : FileContext) (p : Classpath) (q : TablePlace)
    {i : ScopeInfo} (hkind : i.kind ≠ .compilationUnit) {file : FileId} {t : String}
    (hdeclared : x.index.declaredAt i.id = .symbolsOf file (i.declaringType t) i.decls) :
    ResolvesInside answer i.kind (i.own file) (inheritedBy x p q.parent i.kind (i.own file))
      q.parent ((scopeTable x q i).value p) := by
  obtain ⟨id, kind, range, decls⟩ := i
  -- what a scope declares depends on the type around it only in the owners of its methods
  cases kind with
  | compilationUnit => exact absurd rfl hkind
  | typeBody header =>
    rw [value_scopeTable_typeBody x p q rfl, hdeclared]
    exact q.bodyTable_resolvesInside hanswer header _ _
  | methodBody =>
    rw [scopeTable, hdeclared]
    exact q.methodTable_resolvesInside hanswer (.inl rfl) _ _
  | lambda =>
    rw [scopeTable, hdeclared]
    exact q.methodTable_resolvesInside hanswer (.inr rfl) _ _
  | block =>
    rw [scopeTable, hdeclared]
    exact q.blockTable_resolvesInside hanswer (.inl rfl) _ _
  | catchClause =>
    rw [scopeTable, hdeclared]
    exact q.blockTable_resolvesInside hanswer (.inr (.inl rfl)) _ _
  | forHeader =>
    rw [scopeTable, hdeclared]
    exact q.blockTable_resolvesInside hanswer (.inr (.inr rfl)) _ _

/-! ## The tables of a file -/

namespace Analysis

/-- In a file whose scopes have different identities, and of which only the outermost is a
compilation unit, names resolve at every other scope as they do at the scope around it, but for
what the scope declares and inherits.  It does not matter what the analysis did before, nor
when types are looked up. -/
theorem buildTables_resolvesInside {config : Config} {p : Classpath} {a : Analysis}
    (hreach : Reaches ⟨config, p, {}⟩ a) {u : CompilationUnit} (hids : u.scopeIds.Nodup)
    (hkinds : ∀ s ∈ Scope.descendantsOfAll u.root.children, s.info.kind ≠ .compilationUnit)
    (later : Analysis) :
    ∀ s ∈ Scope.descendantsOfAll u.root.children,
      ∃ around ∈ u.root.descendants, s ∈ around.children ∧
        ∃ outer inner, (a.buildTables u).1.get? around.info.id = some outer ∧
          (a.buildTables u).1.get? s.info.id = some inner ∧
          ResolvesInside (fun q => (later.answer q).1) s.info.kind (s.info.own u.file)
            (inheritedBy (.ofUnit config u) p outer s.info.kind (s.info.own u.file))
            outer inner := by
  intro s hs
  have hnew : Sound config p ⟨config, p, {}⟩ := ⟨rfl, rfl, Store.faithful_empty p⟩
  have hvalue := ((hnew.reaches hreach).buildTables u).1
  obtain ⟨around, haround, hchild, hnests⟩ := nests_buildTables p config u hs
  obtain ⟨e, he, f, hf, henode, hfnode, number, htable⟩ := hnests
  have hnodes : ((a.buildTables u).1.entries.map (·.node)).Nodup := by
    rw [hvalue, map_node_buildTables]
    exact hids
  rw [← hvalue] at he hf
  refine ⟨around, haround, hchild, e.table, f.table, ?_, ?_, ?_⟩
  · rw [← henode]
    exact ScopeTables.get?_node hnodes he
  · rw [← hfnode]
    exact ScopeTables.get?_node hnodes hf
  · obtain ⟨t, hdeclared⟩ :=
      FileIndex.declaredAt_ofUnit hids (Scope.mem_descendants.mpr (.inr hs))
    rw [htable]
    exact scopeTable_resolvesInside (fun _ => rfl) _ p ⟨e.table, number⟩ (hkinds s hs) hdeclared

/-- A file with a class whose only method has a parameter with the name of a field. -/
def hidingUnit : CompilationUnit where
  file := ⟨0⟩
  package := none
  imports := []
  root := .node ⟨⟨0⟩, .compilationUnit, ⟨0, 40⟩, [.type ⟨⟨1⟩, "A", .normalClass, .none⟩]⟩
    [.node ⟨⟨2⟩, .typeBody ⟨"A", none, []⟩, ⟨10, 40⟩,
        [.var ⟨⟨3⟩, "x", .field, .none, some "int"⟩, .method ⟨⟨4⟩, "f", .none, ["int"], none⟩]⟩
      [.node ⟨⟨5⟩, .methodBody, ⟨20, 30⟩,
        [.var ⟨⟨6⟩, "x", .formalParameter, .none, some "int"⟩]⟩ []]]

/-- In the body of the method and in the body of the class, names resolve inside of the scope
around. -/
theorem buildTables_resolvesInside_hidingUnit :
    let p := MemoryClasspath.toClasspath {}
    let a : Analysis := ⟨{}, p, {}⟩
    let u := hidingUnit
    a.Reaches a ∧ u.scopeIds.Nodup ∧
      (∀ s ∈ Scope.descendantsOfAll u.root.children, s.info.kind ≠ .compilationUnit) ∧
      ∀ s ∈ Scope.descendantsOfAll u.root.children,
        ∃ around ∈ u.root.descendants, s ∈ around.children ∧
          ∃ outer inner, (a.buildTables u).1.get? around.info.id = some outer ∧
            (a.buildTables u).1.get? s.info.id = some inner ∧
            ResolvesInside (fun q => (a.answer q).1) s.info.kind (s.info.own u.file)
              (inheritedBy (.ofUnit {} u) p outer s.info.kind (s.info.own u.file))
              outer inner := by
  intro p a u
  have hids : u.scopeIds.Nodup := by decide
  have hkinds : ∀ s ∈ Scope.descendantsOfAll u.root.children, s.info.kind ≠ .compilationUnit := by
    decide
  exact ⟨.refl, hids, hkinds, buildTables_resolvesInside .refl hids hkinds a⟩

end Analysis

end JavaScope
