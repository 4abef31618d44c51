/-
# Static imports

A static import is of all static members of a class, or of those of one name.  The members of one
name are looked for when the import is read and bound then, and all others whenever a name is asked
for; but both are taken from the chain of the class (`StaticOwner.Sees`).  So where either is the
only static import of a file, the name stands for the same variables and methods at the root of the
file, whichever import it is (`staticImports_see`).
-/
import JavaScope.Proofs.Tables.StaticOwners

namespace JavaScope

/-! ## Names of static imports -/

namespace Name

variable {p : Char → Bool} {c : Char} {ds : List Char}

lemma afterLast_append (cs : List Char) (hc : p c = true) (hds : ∀ d ∈ ds, p d = false) :
    afterLast p (cs ++ c :: ds) = ds := by
  have hstop : (cs ++ c :: ds).reverse = ds.reverse ++ c :: cs.reverse := by simp
  rw [afterLast, hstop, List.takeWhile_append_of_pos (by simpa using hds),
    List.takeWhile_cons_of_neg (by simp [hc]), List.append_nil, List.reverse_reverse]

lemma beforeLast_append (cs : List Char) (hc : p c = true) (hds : ∀ d ∈ ds, p d = false) :
    beforeLast p (cs ++ c :: ds) = cs := by
  have hstop : (cs ++ c :: ds).reverse = ds.reverse ++ c :: cs.reverse := by simp
  rw [beforeLast, hstop, List.dropWhile_append_of_pos (by simpa using hds),
    List.dropWhile_cons_of_neg (by simp [hc]), List.drop_succ_cons, List.drop_zero,
    List.reverse_reverse]

/-- A name behind a dot is the last segment, if it has no dot itself. -/
lemma lastSegment_append (dotted : String) {n : String} (hn : '.' ∉ n.toList) :
    lastSegment (dotted ++ "." ++ n) = n := by
  have hchars : (dotted ++ "." ++ n).toList = dotted.toList ++ '.' :: n.toList := by simp
  rw [lastSegment, hchars, afterLast_append dotted.toList (by simp), String.ofList_toList]
  exact fun d hd => decide_eq_false fun h => hn (h ▸ hd)

lemma qualifier_append (dotted : String) {n : String} (hn : '.' ∉ n.toList) :
    qualifier (dotted ++ "." ++ n) = dotted := by
  have hchars : (dotted ++ "." ++ n).toList = dotted.toList ++ '.' :: n.toList := by simp
  rw [qualifier, hchars, beforeLast_append dotted.toList (by simp), String.ofList_toList]
  exact fun d hd => decide_eq_false fun h => hn (h ▸ hd)

end Name

/-! ## What static imports bring in -/

namespace Imported

/-- What is imported statically. -/
def statics (i : Imported) :
    List StaticOwner × SymbolMap VariableSymbol × SymbolMap MethodSymbol :=
  (i.staticOwners, i.staticFields, i.staticMethods)

end Imported

section Values

variable (p : Classpath) (config : Config) (file : FileId)

lemma statics_addImport {i : Import} (hi : i.isStatic = false) (acc : Imported) :
    ((acc.add config file i).value p).statics = acc.statics := by
  cases hdemand : i.onDemand with
  | true =>
    simp only [Imported.add, hi, hdemand]
    rfl
  | false =>
    simp only [Imported.add, hi, hdemand, importType, Query.value_bind, value_resolveDotted]
    cases p.classNamed i.name <;> rfl

/-- Imports of types bring no members in. -/
lemma statics_addAll {imports : List Import} (h : ∀ i ∈ imports, i.isStatic = false)
    (acc : Imported) : ((acc.addAll config file imports).value p).statics = acc.statics := by
  induction imports generalizing acc with
  | nil => rfl
  | cons i rest ih =>
    rw [Imported.addAll, Query.value_bind, ih fun i hi => h i (List.mem_cons_of_mem _ hi),
      statics_addImport p config file (h i List.mem_cons_self)]

lemma value_addAll_append (imports more : List Import) (acc : Imported) :
    (acc.addAll config file (imports ++ more)).value p =
      (((acc.addAll config file imports).value p).addAll config file more).value p := by
  induction imports generalizing acc with
  | nil => rfl
  | cons i rest ih =>
    rw [List.cons_append, Imported.addAll, Imported.addAll, Query.value_bind, Query.value_bind, ih]

/-- The members come from the only static import, whatever types are imported around it. -/
lemma statics_importsOf {u : CompilationUnit} {before after : List Import} {i : Import}
    (himports : u.imports = before ++ i :: after) (hbefore : ∀ j ∈ before, j.isStatic = false)
    (hafter : ∀ j ∈ after, j.isStatic = false)
    {s : List StaticOwner × SymbolMap VariableSymbol × SymbolMap MethodSymbol}
    (hi : ∀ acc : Imported, acc.statics = ([], {}, {}) →
      ((acc.add config u.file i).value p).statics = s) :
    ((importsOf config u).value p).statics = s := by
  rw [importsOf, himports, value_addAll_append, Imported.addAll, Query.value_bind,
    statics_addAll p config u.file hafter]
  exact hi _ (statics_addAll p config u.file hbefore _)

variable {p} {dotted : String} {c : ClassStub} (hc : p.classNamed dotted = some c)

include hc

/-- All static members of a class are imported with its chain. -/
lemma statics_addOnDemand (node : NodeId) (acc : Imported) :
    ((acc.add config file ⟨node, dotted, true, true⟩).value p).statics =
      (acc.statics.1 ++ [(staticOwner config c).value p], acc.statics.2) := by
  simp only [Imported.add, importStatics, Query.value_bind, value_resolveDotted, hc]
  rfl

/-- The static members of one name are imported as the chain of the class has them. -/
lemma statics_addNamed (node : NodeId) {n : String} (hn : '.' ∉ n.toList) (acc : Imported) :
    let owner := (staticOwner config c).value p
    ((acc.add config file ⟨node, dotted ++ "." ++ n, true, false⟩).value p).statics =
      (acc.statics.1, acc.statics.2.1.insertAll ((owner.fields n).map fun f => (n, f)),
        acc.statics.2.2.insertAll ((owner.methods n).map fun m => (n, m))) := by
  have hqualifier : Import.qualifier ⟨node, dotted ++ "." ++ n, true, false⟩ = dotted :=
    Name.qualifier_append dotted hn
  have hsimple : Import.simpleName ⟨node, dotted ++ "." ++ n, true, false⟩ = n :=
    Name.lastSegment_append dotted hn
  simp only [Imported.add, importStatic, Query.value_bind, value_resolveDotted, hqualifier,
    hsimple, hc]
  rfl

end Values

/-! ## Look-ups -/

section Outcomes

variable {α : Type}

/-- What a find tells but for its frame: the binding, and whether it is ambiguous. -/
def Found.outcome (x : Found α) : α × Bool := (x.result, x.isAmbiguous)

/-- What is found where these are the bindings of the nearest frame that has any. -/
def nearestOf (as : List α) : Option (α × Bool) := as.head?.map fun a => (a, decide (1 < as.length))

end Outcomes

namespace Resolvers

variable {m : Type → Type} [Monad m] {ρ α : Type} [Bindings ρ] (r : Resolvers m ρ α)

/-- Look-ups of a name find these bindings, all in one frame. -/
structure Finds (name : String) (g : ShadowGroup ρ) (as : List α) : Prop where
  nearest : (r.value (g.resolveFirst r.ask name)).map Found.outcome = nearestOf as
  candidates : ∀ n, (r.value ((g.resolveAll name).take r.ask n)).1 = as.take n
  all : r.value ((g.resolveAll name).drain r.ask) = as

/-- What a step binds is nearer than what was found before. -/
lemma outcome_perform (g : ShadowGroup ρ) (s : PushStep ρ α) (name : String) :
    (r.value ((r.perform g s).resolveFirst r.ask name)).map Found.outcome =
      (nearestOf (r.binds name s)).or ((r.value (g.resolveFirst r.ask name)).map Found.outcome) := by
  have hstep := (r.value_resolveFirst_perform g s name).2
  cases hbinds : r.binds name s with
  | nil =>
    rw [hbinds] at hstep
    rw [hstep]
    rfl
  | cons a more =>
    rw [hbinds] at hstep
    obtain ⟨f, -, -, hfound⟩ := hstep
    rw [hfound]
    cases more <;> simp [nearestOf, Found.outcome]

lemma scan_pair (s t : PushStep ρ α) (name : String) :
    r.scan [s, t] name = r.binds name t ++ r.binds name s := by
  simp [scan]

/-- If one of two steps binds nothing to a name, look-ups find what the other binds. -/
lemma finds_built (s t : PushStep ρ α) {name : String}
    (h : r.binds name s = [] ∨ r.binds name t = []) :
    r.Finds name (r.built [s, t]) (r.binds name t ++ r.binds name s) where
  nearest := by
    have hnone : r.value (ShadowGroup.resolveFirst r.ask .empty name) = none := r.value_pure none
    rw [show r.built [s, t] = r.perform (r.perform .empty s) t from rfl, outcome_perform,
      outcome_perform, hnone]
    rcases h with h | h
    · rw [h, List.append_nil]
      exact Option.or_none
    · rw [h, List.nil_append]
      exact Option.or_none
  candidates := by
    intro n
    have hdraws := r.draws_frames name (r.built [s, t]).frames []
    rw [r.flatMap_frames_built, scan_pair] at hdraws
    exact hdraws.take n
  all := by
    have hall := r.value_allOf name (r.built [s, t]).frames
    rw [r.flatMap_frames_built, scan_pair] at hall
    rw [Candidates.drain, r.value_bind, r.value_pure]
    exact hall

end Resolvers

/-! ## Members at the root -/

/-- What look-ups of a name tell about variables and methods. -/
@[ext]
structure MembersNamed where
  /-- The variable that the name refers to, and whether that is ambiguous. -/
  value : Option (VariableSymbol × Bool)
  /-- The variables of the name in all frames. -/
  vars : List VariableSymbol
  /-- The nearest method of the name, and whether its frame has others. -/
  method : Option (MethodSymbol × Bool)
  /-- The methods that can be called by the name: the first ones up to a limit, or all. -/
  methods : Option Nat → List MethodSymbol

/-- What look-ups tell where one frame has the variables of a name and one has the methods. -/
def MembersNamed.ofFrames (vars : List VariableSymbol) (ms : List MethodSymbol) :
    MembersNamed where
  value := nearestOf vars
  vars := vars
  method := nearestOf ms
  methods limit := (limit.map ms.take).getD ms

/-- What look-ups of a name in a table tell about variables and methods. -/
def SymbolTable.membersNamed (t : SymbolTable) (name : String) : MembersNamed where
  value := (t.resolveValue name).map Found.outcome
  vars := Id.run ((t.vars.resolveAll name).drain fun b n => pure (b.findVariables n))
  method := (Id.run (t.methods.resolveFirst (fun b n => pure (b.findMethods n)) name)).map
    Found.outcome
  methods := t.methodCandidates name

lemma SymbolTable.membersNamed_eq {t : SymbolTable} {name : String} {vars : List VariableSymbol}
    {ms : List MethodSymbol} (hvars : MemberBindings.variableResolvers.Finds name t.vars vars)
    (hms : MemberBindings.methodResolvers.Finds name t.methods ms) :
    t.membersNamed name = .ofFrames vars ms := by
  have hcandidates (limit : Option Nat) :
      t.methodCandidates name limit = (limit.map ms.take).getD ms := by
    cases limit with
    | none => exact hms.all
    | some n => exact hms.candidates n
  exact MembersNamed.ext hvars.nearest hvars.all hms.nearest (funext hcandidates)

section Root

variable (p : Classpath) (config : Config)

/-- The table of the outermost scope is that of the first entry. -/
lemma root_buildTables (u : CompilationUnit) :
    ((buildTables config u).value p).root =
      (scopeTable (.ofUnit config u) ⟨.empty, 0⟩ u.root.info).value p := by
  rw [ScopeTables.root, entries_buildTables]
  cases u.root with
  | node i children =>
    rw [scopeEntries, Query.value_bind, Query.value_bind]
    rfl

/-- Members are looked up among those imported by name and then in the chains. -/
lemma membersNamed_unitTable (package : String) (i : Imported) (d : Declared) (name : String)
    (h : i.staticOwners = [] ∨ i.staticFields.find name = [] ∧ i.staticMethods.find name = []) :
    (TablePlace.unitTable ⟨.empty, 0⟩ package i d).membersNamed name =
      .ofFrames (i.staticFields.find name ++ i.staticOwners.flatMap (·.fields name))
        (i.staticMethods.find name ++ i.staticOwners.flatMap (·.methods name)) := by
  have hvars := MemberBindings.variableResolvers.finds_built
    (.push 1 .staticOnDemandImport (.statics i.staticOwners))
    (.push 1 .singleStaticImport (.declared i.staticFields))
    (h.imp (fun hnone => by rw [hnone]; rfl) And.left)
  have hms := MemberBindings.methodResolvers.finds_built
    (.push 2 .staticOnDemandImport (.statics i.staticOwners))
    (.push 2 .singleStaticImport (.declared i.staticMethods))
    (h.imp (fun hnone => by rw [hnone]; rfl) And.right)
  exact SymbolTable.membersNamed_eq hvars hms

/-- Only in a compilation unit does it matter at the root what is imported. -/
lemma root_eq_of_imports {u : CompilationUnit} (hroot : u.root.info.kind ≠ .compilationUnit)
    (imports imports' : List Import) :
    ((buildTables config { u with imports := imports }).value p).root =
      ((buildTables config { u with imports := imports' }).value p).root := by
  rw [root_buildTables, root_buildTables]
  cases hkind : u.root.info.kind with
  | compilationUnit => exact absurd hkind hroot
  | _ =>
    simp only [scopeTable, hkind]
    rfl

variable {p}

lemma membersNamed_root {u : CompilationUnit} (hroot : u.root.info.kind = .compilationUnit)
    {owners : List StaticOwner} {vars : SymbolMap VariableSymbol} {ms : SymbolMap MethodSymbol}
    (hstatics : ((importsOf config u).value p).statics = (owners, vars, ms)) {name : String}
    (h : owners = [] ∨ vars.find name = [] ∧ ms.find name = []) :
    ((buildTables config u).value p).root.membersNamed name =
      .ofFrames (vars.find name ++ owners.flatMap (·.fields name))
        (ms.find name ++ owners.flatMap (·.methods name)) := by
  simp only [Imported.statics, Prod.mk.injEq] at hstatics
  obtain ⟨rfl, rfl, rfl⟩ := hstatics
  rw [root_buildTables]
  simp only [scopeTable, hroot, Query.value_bind, Query.value_pure]
  exact membersNamed_unitTable _ _ _ name h

section Only

variable {u : CompilationUnit} (hroot : u.root.info.kind = .compilationUnit) {dotted : String}
  {c : ClassStub} (hc : p.classNamed dotted = some c) {before after : List Import}
  (hbefore : ∀ i ∈ before, i.isStatic = false) (hafter : ∀ i ∈ after, i.isStatic = false)
  {node : NodeId} {n : String}

include hroot hc hbefore hafter

/-- Where the only static import is of all members of a class, the chain of the class is asked. -/
lemma membersNamed_onDemand
    (himports : u.imports = before ++ ⟨node, dotted, true, true⟩ :: after) :
    let owner := (staticOwner config c).value p
    ((buildTables config u).value p).root.membersNamed n =
      .ofFrames (owner.fields n) (owner.methods n) := by
  intro owner
  have hstatics : ((importsOf config u).value p).statics = ([owner], {}, {}) := by
    refine statics_importsOf p config himports hbefore hafter fun acc hacc => ?_
    rw [statics_addOnDemand config u.file hc, hacc, List.nil_append]
  rw [membersNamed_root config hroot hstatics (.inr ⟨rfl, rfl⟩), List.flatMap_singleton,
    List.flatMap_singleton]
  rfl

/-- Where the only static import is of the members of one name, they are those that the chain of
the class has. -/
lemma membersNamed_single (hn : '.' ∉ n.toList)
    (himports : u.imports = before ++ ⟨node, dotted ++ "." ++ n, true, false⟩ :: after) :
    let owner := (staticOwner config c).value p
    ((buildTables config u).value p).root.membersNamed n =
      .ofFrames (owner.fields n) (owner.methods n) := by
  intro owner
  have hstatics : ((importsOf config u).value p).statics =
      ([], .ofList ((owner.fields n).map fun f => (n, f)),
        .ofList ((owner.methods n).map fun m => (n, m))) := by
    refine statics_importsOf p config himports hbefore hafter fun acc hacc => ?_
    rw [statics_addNamed config u.file hc node hn, hacc]
    rfl
  have hfind {α : Type} (as : List α) :
      (SymbolMap.ofList (as.map fun a => (n, a))).find n = as := by
    rw [SymbolMap.find_ofList, List.filter_map, List.map_map]
    simp
  rw [membersNamed_root config hroot hstatics (.inl rfl), hfind, hfind]
  simp

end Only

end Root

namespace Analysis

/-- Whatever a run did before, the static import of a class comes with the same chain, whose members
are seen as `StaticOwner.Sees` says.  Take two files that differ in their only static import, which
is of all static members of the class in one file, and of those of one name in the other.  At their
roots the name stands for the same variables and methods, and in a compilation unit these are those
of the chain. -/
theorem staticImports_see {config : Config} {p : Classpath} {fresh : Analysis}
    (hnew : Analysis.new config p = .ok fresh) {dotted : String} {c : ClassStub}
    (hc : p.classNamed dotted = some c) :
    ∃ owner : StaticOwner, (∀ a, fresh.Reaches a → (a.answer (staticOwner config c)).1 = owner) ∧
      owner.Sees config.maxSupertypeDepth p c ∧
      ∀ (u : CompilationUnit) (before after : List Import),
        (∀ i ∈ before, i.isStatic = false) → (∀ i ∈ after, i.isStatic = false) →
        ∀ n, '.' ∉ n.toList → ∀ node node' a b, fresh.Reaches a → fresh.Reaches b →
          let single :=
            { u with imports := before ++ ⟨node, dotted ++ "." ++ n, true, false⟩ :: after }
          let onDemand := { u with imports := before ++ ⟨node', dotted, true, true⟩ :: after }
          let t := (a.buildTables single).1.root
          let t' := (b.buildTables onDemand).1.root
          t.membersNamed n = t'.membersNamed n ∧
            (u.root.info.kind = .compilationUnit →
              t.membersNamed n = .ofFrames (owner.fields n) (owner.methods n)) := by
  have hfresh := sound_new hnew
  obtain ⟨internal, hinternal, hstub⟩ := List.exists_of_findSome?_eq_some hc
  refine ⟨(staticOwner config c).value p, fun a ha => ((hfresh.reaches ha).answer _).1,
    StaticOwner.sees_staticOwner (dotless_of_mem_candidates hinternal) hstub config, ?_⟩
  intro u before after hbefore hafter n hn node node' a b ha hb single onDemand
  rw [((hfresh.reaches ha).buildTables single).1, ((hfresh.reaches hb).buildTables onDemand).1]
  by_cases hroot : u.root.info.kind = .compilationUnit
  · have hsingle := membersNamed_single config (u := single) hroot hc hbefore hafter hn rfl
    have hdemand := membersNamed_onDemand config (u := onDemand) (n := n) hroot hc hbefore hafter rfl
    exact ⟨hsingle.trans hdemand.symm, fun _ => hsingle⟩
  · have hsame := root_eq_of_imports p config hroot single.imports onDemand.imports
    exact ⟨congrArg (SymbolTable.membersNamed · n) hsame, fun h => absurd h hroot⟩

/-- Two classes that extend each other.  The second one, `B`, has a static method. -/
def cyclicClasses : MemoryClasspath where
  classes :=
    [("A", [0xCA, 0xFE, 0xBA, 0xBE, 0, 0, 0, 52,
        0, 5, 7, 0, 2, 1, 0, 1, 65, 7, 0, 4, 1, 0, 1, 66,
        0, 33, 0, 1, 0, 3, 0, 0, 0, 0, 0, 0, 0, 0]),
      ("B", [0xCA, 0xFE, 0xBA, 0xBE, 0, 0, 0, 52,
        0, 7, 7, 0, 2, 1, 0, 1, 66, 7, 0, 4, 1, 0, 1, 65, 1, 0, 1, 109, 1, 0, 3, 40, 41, 86,
        0, 33, 0, 1, 0, 3, 0, 0, 0, 0, 0, 1, 0, 9, 0, 5, 0, 6, 0, 0, 0, 0])]

/-- The class `A`. -/
def cyclicClass : ClassStub := (cyclicClasses.toClasspath.classNamed "A").getD default

/-- What a static import of `A` sees. -/
def cyclicOwner : StaticOwner := (staticOwner {} cyclicClass).value cyclicClasses.toClasspath

lemma chain_cyclicClasses : cyclicOwner.chain.map (·.binaryName) = ["A", "B"] := by rfl

lemma methods_cyclicClasses : (cyclicOwner.methods "m").map (·.declaringType) = ["B"] := by rfl

lemma fields_cyclicClasses : cyclicOwner.fields "m" = [] := by rfl

/-- The method `m` of `B` is seen through `A`, whichever import of `A` there is. -/
theorem staticImports_see_cyclicClasses :
    let p := cyclicClasses.toClasspath
    let a : Analysis := ⟨{}, p, {}⟩
    let u := importing ⟨0⟩ ""
    let single := { u with imports := [⟨⟨0⟩, "A" ++ "." ++ "m", true, false⟩] }
    let onDemand := { u with imports := [⟨⟨0⟩, "A", true, true⟩] }
    Analysis.new {} p = .ok a ∧ p.classNamed "A" = some cyclicClass ∧
      cyclicOwner.Sees 64 p cyclicClass ∧ cyclicOwner.chain.map (·.binaryName) = ["A", "B"] ∧
      (cyclicOwner.methods "m").map (·.declaringType) = ["B"] ∧
      (a.buildTables single).1.root.membersNamed "m" = .ofFrames [] (cyclicOwner.methods "m") ∧
      (a.buildTables onDemand).1.root.membersNamed "m" =
        .ofFrames [] (cyclicOwner.methods "m") := by
  intro p a u single onDemand
  have hnew : Analysis.new {} p = .ok a := rfl
  have hc : p.classNamed "A" = some cyclicClass := rfl
  obtain ⟨owner, howner, hsees, hroots⟩ := staticImports_see hnew hc
  obtain rfl : owner = cyclicOwner := by
    rw [← howner a .refl, ((sound_new hnew).answer _).1]
    rfl
  obtain ⟨hsame, hroot⟩ := hroots u [] [] (by simp) (by simp) "m" (by decide) ⟨0⟩ ⟨0⟩ a a .refl
    .refl
  have hsingle := hroot rfl
  rw [fields_cyclicClasses] at hsingle
  exact ⟨hnew, hc, hsees, chain_cyclicClasses, methods_cyclicClasses, hsingle,
    hsame.symm.trans hsingle⟩

end Analysis

end JavaScope
