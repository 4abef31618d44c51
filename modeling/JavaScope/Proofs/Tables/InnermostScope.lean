/-
# The innermost scope at an offset

Where the ranges of scopes nest as the scopes do, the table at an offset is found by going down from
the outermost scope, always into the scope inside whose range has the offset (`tableAt_descends`).
The entries of a file are searched as a list for the greatest depth.  That finds the same: as no two
scopes next to each other have the offset, the entries that have it are those on the way down.
-/
import JavaScope.Proofs.Tables.TableTree

namespace JavaScope

/-! ## Ranges inside ranges -/

namespace TextRange

/-- Every offset of the range is in the other.  An empty range is within any. -/
def Within (r outer : TextRange) : Prop := ∀ o, r.includes o → outer.includes o

/-- No offset is in both ranges. -/
def Apart (r r' : TextRange) : Prop := ∀ o, ¬ (r.includes o ∧ r'.includes o)

variable {r r' : TextRange}

lemma includes_iff {o : Nat} : r.includes o ↔ r.start ≤ o ∧ o < r.stop := by
  simp [includes]

lemma within_of_le (hstart : r'.start ≤ r.start) (hstop : r.stop ≤ r'.stop) : r.Within r' := by
  intro o ho
  have := includes_iff.mp ho
  exact includes_iff.mpr (by omega)

/-- A range ends before the one behind it begins, or where it begins. -/
lemma apart_of_le (h : r.stop ≤ r'.start) : r.Apart r' := by
  rintro o ⟨ho, ho'⟩
  have := includes_iff.mp ho
  have := includes_iff.mp ho'
  omega

end TextRange

namespace Scope

/-- The range of each scope is within that of the scope around it, and apart from those of the
scopes next to it. -/
structure RangesNest (root : Scope) : Prop where
  within : ∀ s ∈ root.descendants, ∀ c ∈ s.children, c.info.range.Within s.info.range
  apart : ∀ s ∈ root.descendants, s.children.Pairwise fun c d => c.info.range.Apart d.info.range

namespace RangesNest

variable {r s c : Scope}

lemma of_mem (h : r.RangesNest) (hs : s ∈ r.descendants) : s.RangesNest where
  within d hd := h.within d (mem_trans hs hd)
  apart d hd := h.apart d (mem_trans hs hd)

lemma child (h : r.RangesNest) (hc : c ∈ r.children) : c.RangesNest :=
  h.of_mem (mem_of_encloses (encloses_child hc))

/-- The range of a scope is within those of all scopes around it. -/
lemma within_root (h : r.RangesNest) (hs : s ∈ r.descendants) :
    s.info.range.Within r.info.range := by
  induction r using induct with
  | node i cs ih =>
    rcases mem_descendants.mp hs with rfl | hs
    · exact fun _ ho => ho
    · obtain ⟨c, hc, hs⟩ := encloses_iff.mp hs
      exact fun o ho => h.within _ (mem_self _) c hc o (ih c hc (h.child hc) hs o ho)

/-- So ranges nest where scopes follow each other in the text. -/
lemma of_le
    (hwithin : ∀ s ∈ r.descendants, ∀ c ∈ s.children,
      s.info.range.start ≤ c.info.range.start ∧ c.info.range.stop ≤ s.info.range.stop)
    (hapart : ∀ s ∈ r.descendants,
      s.children.Pairwise fun c d => c.info.range.stop ≤ d.info.range.start) : r.RangesNest where
  within s hs c hc := TextRange.within_of_le (hwithin s hs c hc).1 (hwithin s hs c hc).2
  apart s hs := (hapart s hs).imp TextRange.apart_of_le

end RangesNest

end Scope

namespace TableTree

variable {offset : Nat} {tree t c : TableTree}

/-! ## The way down -/

/-- The way down from one scope to another: always into a scope whose range has the offset, as long
as there is one. -/
inductive Descends (offset : Nat) : TableTree → TableTree → Prop
  | stop {t : TableTree} :
      (∀ c ∈ t.inside, c.info.range.includes offset = false) → Descends offset t t
  | into {t c s : TableTree} :
      c ∈ t.inside → c.info.range.includes offset → Descends offset c s → Descends offset t s

lemma exists_descends (offset : Nat) (tree : TableTree) : ∃ t, tree.Descends offset t := by
  induction tree using induct with
  | node i e ts ih =>
    by_cases hinside : ∃ c ∈ ts, c.info.range.includes offset
    · obtain ⟨c, hc, hoffset⟩ := hinside
      obtain ⟨t, ht⟩ := ih c hc
      exact ⟨t, .into hc hoffset ht⟩
    · exact ⟨_, .stop fun c hc => by simpa using fun ho => hinside ⟨c, hc, ho⟩⟩

/-! ## The scopes that have an offset -/

/-- The scopes of a tree whose ranges have the offset. -/
def covering (offset : Nat) (t : TableTree) : List TableTree :=
  t.subtrees.filter fun s => s.info.range.includes offset

lemma scope_mem_children (hc : c ∈ t.inside) : c.scope ∈ t.scope.children := by
  rw [children_scope]
  exact List.mem_map_of_mem hc

lemma covering_eq_nil (h : t.scope.RangesNest) (hout : t.info.range.includes offset = false) :
    t.covering offset = [] := by
  refine List.filter_eq_nil_iff.mpr fun s hs ho => ?_
  have hmem : s.scope ∈ t.scope.descendants := by
    rw [← map_scope_subtrees]
    exact List.mem_map_of_mem hs
  have hroot := h.within_root hmem offset (by rwa [info_scope])
  rw [info_scope, hout] at hroot
  cases hroot

lemma covering_eq_cons (hin : t.info.range.includes offset) :
    t.covering offset = t :: t.inside.flatMap (covering offset) := by
  rw [covering, subtrees_eq, List.filter_cons, if_pos hin, List.filter_flatMap]
  rfl

lemma covering_stop (h : t.scope.RangesNest) (hin : t.info.range.includes offset)
    (hstop : ∀ c ∈ t.inside, c.info.range.includes offset = false) : t.covering offset = [t] := by
  rw [covering_eq_cons hin, List.flatMap_eq_nil_iff.mpr fun c hc =>
    covering_eq_nil (h.child (scope_mem_children hc)) (hstop c hc)]

/-- Of the scopes inside a scope only one can have the offset. -/
lemma covering_into (h : t.scope.RangesNest) (hin : t.info.range.includes offset)
    (hc : c ∈ t.inside) (hcin : c.info.range.includes offset) :
    t.covering offset = t :: c.covering offset := by
  have hapart : t.inside.Pairwise fun c d => c.info.range.Apart d.info.range := by
    have hchildren := h.apart t.scope (Scope.mem_self _)
    rw [children_scope, List.pairwise_map] at hchildren
    simpa only [info_scope] using hchildren
  obtain ⟨before, after, hsplit⟩ := List.append_of_mem hc
  have hempty {d : TableTree} (hd : d ∈ t.inside) (hout : ¬ d.info.range.includes offset) :
      d.covering offset = [] :=
    covering_eq_nil (h.child (scope_mem_children hd)) (by simpa using hout)
  rw [hsplit] at hapart hempty
  obtain ⟨-, hapart, hbefore⟩ := List.pairwise_append.mp hapart
  have hfirst : before.flatMap (covering offset) = [] :=
    List.flatMap_eq_nil_iff.mpr fun d hd => hempty (List.mem_append_left _ hd)
      fun ho => hbefore d hd c List.mem_cons_self offset ⟨ho, hcin⟩
  have hlast : after.flatMap (covering offset) = [] :=
    List.flatMap_eq_nil_iff.mpr fun d hd =>
      hempty (List.mem_append_right _ (List.mem_cons_of_mem _ hd))
        fun ho => (List.pairwise_cons.mp hapart).1 d hd offset ⟨hcin, ho⟩
  rw [covering_eq_cons hin, hsplit, List.flatMap_append, List.flatMap_cons, hfirst, hlast,
    List.nil_append, List.append_nil]

/-! ## The deepest entry -/

lemma deeper_of_le {best : Option ScopeEntry} {e : ScopeEntry}
    (h : ∀ b ∈ best, b.depth ≤ e.depth) : ScopeTables.deeper best e = some e := by
  cases best with
  | none => rfl
  | some b => exact if_pos (h b rfl)

/-- The deepest of the entries that have the offset is the one at the end of the way down. -/
lemma Descends.foldl_deeper (hdown : tree.Descends offset t) {q : TablePlace} {depth : Nat}
    (hlinked : tree.Linked q depth) (hnest : tree.scope.RangesNest)
    (hin : tree.info.range.includes offset) {best : Option ScopeEntry}
    (hbest : ∀ b ∈ best, b.depth ≤ tree.entry.depth) :
    ((tree.covering offset).map entry).foldl ScopeTables.deeper best = some t.entry := by
  induction hdown generalizing q depth best with
  | stop hstop =>
    rw [covering_stop hnest hin hstop, List.map_singleton, List.foldl_cons, deeper_of_le hbest,
      List.foldl_nil]
  | @into t c s hc hcin _ ih =>
    obtain ⟨number, hchild⟩ := hlinked.child hc
    rw [covering_into hnest hin hc hcin, List.map_cons, List.foldl_cons, deeper_of_le hbest]
    refine ih hchild (hnest.child (scope_mem_children hc)) hcin ?_
    rintro b ⟨⟩
    rw [hchild.stands.depth, hlinked.stands.depth]
    exact Nat.le_succ _

lemma Arranges.tableAt_eq {root : Scope} {tables : ScopeTables} (h : tree.Arranges root tables)
    (offset : Nat) :
    tables.tableAt offset =
      (((tree.covering offset).map entry).foldl ScopeTables.deeper none).map (·.table) := by
  have hcovering : tree.subtrees.filter ((·.range.includes offset) ∘ entry) =
      tree.covering offset :=
    List.filter_congr fun s hs => by rw [Function.comp_apply, (h.entry_of s hs).2]
  rw [ScopeTables.tableAt, ← h.entries_eq, List.filter_map, hcovering]

end TableTree

namespace Analysis

/-- Where ranges of scopes nest, the table at an offset is that of the scope at the end of the way
down from the outermost scope: there is none exactly if the range of that does not have the
offset. -/
theorem tableAt_descends (a : Analysis) {u : CompilationUnit}
    (hnest : u.root.RangesNest) :
    ∃ tree : TableTree, tree.Arranges u.root (a.buildTables u).1 ∧ ∀ offset,
      ((a.buildTables u).1.tableAt offset = none ↔ u.root.info.range.includes offset = false) ∧
      ∀ table, (a.buildTables u).1.tableAt offset = some table ↔
        u.root.info.range.includes offset ∧
          ∃ t, tree.Descends offset t ∧ t.entry.table = table := by
  obtain ⟨tree, htree, hlinked⟩ := exists_linked a u
  refine ⟨tree, htree, fun offset => ?_⟩
  have hinfo : u.root.info = tree.info := by rw [← htree.scope_eq, TableTree.info_scope]
  rw [← htree.scope_eq] at hnest
  rw [hinfo, htree.tableAt_eq]
  cases hin : tree.info.range.includes offset with
  | false => simp [TableTree.covering_eq_nil hnest hin]
  | true =>
    have hdown {t : TableTree} (ht : tree.Descends offset t) :
        ((tree.covering offset).map TableTree.entry).foldl ScopeTables.deeper none =
          some t.entry :=
      ht.foldl_deeper hlinked hnest hin nofun
    obtain ⟨t, ht⟩ := tree.exists_descends offset
    refine ⟨by simp [hdown ht], fun table => ⟨fun htable => ⟨rfl, t, ht, ?_⟩, ?_⟩⟩
    · rw [hdown ht] at htable
      exact Option.some.inj htable
    · rintro ⟨-, s, hs, rfl⟩
      rw [hdown hs]
      rfl

/-- A file with two blocks, of which the second begins where the first ends.  At the end of the
first is an empty block. -/
def adjacentBlocks : CompilationUnit where
  file := ⟨0⟩
  package := none
  imports := []
  root := .node ⟨⟨0⟩, .compilationUnit, ⟨0, 100⟩, []⟩
    [.node ⟨⟨1⟩, .block, ⟨10, 50⟩, []⟩ [.node ⟨⟨2⟩, .block, ⟨50, 50⟩, []⟩ []],
      .node ⟨⟨3⟩, .block, ⟨50, 90⟩, []⟩ []]

/-- The ranges of the blocks nest, and tables are found by descending through them. -/
theorem tableAt_descends_adjacentBlocks :
    let a : Analysis := ⟨{}, MemoryClasspath.toClasspath {}, {}⟩
    let u := adjacentBlocks
    u.root.RangesNest ∧
      ∃ tree : TableTree, tree.Arranges u.root (a.buildTables u).1 ∧ ∀ offset,
        ((a.buildTables u).1.tableAt offset = none ↔
          u.root.info.range.includes offset = false) ∧
        ∀ table, (a.buildTables u).1.tableAt offset = some table ↔
          u.root.info.range.includes offset ∧
            ∃ t, tree.Descends offset t ∧ t.entry.table = table := by
  intro a u
  have hnest : u.root.RangesNest := .of_le (by decide) (by decide)
  exact ⟨hnest, tableAt_descends a hnest⟩

/-- The offset between the blocks belongs to the second, and to no block inside the first. -/
example :
    let a : Analysis := ⟨{}, MemoryClasspath.toClasspath {}, {}⟩
    let tables := (a.buildTables adjacentBlocks).1
    tables.tableAt 49 = tables.get? ⟨1⟩ ∧ tables.tableAt 50 = tables.get? ⟨3⟩ ∧
      tables.tableAt 90 = tables.get? ⟨0⟩ ∧ tables.tableAt 100 = none :=
  ⟨rfl, rfl, rfl, rfl⟩

end Analysis

end JavaScope
