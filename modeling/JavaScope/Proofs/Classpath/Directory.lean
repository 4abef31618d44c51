/-
# Classes of a directory are looked up below its root

A path leads from one place in the file system to another, name by name.  The name `..` leads up,
and an absolute path starts at the top.  To join a path to a directory is to go on from where the
directory is (`PosixPath.target_join`).

Each segment of a class name that is not refused leads one step down.  So the path of the class
leads from the root down, to a place that the name of the class can be read off, and no other class
has its file there (`DirectoryClasspath.path?_leadsBelow`).
-/
import JavaScope.Classpath.Directory
import JavaScope.Proofs.Name.Candidates

namespace JavaScope

namespace PosixPath

/-! ## Names -/

variable {ns : List String}

lemma map_toList_names (path : String) :
    (names path).map String.toList = Name.segments (· = '/') path.toList := by
  rw [names, List.map_map]
  exact List.map_id'' (fun _ => String.toList_ofList) _

lemma names_ne_nil (path : String) : names path ≠ [] := by
  simpa [names] using Name.segments_ne_nil (· = '/') path.toList

lemma intercalate_names (path : String) : "/".intercalate (names path) = path := by
  rw [← String.toList_inj, String.toList_intercalate, map_toList_names]
  exact Name.intercalate_segments_self '/' path.toList

lemma names_intercalate (hne : ns ≠ []) (h : ∀ n ∈ ns, '/' ∉ n.toList) :
    names ("/".intercalate ns) = ns := by
  have hsegments : Name.segments (· = '/') (['/'].intercalate (ns.map String.toList)) =
      ns.map String.toList := by
    refine Name.segments_intercalate (by decide) (by simpa using hne) fun s hs c hc => ?_
    obtain ⟨n, hn, rfl⟩ := List.mem_map.mp hs
    simpa using ne_of_mem_of_not_mem hc (h n hn)
  rw [names, String.toList_intercalate, show "/".toList = ['/'] from rfl, hsegments, List.map_map]
  exact List.map_id'' (fun _ => String.ofList_toList) _

/-- What is put behind a path is put behind its last name. -/
lemma intercalate_append (dirs : List String) (name rest : String) :
    "/".intercalate (dirs ++ [name]) ++ rest = "/".intercalate (dirs ++ [name ++ rest]) := by
  by_cases hdirs : dirs = []
  · rw [hdirs, List.nil_append, List.nil_append, String.intercalate_singleton,
      String.intercalate_singleton]
  · rw [String.intercalate_append_of_ne_nil hdirs (by simp),
      String.intercalate_append_of_ne_nil hdirs (by simp), String.intercalate_singleton,
      String.intercalate_singleton, String.append_assoc]

lemma names_append (path rest : String) :
    names (path ++ "/" ++ rest) = names path ++ names rest := by
  simp [names, Name.segments_append_cons]

lemma of_mem_names {path n : String} (hn : n ∈ names path) {c : Char} (hc : c ∈ n.toList) :
    c ∈ path.toList ∧ c ≠ '/' := by
  have hs : n.toList ∈ Name.segments (· = '/') path.toList :=
    map_toList_names path ▸ List.mem_map_of_mem hn
  simpa using Name.of_mem_segments hs hc

/-- What does not separate names stands in one of them. -/
lemma exists_name_of_mem {path : String} {c : Char} (hc : c ∈ path.toList) (hslash : c ≠ '/') :
    ∃ n ∈ names path, c ∈ n.toList := by
  obtain ⟨n, ns, hns⟩ := List.exists_cons_of_ne_nil (names_ne_nil path)
  have hjoined := Name.intercalate_segments_self '/' path.toList
  rw [← map_toList_names, hns, List.map_cons, Name.intercalate_cons] at hjoined
  rw [← hjoined, List.mem_append, List.mem_flatMap] at hc
  rcases hc with hc | ⟨s, hs, hc⟩
  · exact ⟨n, hns ▸ List.mem_cons_self, hc⟩
  · obtain ⟨m, hm, rfl⟩ := List.mem_map.mp hs
    exact ⟨m, hns ▸ List.mem_cons_of_mem n hm, (List.mem_cons.mp hc).resolve_left hslash⟩

/-- A path from the top has an empty name in front. -/
lemma empty_mem_names {path : String} (h : path = "" ∨ isAbsolute path = true) :
    "" ∈ names path := by
  rcases h with rfl | h
  · decide
  · rw [isAbsolute, decide_eq_true_eq] at h
    obtain ⟨cs, hcs⟩ : ∃ cs, path.toList = '/' :: cs := List.head?_eq_some_iff.mp h
    rw [names, hcs, Name.segments_cons_of_pos (by decide)]
    exact List.mem_cons_self

/-! ## Where a path leads -/

/-- The place that a name leads to from a place, which is told by the names on the way from the
top.  The empty name, between two separators, leads nowhere else. -/
def enter (place : List String) (name : String) : List String :=
  if name = "" ∨ name = "." then place
  else if name = ".." then place.dropLast
  else place ++ [name]

/-- The place that a path leads to from the current directory. -/
def target (current : List String) (path : String) : List String :=
  (names path).foldl enter (if isAbsolute path then [] else current)

/-- The names behind a directory lead on from it, whether or not it ends with a separator. -/
lemma foldl_enter_front (place : List String) (directory path : String) :
    (names (front directory ++ path)).foldl enter place =
      (names path).foldl enter ((names directory).foldl enter place) := by
  rw [front]
  split
  · next hfront =>
    rcases hfront with rfl | hlast
    · rw [String.empty_append]
      rfl
    · obtain ⟨ds, hds⟩ : ∃ ds, directory.toList = ds ++ ['/'] :=
        List.getLast?_eq_some_iff.mp hlast
      obtain rfl : directory = String.ofList ds ++ "/" ++ "" := by
        rw [← String.toList_inj]
        simpa using hds
      -- such a directory ends with an empty name, which leads nowhere else
      rw [names_append, String.append_empty, names_append, List.foldl_append, List.foldl_append]
      rfl
  · rw [names_append, List.foldl_append]

lemma isAbsolute_append {path : String} (h : path ≠ "") (rest : String) :
    isAbsolute (path ++ rest) = isAbsolute path := by
  have hne : path.toList ≠ [] := by simpa using h
  rw [isAbsolute, isAbsolute, String.toList_append, List.head?_append_of_ne_nil _ hne]

lemma isAbsolute_front {path : String} (h : isAbsolute path = false) (directory : String) :
    isAbsolute (front directory ++ path) = isAbsolute directory := by
  by_cases hempty : directory = ""
  · subst hempty
    exact h
  · rw [front]
    split
    · exact isAbsolute_append hempty path
    · rw [String.append_assoc, isAbsolute_append hempty]

/-- A path that is joined to a directory leads where it leads from there. -/
lemma target_join (current : List String) (directory path : String) :
    target current (join directory path) = target (target current directory) path := by
  rw [join]
  cases hpath : isAbsolute path with
  | true => rw [if_pos rfl, target, target, hpath, if_pos rfl, if_pos rfl]
  | false =>
    rw [if_neg Bool.false_ne_true, target, foldl_enter_front, isAbsolute_front hpath]
    rw [target, target, hpath, if_neg Bool.false_ne_true]

/-! ### Down -/

/-- A name that leads one step down.  It has no backslash either, which separates names on other
systems. -/
structure LeadsDown (name : String) : Prop where
  ne_empty : name ≠ ""
  ne_dot : name ≠ "."
  ne_dots : name ≠ ".."
  no_separator : '/' ∉ name.toList ∧ '\\' ∉ name.toList

lemma LeadsDown.enter {name : String} (h : LeadsDown name) (place : List String) :
    enter place name = place ++ [name] := by
  rw [PosixPath.enter, if_neg (by simp [h.ne_empty, h.ne_dot]), if_neg h.ne_dots]

lemma foldl_enter (h : ∀ n ∈ ns, LeadsDown n) (place : List String) :
    ns.foldl enter place = place ++ ns := by
  induction ns generalizing place with
  | nil => rw [List.foldl_nil, List.append_nil]
  | cons n ns ih =>
    rw [List.foldl_cons, (h n List.mem_cons_self).enter,
      ih fun m hm => h m (List.mem_cons_of_mem n hm), List.append_assoc, List.singleton_append]

section Down

variable {path : String} (h : ∀ n ∈ names path, LeadsDown n)

include h

lemma isAbsolute_of_leadsDown : isAbsolute path = false := by
  rw [Bool.eq_false_iff]
  exact fun habsolute => (h "" (empty_mem_names (.inr habsolute))).ne_empty rfl

lemma target_of_leadsDown (current : List String) :
    target current path = current ++ names path := by
  rw [target, isAbsolute_of_leadsDown h, if_neg Bool.false_ne_true, foldl_enter h]

end Down

/-- A name leads down with the ending of a class file as it does without. -/
lemma LeadsDown.classFile {stem : String} (h : LeadsDown stem) : LeadsDown (stem ++ ".class") := by
  have hlonger {short : String} (hshort : short.length < 6) : stem ++ ".class" ≠ short := by
    rintro rfl
    rw [String.length_append, show ".class".length = 6 from rfl] at hshort
    omega
  refine ⟨hlonger (by decide), hlonger (by decide), hlonger (by decide), ?_, ?_⟩
  · simpa using h.no_separator.1
  · simpa using h.no_separator.2

end PosixPath

/-! ## Class files -/

namespace DirectoryClasspath

open PosixPath

variable {internal : String}

/-- A name is refused unless its segments lead down. -/
lemma isRefused_eq_false_iff :
    isRefused internal = false ↔ ∀ n ∈ names internal, LeadsDown n := by
  rw [isRefused]
  simp only [Bool.or_eq_false_iff, List.any_eq_false, Bool.or_eq_true, decide_eq_true_eq,
    List.contains_eq_mem, decide_eq_false_iff_not, String.isEmpty_eq_false_iff]
  constructor
  · rintro ⟨⟨-, hnames⟩, hbackslash⟩ n hn
    have hplain := hnames n hn
    simp only [not_or] at hplain
    refine ⟨hplain.1.1, hplain.1.2, hplain.2, fun hmem => ?_, fun hmem => ?_⟩
    · exact (of_mem_names hn hmem).2 rfl
    · exact hbackslash (of_mem_names hn hmem).1
  · intro h
    have hempty : "" ∉ names internal := fun hmem => (h "" hmem).ne_empty rfl
    refine ⟨⟨⟨?_, ?_⟩, fun n hn => ?_⟩, fun hmem => ?_⟩
    · exact fun he => hempty (empty_mem_names (.inl he))
    · exact Bool.not_eq_true _ ▸ fun he => hempty (empty_mem_names (.inr he))
    · simp [(h n hn).ne_empty, (h n hn).ne_dot, (h n hn).ne_dots]
    · obtain ⟨n, hn, hc⟩ := exists_name_of_mem hmem (by decide)
      exact (h n hn).no_separator.2 hc

/-- The way to a class file: the segments of the class name, with the ending at the last. -/
lemma exists_below (h : ∀ n ∈ names internal, LeadsDown n) :
    (∃ dirs stem, below internal = dirs ++ [stem ++ ".class"]) ∧
      ∀ n ∈ below internal, LeadsDown n := by
  obtain ⟨dirs, stem, hnames⟩ : ∃ dirs stem, names internal = dirs ++ [stem] :=
    ⟨_, _, (List.dropLast_concat_getLast (names_ne_nil internal)).symm⟩
  rw [hnames] at h
  have hdown : ∀ n ∈ dirs ++ [stem ++ ".class"], LeadsDown n := by
    intro n hn
    rcases List.mem_append.mp hn with hn | hn
    · exact h n (List.mem_append_left _ hn)
    · rw [List.mem_singleton.mp hn]
      exact (h stem (by simp)).classFile
  have hbelow : below internal = dirs ++ [stem ++ ".class"] := by
    rw [below, ← intercalate_names internal, hnames, intercalate_append]
    exact names_intercalate (by simp) fun n hn => (hdown n hn).no_separator.1
  exact ⟨⟨dirs, stem, hbelow⟩, hbelow ▸ hdown⟩

lemma path?_eq_some_iff {root path : String} :
    path? root internal = some path ↔
      (∀ n ∈ names internal, LeadsDown n) ∧ join root (internal ++ ".class") = path := by
  rw [← isRefused_eq_false_iff, path?]
  cases isRefused internal <;> simp

/-- A path of a class leads from the root down to the class file. -/
lemma target_path {root path : String} (h : path? root internal = some path)
    (current : List String) :
    target current path = target current root ++ below internal := by
  obtain ⟨hnames, rfl⟩ := path?_eq_some_iff.mp h
  rw [target_join, target_of_leadsDown (exists_below hnames).2, below]

/-- The name of a class can be read off the way to its file. -/
lemma eq_of_below_eq {a b : String} (h : below a = below b) : a = b := by
  have hjoined := congrArg ("/".intercalate ·) h
  simpa [below, intercalate_names] using hjoined

/-- The path of a class is that of the root, followed by one name or more, each of which leads one
step down, and the last of which ends with `.class`.  So it leads from the root down, wherever the
current directory is.  The paths of different classes are different, and lead to different places.

The names of classes that have a path are those made of segments that lead down.  All others are
refused. -/
theorem path?_leadsBelow (root : String) :
    (∀ internal path, path? root internal = some path →
      (∃ dirs stem, below internal = dirs ++ [stem ++ ".class"]) ∧
        (∀ n ∈ below internal, LeadsDown n) ∧
        path = front root ++ "/".intercalate (below internal) ∧
        ∀ current, target current path = target current root ++ below internal) ∧
    (∀ a b path path', path? root a = some path → path? root b = some path' → a ≠ b →
      path ≠ path' ∧ ∀ current, target current path ≠ target current path') ∧
    ∀ internal, (path? root internal).isSome = true ↔
      ∃ segments, segments ≠ [] ∧ (∀ s ∈ segments, LeadsDown s) ∧
        "/".intercalate segments = internal := by
  refine ⟨fun internal path h => ?_, fun a b path path' ha hb hne => ?_, fun internal => ?_⟩
  · obtain ⟨hnames, hpath⟩ := path?_eq_some_iff.mp h
    obtain ⟨hending, hdown⟩ := exists_below hnames
    refine ⟨hending, hdown, ?_, target_path h⟩
    rw [← hpath, join, isAbsolute_of_leadsDown hdown, if_neg Bool.false_ne_true, below,
      intercalate_names]
  · have htarget (current : List String) : target current path ≠ target current path' := by
      intro hsame
      rw [target_path ha, target_path hb] at hsame
      exact hne (eq_of_below_eq (List.append_cancel_left hsame))
    exact ⟨fun hsame => htarget [] (hsame ▸ rfl), htarget⟩
  · rw [Option.isSome_iff_exists]
    constructor
    · rintro ⟨path, h⟩
      exact ⟨names internal, names_ne_nil internal, (path?_eq_some_iff.mp h).1,
        intercalate_names internal⟩
    · rintro ⟨segments, hne, hdown, rfl⟩
      refine ⟨_, path?_eq_some_iff.mpr ⟨?_, rfl⟩⟩
      rwa [names_intercalate hne fun s hs => (hdown s hs).no_separator.1]

/-- A class and the class that it is nested in have different paths, and both stay below a directory
beside the current one. -/
theorem path?_leadsBelow_nestedClass :
    let root := "../classes/"
    path? root "p/A$B" = some "../classes/p/A$B.class" ∧
      path? root "p/A" = some "../classes/p/A.class" ∧
      target ["home", "user"] "../classes/p/A$B.class" =
        target ["home", "user"] root ++ ["p", "A$B.class"] ∧
      "../classes/p/A$B.class" ≠ "../classes/p/A.class" ∧ (path? root "p/A$B").isSome = true := by
  intro root
  obtain ⟨hleads, hapart, haccepts⟩ := path?_leadsBelow root
  have hinner : path? root "p/A$B" = some "../classes/p/A$B.class" := by decide
  have houter : path? root "p/A" = some "../classes/p/A.class" := by decide
  have hsegments : ∀ s ∈ ["p", "A$B"], LeadsDown s := by
    intro s hs
    rcases List.mem_pair.mp hs with rfl | rfl
    · exact ⟨by decide, by decide, by decide, by decide⟩
    · exact ⟨by decide, by decide, by decide, by decide⟩
  obtain ⟨-, -, -, htarget⟩ := hleads _ _ hinner
  exact ⟨hinner, houter, htarget _, (hapart _ _ _ _ hinner houter (by decide)).1,
    (haccepts _).mpr ⟨["p", "A$B"], by decide, hsegments, by decide⟩⟩

/-- Names that would lead elsewhere. -/
example : ["", "/abs", "../etc/passwd", "a/./b", "a//b", "a/", "a\\b"].map (path? "classes") =
    List.replicate 7 none := by
  decide

end DirectoryClasspath

end JavaScope
