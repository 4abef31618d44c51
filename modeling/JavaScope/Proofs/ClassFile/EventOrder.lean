/-
# The order of class events

A scan that only keeps its events *logs* a language if, however it ends, these events are a word
of the language, or the beginning of one when the scan stops at a defect.  Logging composes along
the steps of a scan.  So the events of a class file follow their grammar, and no more than 65
arrays and annotations are ever open at once (`classEvents_grammar`).
-/
import Mathlib.Order.CompletePartialOrder
import JavaScope.Proofs.ClassFile.Decoding
import JavaScope.Proofs.ClassFile.EventGrammar
import JavaScope.Proofs.ClassFile.Safety

namespace JavaScope

open scoped Computability

open EventGrammar

/-! ## Shallow events -/

/-- On top of what is open before the events, no more than `n` compounds are open after some of
them, and nothing is open after all of them. -/
structure Shallow (n : Nat) (es : List ClassEvent) : Prop where
  closed : ∀ opened, es.foldl ClassEvent.track opened = opened
  within : ∀ opened fs, fs <+: es → ∃ top, fs.foldl ClassEvent.track opened = top ++ opened ∧
    top.countP (·.opensCompound) ≤ n

namespace Shallow

variable {n : Nat} {es fs : List ClassEvent} {e : ClassEvent}

lemma nil (n : Nat) : Shallow n [] where
  closed _ := rfl
  within opened fs h := by
    obtain rfl := List.prefix_nil.mp h
    exact ⟨[], rfl, Nat.zero_le n⟩

lemma append (he : Shallow n es) (hf : Shallow n fs) : Shallow n (es ++ fs) where
  closed opened := by rw [List.foldl_append, he.closed, hf.closed]
  within opened gs h := by
    rcases List.prefix_or_prefix_of_prefix h (List.prefix_append es fs) with hgs | ⟨gs', rfl⟩
    · exact he.within opened gs hgs
    · rw [List.foldl_append, he.closed]
      exact hf.within opened gs' ((List.prefix_append_right_inj es).mp h)

/-- An event that opens and closes nothing. -/
lemma singleton (h : ∀ opened, ClassEvent.track opened e = opened) : Shallow n [e] where
  closed opened := h opened
  within opened fs hfs := by
    rcases List.prefix_cons_iff.mp hfs with rfl | ⟨gs, rfl, hgs⟩
    · exact ⟨[], rfl, Nat.zero_le n⟩
    · obtain rfl := List.prefix_nil.mp hgs
      exact ⟨[], h opened, Nat.zero_le n⟩

/-- A group with all of its parts. -/
lemma group (h : ∀ opened, ClassEvent.track opened e = e :: opened) (hes : Shallow n es) :
    Shallow (n + [e].countP (·.opensCompound)) (e :: (es ++ [.valueEnd])) where
  closed opened := by
    rw [List.foldl_cons, List.foldl_append, h, hes.closed]
    rfl
  within opened fs hfs := by
    rcases List.prefix_cons_iff.mp hfs with rfl | ⟨gs, rfl, hgs⟩
    · exact ⟨[], rfl, Nat.zero_le _⟩
    rcases List.prefix_concat_iff.mp hgs with rfl | hgs
    · refine ⟨[], ?_, Nat.zero_le _⟩
      rw [List.foldl_cons, List.foldl_append, h, hes.closed]
      rfl
    · -- the group itself is open below what its parts open
      obtain ⟨top, htop, hn⟩ := hes.within (e :: opened) gs hgs
      refine ⟨top ++ [e], ?_, ?_⟩
      · rw [List.foldl_cons, h, htop, List.append_assoc]
        rfl
      · rw [List.countP_append]
        omega

lemma openCompounds_le (h : Shallow n es) (hfs : fs <+: es) : openCompounds fs ≤ n := by
  obtain ⟨top, htop, hn⟩ := h.within [] fs hfs
  rw [openCompounds, htop, List.append_nil]
  exact hn

end Shallow

/-! ## Scans that log words -/

/-- The events of a scan with this result: a shallow word of the language, or the beginning of
one if the scan failed. -/
def Spells {α : Type} (n : Nat) (L : Language ClassEvent) (es : List ClassEvent) :
    Except ClassError α → Prop
  | .ok _ => es ∈ L ∧ Shallow n es
  | .error _ => ∃ word ∈ L, Shallow n word ∧ es <+: word

/-- The scan adds a shallow word of the language to the log, or the beginning of one if it
fails. -/
def Scan.Logs {α : Type} (n : Nat) (L : Language ClassEvent)
    (x : Scan (List ClassEvent) α) : Prop :=
  ∀ c log, ∃ es, (x c log).2 = es.reverse ++ log ∧ Spells n L es (x c log).1

namespace Scan

variable {α β : Type} {n m : Nat} {L M : Language ClassEvent} {x : Scan (List ClassEvent) α}
  {f : α → Scan (List ClassEvent) β} {e : ClassEvent}

/-- A language that is logged has shallow words. -/
lemma Logs.exists_word (hx : Logs n L x) : ∃ word ∈ L, Shallow n word := by
  obtain ⟨es, -, hes⟩ := hx default []
  rcases hrun : x default [] with ⟨error | r, log⟩
  · rw [hrun] at hes
    obtain ⟨word, hword, hn, -⟩ := hes
    exact ⟨word, hword, hn⟩
  · rw [hrun] at hes
    exact ⟨es, hes⟩

lemma Logs.mono (hx : Logs n L x) (h : L ≤ M) : Logs n M x := by
  intro c log
  obtain ⟨es, hlog, hes⟩ := hx c log
  refine ⟨es, hlog, ?_⟩
  rcases hrun : x c log with ⟨error | r, log'⟩
  · rw [hrun] at hes
    obtain ⟨word, hword, hrest⟩ := hes
    exact ⟨word, h hword, hrest⟩
  · rw [hrun] at hes
    exact ⟨h hes.1, hes.2⟩

lemma logs_pure (a : α) : Logs n 1 (pure a : Scan (List ClassEvent) α) :=
  fun _ _ => ⟨[], rfl, rfl, Shallow.nil n⟩

/-- What a scan logs, and then what the scan behind it logs, if that can be anything at all. -/
lemma Logs.bind_of_word (hx : Logs n L x) (hf : ∀ a, Logs n M (f a))
    (hM : ∃ word ∈ M, Shallow n word) : Logs n (L * M) (x >>= f) := by
  intro c log
  obtain ⟨es, hlog, hes⟩ := hx c log
  rw [bind_apply]
  rcases hrun : x c log with ⟨error | ⟨a, c'⟩, log'⟩
  · -- what is missing of the first word can be followed by any second word
    rw [hrun] at hlog hes
    obtain ⟨word, hword, hn, hprefix⟩ := hes
    obtain ⟨more, hmore, hn'⟩ := hM
    exact ⟨es, hlog, word ++ more, Language.append_mem_mul hword hmore, hn.append hn',
      hprefix.trans (List.prefix_append word more)⟩
  · rw [hrun] at hlog hes
    obtain rfl : log' = es.reverse ++ log := hlog
    obtain ⟨fs, hlog', hfs⟩ := hf a c' (es.reverse ++ log)
    refine ⟨es ++ fs, ?_, ?_⟩
    · rw [List.reverse_append, List.append_assoc]
      exact hlog'
    · show Spells n (L * M) (es ++ fs) (f a c' (es.reverse ++ log)).1
      rcases hrest : f a c' (es.reverse ++ log) with ⟨error | r, log''⟩
      · rw [hrest] at hfs
        obtain ⟨word, hword, hn, hprefix⟩ := hfs
        exact ⟨es ++ word, Language.append_mem_mul hes.1 hword, hes.2.append hn,
          (List.prefix_append_right_inj es).mpr hprefix⟩
      · rw [hrest] at hfs
        exact ⟨Language.append_mem_mul hes.1 hfs.1, hes.2.append hfs.2⟩

lemma Logs.bind [Inhabited α] (hx : Logs n L x) (hf : ∀ a, Logs n M (f a)) :
    Logs n (L * M) (x >>= f) :=
  hx.bind_of_word hf (hf default).exists_word

/-- Reads log nothing.  What they give has the property. -/
lemma logs_read_bind_of_word {x : Read α} {P : α → Prop} {f : α → Scan (List ClassEvent) β}
    (hx : x.Gives P) (hf : ∀ a, P a → Logs n M (f a)) (hM : ∃ word ∈ M, Shallow n word) :
    Logs n M (read x >>= f) := by
  intro c log
  have hgives := hx c
  rw [bind_apply]
  simp only [read]
  rcases hrun : x c with error | ⟨a, c'⟩
  · obtain ⟨word, hword, hn⟩ := hM
    exact ⟨[], rfl, word, hword, hn, List.nil_prefix⟩
  · rw [hrun] at hgives
    exact hf a hgives c' log

lemma logs_read_bind [Inhabited α] {x : Read α} {f : α → Scan (List ClassEvent) β}
    (hf : ∀ a, Logs n M (f a)) : Logs n M (read x >>= f) := by
  intro c log
  rw [bind_apply]
  simp only [read]
  rcases x c with error | ⟨a, c'⟩
  · obtain ⟨word, hword, hn⟩ := (hf default).exists_word
    exact ⟨[], rfl, word, hword, hn, List.nil_prefix⟩
  · exact hf a c' log

lemma logs_read (x : Read α) : Logs n 1 (read x : Scan (List ClassEvent) α) := by
  intro c log
  refine ⟨[], rfl, ?_⟩
  simp only [read]
  rcases x c with error | r
  · exact ⟨[], rfl, Shallow.nil n, List.nil_prefix⟩
  · exact ⟨rfl, Shallow.nil n⟩

/-- An event that opens and closes nothing. -/
lemma logs_emit (he : [e] ∈ L) (htrack : ∀ opened, ClassEvent.track opened e = opened) :
    Logs n L (emit Visitor.log e) :=
  fun _ _ => ⟨[e], rfl, he, .singleton htrack⟩

lemma logs_times {x : Scan (List ClassEvent) Unit} (hx : Logs n L x) (k : Nat) :
    Logs n L∗ (times k x) := by
  induction k with
  | zero => exact (logs_pure ()).mono one_le_kstar
  | succ k ih => exact (hx.bind fun _ => ih).mono mul_kstar_le_kstar

lemma logs_within {k : Nat} (hx : Logs n L x) : Logs n L (within k x) := by
  intro c log
  simp only [within]
  cases Read.bytes k c with
  | error e =>
    obtain ⟨word, hword, hn⟩ := hx.exists_word
    exact ⟨[], rfl, word, hword, hn, List.nil_prefix⟩
  | ok r =>
    obtain ⟨es, hlog, hes⟩ := hx ⟨c.offset, r.1⟩ log
    simp only
    rcases hrun : x ⟨c.offset, r.1⟩ log with ⟨error | a, log'⟩
    · rw [hrun] at hlog hes
      exact ⟨es, hlog, hes⟩
    · rw [hrun] at hlog hes
      exact ⟨es, hlog, hes⟩

lemma emit_log_bind (e : ClassEvent) (y : Unit → Scan (List ClassEvent) α) (c : Cursor)
    (log : List ClassEvent) : (emit Visitor.log e >>= y) c log = y () c (e :: log) := rfl

/-- A group is one deeper than its parts if it is a compound. -/
lemma logs_group {x : Scan (List ClassEvent) Unit} (hx : Logs n L x) {p : ClassEvent → Prop}
    (he : p e) (htrack : ∀ opened, ClassEvent.track opened e = e :: opened) :
    Logs (n + [e].countP (·.opensCompound)) (one p * L * valueEnd)
      (do emit Visitor.log e; x; emit Visitor.log .valueEnd) := by
  have hword : ∀ es ∈ L, e :: (es ++ [.valueEnd]) ∈ one p * L * valueEnd := by
    intro es hes
    have hopen : [e] ++ es ∈ one p * L := Language.append_mem_mul ⟨e, he, rfl⟩ hes
    exact Language.append_mem_mul hopen ⟨_, rfl, rfl⟩
  intro c log
  obtain ⟨es, hlog, hes⟩ := hx c (e :: log)
  rcases hrun : x c (e :: log) with ⟨error | ⟨⟨⟩, c'⟩, log'⟩
  · rw [hrun] at hlog hes
    obtain rfl : log' = es.reverse ++ e :: log := hlog
    have hall : (do emit Visitor.log e; x; emit Visitor.log .valueEnd) c log =
        (.error error, es.reverse ++ e :: log) := by
      rw [emit_log_bind, bind_apply, hrun]
    obtain ⟨word, hmem, hn, hprefix⟩ := hes
    refine ⟨e :: es, ?_, ?_⟩
    · rw [hall, List.reverse_cons, List.append_assoc]
      rfl
    · rw [hall]
      refine ⟨_, hword word hmem, hn.group htrack, ?_⟩
      exact List.cons_prefix_cons.mpr ⟨rfl, hprefix.trans (List.prefix_append word _)⟩
  · rw [hrun] at hlog hes
    obtain rfl : log' = es.reverse ++ e :: log := hlog
    have hall : (do emit Visitor.log e; x; emit Visitor.log .valueEnd) c log =
        (.ok ((), c'), .valueEnd :: (es.reverse ++ e :: log)) := by
      rw [emit_log_bind, bind_apply, hrun]
      rfl
    refine ⟨e :: (es ++ [.valueEnd]), ?_, ?_⟩
    · rw [hall]
      simp
    · rw [hall]
      exact ⟨hword es hes.1, hes.2.group htrack⟩

/-! ## Values -/

/-- Elements with values that carry their names. -/
lemma logs_elements {value : Option String → Scan (List ClassEvent) Unit} (p : Pool)
    (hvalue : ∀ name, Logs n (EventGrammar.value .any (some name)) (value (some name))) :
    Logs n (EventGrammar.elements .any) (elements p value) := by
  have hone : Logs n {es | ∃ name, es ∈ EventGrammar.value .any (some name)}
      (do let name ← read p.readUtf8; value (some name)) :=
    logs_read_bind fun name => (hvalue name).mono fun es hes => ⟨name, hes⟩
  refine logs_read_bind fun count => (logs_times hone _).mono ?_
  rintro es ⟨words, rfl, hwords⟩
  -- each word has a name
  induction words with
  | nil => exact ⟨[], trivial, by simp, rfl⟩
  | cons word words ih =>
    obtain ⟨name, hname⟩ := hwords word (by simp)
    obtain ⟨parts, -, hparts, heq⟩ := ih fun w hw => hwords w (by simp [hw])
    refine ⟨(name, word) :: parts, trivial, ?_, ?_⟩
    · intro e he
      rcases List.mem_cons.mp he with rfl | he
      · exact hname
      · exact hparts e he
    · rw [List.flatten_cons, heq, List.flatMap_cons]

/-- A value of at most `budget` levels. -/
theorem logs_elementValue (p : Pool) (budget : Nat) (name : Option String) :
    Logs budget (EventGrammar.value .any name) (elementValue Visitor.log p budget name) := by
  induction budget generalizing name with
  | zero =>
    intro c log
    exact ⟨[], rfl, [.scalar name default], .scalar default, .singleton fun _ => rfl,
      List.nil_prefix⟩
  | succ budget ih =>
    refine logs_read_bind_of_word (Read.gives_readValueHead p name) ?_
      ⟨[.scalar name default], .scalar default, .singleton fun _ => rfl⟩
    intro head hhead
    cases head with
    | whole e =>
      rcases hhead e rfl with ⟨s, rfl⟩ | ⟨t, k, rfl⟩ | ⟨t, rfl⟩
      · exact logs_emit (.scalar s) fun _ => rfl
      · exact logs_emit (.enumValue k trivial) fun _ => rfl
      · exact logs_emit (.classValue trivial) fun _ => rfl
    | array length =>
      refine (logs_group (logs_times (ih none) length.toNat) (p := (· = .arrayStart name)) rfl
        fun _ => rfl).mono ?_
      rintro _ ⟨_, ⟨_, ⟨_, rfl, rfl⟩, _, ⟨items, rfl, hitems⟩, rfl⟩, _, ⟨_, rfl, rfl⟩, rfl⟩
      exact .array items hitems
    | annotated descriptor =>
      refine (logs_group (logs_elements p fun name => ih (some name))
        (p := (· = .nestedAnnotationStart name descriptor)) rfl fun _ => rfl).mono ?_
      rintro _ ⟨_, ⟨_, ⟨_, rfl, rfl⟩, _, ⟨parts, -, hparts, rfl⟩, rfl⟩, _, ⟨_, rfl, rfl⟩, rfl⟩
      exact .annotated parts trivial trivial hparts

/-! ## Attributes -/

lemma logs_annotations (p : Pool) (isVisible : Bool) :
    Logs (maxValueDepth + 1) (EventGrammar.annotationUse .any)∗
      (annotations Visitor.log p isVisible) := by
  refine logs_read_bind fun count => logs_times (logs_read_bind fun descriptor => ?_) _
  have helements := logs_elements p fun name => logs_elementValue p maxValueDepth (some name)
  exact logs_group helements ⟨descriptor, isVisible, trivial, rfl⟩ fun _ => rfl

end Scan

namespace EventGrammar

/-- What the attributes of an element may tell. -/
def partsOf : Element → Language ClassEvent
  | .ofClass => innerClass + signature + annotationUse .any
  | .ofField _ => fieldConstant + signature + annotationUse .any
  | .ofMethod => exceptions + signature + annotationDefault .any + annotationUse .any

lemma signature_le (element : Element) : signature ≤ partsOf element := by
  intro es hes
  cases element with
  | ofClass => exact .inl (.inr hes)
  | ofField descriptor => exact .inl (.inr hes)
  | ofMethod => exact .inl (.inl (.inr hes))

lemma annotationUse_le (element : Element) : annotationUse .any ≤ partsOf element := by
  intro es hes
  cases element with
  | ofClass => exact .inr hes
  | ofField descriptor => exact .inr hes
  | ofMethod => exact .inr hes

end EventGrammar

namespace Scan

lemma logs_attributeBody {element : Element} {name : String} {a : Attribute} (p : Pool)
    (h : element.attribute? name = some a) :
    Logs (maxValueDepth + 1) (partsOf element)∗ (attributeBody Visitor.log p a) := by
  rcases attribute?_cases h with rfl | ⟨isVisible, rfl⟩ | ⟨descriptor, rfl, rfl⟩ |
    ⟨rfl, rfl | rfl⟩ | ⟨rfl, rfl⟩
  · refine logs_read_bind fun text => Logs.mono (logs_emit ?_ fun _ => rfl) le_kstar
    exact signature_le element ⟨_, ⟨text, rfl⟩, rfl⟩
  · exact (logs_annotations p isVisible).mono (kstar_mono (annotationUse_le element))
  · refine logs_read_bind fun index => logs_read_bind fun constant => ?_
    cases constant with
    | none => exact (logs_pure ()).mono one_le_kstar
    | some s =>
      refine Logs.mono (logs_emit ?_ fun _ => rfl) le_kstar
      exact .inl (.inl ⟨_, ⟨s, rfl⟩, rfl⟩)
  · refine logs_read_bind fun count => logs_read_bind fun names => ?_
    refine Logs.mono (logs_emit ?_ fun _ => rfl) le_kstar
    exact .inl (.inl (.inl ⟨_, ⟨names, rfl⟩, rfl⟩))
  · have hvalue := logs_elementValue p (maxValueDepth + 1) none
    have hdefault : Logs (maxValueDepth + 1) (EventGrammar.annotationDefault .any)
        (attributeBody Visitor.log p .annotationDefault) :=
      logs_group hvalue (p := (· = .annotationDefault)) rfl fun _ => rfl
    exact (hdefault.mono fun es hes => .inl (.inr hes)).mono le_kstar
  · refine logs_read_bind fun count => logs_times ?_ _
    refine logs_read_bind_of_word (Read.gives_readInnerClass p) ?_ ?_
    · rintro _ ⟨inner, outer, simpleName, access, rfl⟩
      exact logs_emit (.inl (.inl ⟨_, ⟨inner, outer, simpleName, access, rfl⟩, rfl⟩)) fun _ => rfl
    · exact ⟨_, .inl (.inl ⟨_, ⟨"", none, none, 0, rfl⟩, rfl⟩), .singleton fun _ => rfl⟩

/-- The attributes of an element, in any order. -/
lemma logs_attributes (p : Pool) (element : Element) :
    Logs (maxValueDepth + 1) (partsOf element)∗ (attributes Visitor.log p element) := by
  have hone : Logs (maxValueDepth + 1) (partsOf element)∗
      (attributeEntry Visitor.log p element) := by
    refine logs_read_bind fun name => logs_read_bind fun length => logs_within ?_
    cases h : element.attribute? name with
    | none => exact (logs_pure ()).mono one_le_kstar
    | some a =>
      have hbody := (logs_attributeBody p h).bind fun _ => logs_read (Read.expectEnd name)
      rwa [mul_one] at hbody
  refine logs_read_bind fun count => (logs_times hone _).mono ?_
  rw [kstar_idem]

/-! ## Members and classes -/

/-- A member: its head, its attributes and its end. -/
lemma logs_member (p : Pool) (start : Access → String → String → ClassEvent)
    (element : String → Element) (last : ClassEvent) {parts : Language ClassEvent}
    (hparts : ∀ descriptor, partsOf (element descriptor) = parts) {P : ClassEvent → Prop}
    (hstart : ∀ access name descriptor, P (start access name descriptor))
    (htrack : ∀ access name descriptor opened,
      ClassEvent.track opened (start access name descriptor) = opened)
    (hlast : ∀ opened, ClassEvent.track opened last = opened) :
    Logs (maxValueDepth + 1) (one P * parts∗ * one (· = last))
      (Scan.member Visitor.log p start element last) := by
  refine logs_read_bind fun access => logs_read_bind fun name => logs_read_bind fun descriptor => ?_
  have hhead : Logs (maxValueDepth + 1) (one P)
      (emit Visitor.log (start access name descriptor)) :=
    logs_emit ⟨_, hstart access name descriptor, rfl⟩ (htrack access name descriptor)
  have htable := logs_attributes p (element descriptor)
  rw [hparts] at htable
  have hend : Logs (maxValueDepth + 1) (one (· = last)) (emit Visitor.log last) :=
    logs_emit ⟨last, rfl, rfl⟩ hlast
  rw [mul_assoc]
  exact hhead.bind fun _ => htable.bind fun _ => hend

lemma logs_field (p : Pool) :
    Logs (maxValueDepth + 1)
      (EventGrammar.field .any (fieldConstant + signature + EventGrammar.annotationUse .any)∗)
      (field Visitor.log p) :=
  logs_member p .fieldStart .ofField .fieldEnd
    (fun _ => rfl) (fun access name descriptor => ⟨access, name, descriptor, trivial, rfl⟩)
    (fun _ _ _ _ => rfl) fun _ => rfl

lemma logs_method (p : Pool) :
    Logs (maxValueDepth + 1)
      (EventGrammar.method .any (exceptions + signature + EventGrammar.annotationDefault .any +
        EventGrammar.annotationUse .any)∗)
      (method Visitor.log p) :=
  logs_member p .methodStart (fun _ => .ofMethod) .methodEnd
    (fun _ => rfl) (fun access name descriptor => ⟨access, name, descriptor, trivial, rfl⟩)
    (fun _ _ _ _ => rfl) fun _ => rfl

/-- A whole class file. -/
theorem logs_classFile :
    Logs (maxValueDepth + 1) (EventGrammar.classFile .any) (classFile Visitor.log) := by
  refine logs_read_bind fun version => logs_read_bind fun p => logs_read_bind fun access => ?_
  refine logs_read_bind fun name => logs_read_bind fun superName => ?_
  refine logs_read_bind fun interfaceCount => logs_read_bind fun interfaces => ?_
  have hhead : Logs (maxValueDepth + 1)
      (one (∃ version access name superName interfaces,
        · = .classStart version access name superName interfaces))
      (emit Visitor.log (.classStart version access name superName interfaces)) :=
    logs_emit ⟨_, ⟨version, access, name, superName, interfaces, rfl⟩, rfl⟩ fun _ => rfl
  have hend : Logs (maxValueDepth + 1) (one (· = .classEnd)) (emit Visitor.log .classEnd) :=
    logs_emit ⟨_, rfl, rfl⟩ fun _ => rfl
  have hrest : Logs (maxValueDepth + 1)
      ((innerClass + signature + EventGrammar.annotationUse .any)∗ * one (· = .classEnd))
      (do
        attributes Visitor.log p .ofClass
        read (Read.expectEnd "class attributes")
        emit Visitor.log .classEnd) :=
    (logs_attributes p .ofClass).bind fun _ => logs_read_bind fun _ => hend
  rw [EventGrammar.classFile, classOf, mul_assoc, mul_assoc, mul_assoc]
  refine hhead.bind fun _ => logs_read_bind fun fieldCount => ?_
  refine (logs_times (logs_field p) _).bind fun _ => logs_read_bind fun methodCount => ?_
  exact (logs_times (logs_method p) _).bind fun _ => hrest

end Scan

/-- The events of a class file are a word of the grammar of class events, and the beginning of
one if the file has a defect; no more than 65 arrays and annotations are ever open in it. -/
theorem classEvents_grammar (bytes : List UInt8) :
    match classEvents bytes with
    | (.ok (), events) => events ∈ classFile .any ∧
        ∀ before, before <+: events → openCompounds before ≤ 65
    | (.error _, events) => ∃ word ∈ classFile .any, events <+: word ∧
        ∀ before, before <+: word → openCompounds before ≤ 65 := by
  obtain ⟨es, hlog, hes⟩ := Scan.logs_classFile (Cursor.start bytes) []
  rw [List.append_nil] at hlog
  rcases hrun : Scan.classFile Visitor.log (Cursor.start bytes) [] with ⟨error | ⟨⟨⟩, c⟩, log⟩
  · rw [hrun] at hlog hes
    obtain ⟨word, hword, hshallow, hprefix⟩ := hes
    have hall : classEvents bytes = (.error error, es) := by
      simp only [classEvents, scanClass, hrun]
      rw [show log = es.reverse from hlog, List.reverse_reverse]
      rfl
    rw [hall]
    exact ⟨word, hword, hprefix, fun before h => hshallow.openCompounds_le h⟩
  · rw [hrun] at hlog hes
    have hall : classEvents bytes = (.ok (), es) := by
      simp only [classEvents, scanClass, hrun]
      rw [show log = es.reverse from hlog, List.reverse_reverse]
      rfl
    rw [hall]
    exact ⟨hes.1, fun before h => hes.2.openCompounds_le h⟩

end JavaScope
