/-
# Lazy look-ups

The candidates for a name are drawn one by one, and the frames of the group are asked one by one,
each when it is reached: to draw `k` bindings, the frames up to the one that holds the `k`-th are
asked, and each of them once.  What is left to draw is a value, so that an iterator may be copied at
any point.  The copies draw the same bindings, ask the same frames, and do not disturb each other,
in whatever order they are drawn from (`asksLazily`).

Here frames note when they are asked.  A computation is told by what it gives and by the asks that
it adds to the notes (`Notes`).
-/
import Mathlib.Tactic.Lemma
import JavaScope.Shadow.Candidates

namespace JavaScope

/-! ## Notes -/

/-- What was asked, for which name, in order. -/
abbrev Asks (ρ : Type) := List (ρ × String)

section Notes

variable {ρ α β γ : Type}

/-- Bindings that note each time that they are asked. -/
def noting (bound : ρ → String → List α) (b : ρ) (name : String) : StateM (Asks ρ) (List α) := do
  modify (· ++ [(b, name)])
  return bound b name

/-- The computation gives `v` and adds these asks, whatever was noted before. -/
def Notes (x : StateM (Asks ρ) β) (v : β) (asks : Asks ρ) : Prop :=
  ∀ notes, x.run notes = (v, notes ++ asks)

variable {x : StateM (Asks ρ) β} {f : β → StateM (Asks ρ) γ} {v v' : β} {w : γ}
  {asks asks' : Asks ρ}

lemma notes_pure (v : β) : Notes (pure v : StateM (Asks ρ) β) v [] := by
  intro notes
  rw [List.append_nil]
  rfl

lemma notes_noting (bound : ρ → String → List α) (b : ρ) (name : String) :
    Notes (noting bound b name) (bound b name) [(b, name)] := fun _ => rfl

lemma Notes.bind (hx : Notes x v asks) (hf : Notes (f v) w asks') :
    Notes (x >>= f) w (asks ++ asks') := by
  intro notes
  have hrun : (x >>= f).run notes = (f (x.run notes).1).run (x.run notes).2 := rfl
  rw [hrun, hx, hf, List.append_assoc]

lemma Notes.bind_pure (hx : Notes x v asks) (g : β → γ) :
    Notes (x >>= fun a => pure (g a)) (g v) asks := by
  have hbind := hx.bind (f := fun a => pure (g a)) (notes_pure (g v))
  rwa [List.append_nil] at hbind

lemma Notes.unique (h : Notes x v asks) (h' : Notes x v' asks') : v = v' ∧ asks = asks' := by
  have hsame := (h []).symm.trans (h' [])
  rw [List.nil_append, List.nil_append] at hsame
  exact Prod.mk.inj hsame

end Notes

/-! ## The first frame with a binding -/

section Frames

variable {ρ α : Type} {bound : ρ → String → List α} {name : String}

/-- Each of the frames is asked once, in order. -/
def asksOf (name : String) (frames : List (Frame ρ)) : Asks ρ :=
  frames.map fun f => (f.bindings, name)

/-- All bindings of a name in the frames. -/
def boundIn (bound : ρ → String → List α) (name : String) (frames : List (Frame ρ)) : List α :=
  frames.flatMap fun f => bound f.bindings name

lemma asksOf_append (fs gs : List (Frame ρ)) :
    asksOf name (fs ++ gs) = asksOf name fs ++ asksOf name gs := List.map_append

lemma boundIn_append (fs gs : List (Frame ρ)) :
    boundIn bound name (fs ++ gs) = boundIn bound name fs ++ boundIn bound name gs :=
  List.flatMap_append

lemma boundIn_singleton (f : Frame ρ) : boundIn bound name [f] = bound f.bindings name := by
  rw [boundIn, List.flatMap_singleton]

lemma boundIn_cons (f : Frame ρ) (fs : List (Frame ρ)) :
    boundIn bound name (f :: fs) = bound f.bindings name ++ boundIn bound name fs :=
  List.flatMap_cons

/-- The first binding is in the first frame that has any. -/
lemma exists_of_boundIn_eq_cons {frames : List (Frame ρ)} {a : α} {as : List α}
    (h : boundIn bound name frames = a :: as) :
    ∃ inner f outer more, frames = inner ++ f :: outer ∧ boundIn bound name inner = [] ∧
      bound f.bindings name = a :: more := by
  induction frames with
  | nil => cases h
  | cons f rest ih =>
    rw [boundIn_cons] at h
    cases hf : bound f.bindings name with
    | nil =>
      rw [hf, List.nil_append] at h
      obtain ⟨inner, g, outer, more, rfl, hinner, hg⟩ := ih h
      refine ⟨f :: inner, g, outer, more, rfl, ?_, hg⟩
      rw [boundIn_cons, hf, hinner, List.append_nil]
    | cons b more =>
      rw [hf] at h
      obtain ⟨rfl, -⟩ := List.cons.inj h
      exact ⟨[], f, rest, more, rfl, rfl, hf⟩

/-- The search for the first frame with a binding of the name, which look-ups and iterators share;
`found` makes of it what they want. -/
def firstAnswer {m : Type → Type} [Monad m] {β : Type} (ask : ρ → String → m (List α))
    (name : String) (found : Frame ρ → α → List α → List (Frame ρ) → β) :
    List (Frame ρ) → m (Option β)
  | [] => pure none
  | f :: rest => do
    match ← ask f.bindings name with
    | [] => firstAnswer ask name found rest
    | a :: more => pure (some (found f a more rest))

lemma findFirst_eq {m : Type → Type} [Monad m] (ask : ρ → String → m (List α))
    (frames : List (Frame ρ)) :
    findFirst ask name frames =
      firstAnswer ask name (fun f a more _ => ⟨a, f.id, f.kind, !more.isEmpty⟩) frames := by
  induction frames with
  | nil => rfl
  | cons f rest ih =>
    refine congrArg (ask f.bindings name >>= ·) (funext fun as => ?_)
    cases as with
    | nil => exact ih
    | cons a more => rfl

lemma Candidates.firstOf_eq {m : Type → Type} [Monad m] (ask : ρ → String → m (List α))
    (frames : List (Frame ρ)) :
    firstOf ask name frames =
      firstAnswer ask name (fun _ a more rest => (a, ⟨name, more, rest⟩)) frames := by
  induction frames with
  | nil => rfl
  | cons f rest ih =>
    refine congrArg (ask f.bindings name >>= ·) (funext fun as => ?_)
    cases as with
    | nil => exact ih
    | cons a more => rfl

section FirstAnswer

variable {β : Type} {found : Frame ρ → α → List α → List (Frame ρ) → β}

/-- All frames are asked if none has a binding. -/
lemma notes_firstAnswer_nil {frames : List (Frame ρ)} (h : boundIn bound name frames = []) :
    Notes (firstAnswer (noting bound) name found frames) none (asksOf name frames) := by
  induction frames with
  | nil => exact notes_pure none
  | cons f rest ih =>
    rw [boundIn_cons, List.append_eq_nil_iff] at h
    refine Notes.bind (notes_noting bound f.bindings name) ?_
    rw [h.1]
    exact ih h.2

/-- No frame is asked behind the first that has a binding. -/
lemma notes_firstAnswer_cons {inner outer : List (Frame ρ)} {f : Frame ρ} {a : α} {more : List α}
    (hinner : boundIn bound name inner = []) (hf : bound f.bindings name = a :: more) :
    Notes (firstAnswer (noting bound) name found (inner ++ f :: outer))
      (some (found f a more outer)) (asksOf name (inner ++ [f])) := by
  induction inner with
  | nil =>
    refine Notes.bind (notes_noting bound f.bindings name) ?_
    rw [hf]
    exact notes_pure _
  | cons e inner ih =>
    rw [boundIn_cons, List.append_eq_nil_iff] at hinner
    refine Notes.bind (notes_noting bound e.bindings name) ?_
    rw [hinner.1]
    exact ih hinner.2

end FirstAnswer

end Frames

/-! ## Drawing -/

namespace Candidates

section Take

variable {m : Type → Type} [Monad m] [LawfulMonad m] {ρ α : Type}

lemma take_exhausted (ask : ρ → String → m (List α)) (n : Nat) (name : String) :
    take ask n ⟨name, [], []⟩ = pure ([], ⟨name, [], []⟩) := by
  cases n with
  | zero => rfl
  | succ n =>
    have hnone : next? ask (⟨name, [], []⟩ : Candidates ρ α) = pure none := rfl
    rw [take, hnone, pure_bind]

/-- Bindings may be drawn in two goes. -/
lemma take_add (ask : ρ → String → m (List α)) (k n : Nat) (c : Candidates ρ α) :
    take ask (k + n) c =
      take ask k c >>= fun drawn => take ask n drawn.2 >>= fun more =>
        pure (drawn.1 ++ more.1, more.2) := by
  induction k generalizing c with
  | zero => simp [take]
  | succ k ih =>
    rw [Nat.succ_add, take, take, bind_assoc]
    refine bind_congr fun drawn => ?_
    cases drawn with
    | none => simp [take_exhausted]
    | some drawn => simp [ih]

end Take

section Drew

variable {ρ α : Type} {bound : ρ → String → List α} {c c' c'' : Candidates ρ α}
  {drawn drawn' : List α} {asked asked' : List (Frame ρ)}

/-- The bindings that are left to draw. -/
def left (bound : ρ → String → List α) (c : Candidates ρ α) : List α :=
  c.bucket ++ boundIn bound c.name c.frames

/-- From `c` the bindings `drawn` were drawn, for which the frames `asked` were asked, and `c'` is
left. -/
structure Drew (bound : ρ → String → List α) (c : Candidates ρ α) (drawn : List α)
    (asked : List (Frame ρ)) (c' : Candidates ρ α) : Prop where
  name : c'.name = c.name
  frames : c.frames = asked ++ c'.frames
  bindings : c.bucket ++ boundIn bound c.name asked = drawn ++ c'.bucket
  /-- Without the last of the frames there were not as many bindings. -/
  needed : asked = [] ∨ ∃ inner f, asked = inner ++ [f] ∧
    (c.bucket ++ boundIn bound c.name inner).length < drawn.length

lemma Drew.left_eq (h : Drew bound c drawn asked c') :
    c.left bound = drawn ++ c'.left bound := by
  rw [left, left, h.frames, boundIn_append, ← List.append_assoc, h.bindings, List.append_assoc,
    h.name]

lemma drew_nil (c : Candidates ρ α) : Drew bound c [] [] c :=
  ⟨rfl, rfl, by simp [boundIn], .inl rfl⟩

lemma Drew.trans (h : Drew bound c drawn asked c') (h' : Drew bound c' drawn' asked' c'') :
    Drew bound c (drawn ++ drawn') (asked ++ asked') c'' where
  name := h'.name.trans h.name
  frames := by rw [h.frames, h'.frames, List.append_assoc]
  bindings := by
    have hbindings := h'.bindings
    rw [h.name] at hbindings
    rw [boundIn_append, ← List.append_assoc, h.bindings, List.append_assoc, hbindings,
      List.append_assoc]
  needed := by
    rcases h'.needed with rfl | ⟨inner, f, rfl, hlt⟩
    · -- the frames asked before are needed for more now
      refine h.needed.imp (fun hnil => by rw [hnil, List.append_nil]) ?_
      rintro ⟨inner, f, rfl, hlt⟩
      refine ⟨inner, f, List.append_nil _, Nat.lt_of_lt_of_le hlt ?_⟩
      rw [List.length_append]
      exact Nat.le_add_right _ _
    · refine .inr ⟨asked ++ inner, f, (List.append_assoc ..).symm, ?_⟩
      rw [h.name] at hlt
      rw [boundIn_append, ← List.append_assoc, h.bindings, List.append_assoc, List.length_append,
        @List.length_append _ drawn]
      exact Nat.add_lt_add_left hlt _

/-- One binding is drawn as long as there are any. -/
lemma exists_notes_next? {a : α} {as : List α} (h : c.left bound = a :: as) :
    ∃ c' asked, Notes (c.next? (noting bound)) (some (a, c')) (asksOf c.name asked) ∧
      Drew bound c [a] asked c' := by
  obtain ⟨name, bucket, frames⟩ := c
  cases bucket with
  | cons b more =>
    obtain ⟨rfl, -⟩ := List.cons.inj h
    exact ⟨⟨name, more, frames⟩, [], notes_pure _, rfl, rfl, by simp [boundIn], .inl rfl⟩
  | nil =>
    obtain ⟨inner, f, outer, more, hframes, hinner, hf⟩ := exists_of_boundIn_eq_cons h
    obtain rfl : frames = inner ++ f :: outer := hframes
    refine ⟨⟨name, more, outer⟩, inner ++ [f], ?_, rfl, ?_, ?_, .inr ⟨inner, f, rfl, ?_⟩⟩
    · show Notes (firstOf (noting bound) name (inner ++ f :: outer)) _ _
      rw [firstOf_eq]
      exact notes_firstAnswer_cons hinner hf
    · simp
    · rw [boundIn_append, hinner, boundIn_singleton, hf]
      rfl
    · rw [hinner]
      exact Nat.zero_lt_one

/-- To draw `n` bindings, the frames are asked that hold them. -/
lemma exists_notes_take {n : Nat} (hn : n ≤ (c.left bound).length) :
    ∃ c' asked, Notes (c.take (noting bound) n) ((c.left bound).take n, c')
      (asksOf c.name asked) ∧ Drew bound c ((c.left bound).take n) asked c' := by
  induction n generalizing c with
  | zero => exact ⟨c, [], notes_pure _, drew_nil c⟩
  | succ n ih =>
    cases hleft : c.left bound with
    | nil =>
      rw [hleft] at hn
      cases hn
    | cons a as =>
      obtain ⟨c₁, asked₁, hnext, hdrew⟩ := exists_notes_next? hleft
      have hbehind : as = c₁.left bound := (List.cons.inj (hleft.symm.trans hdrew.left_eq)).2
      obtain ⟨c₂, asked₂, htake, hothers⟩ := ih (c := c₁) (by
        rw [← hbehind]
        rw [hleft] at hn
        exact Nat.le_of_succ_le_succ hn)
      rw [← hbehind] at htake hothers
      refine ⟨c₂, asked₁ ++ asked₂, ?_, hdrew.trans hothers⟩
      have hrest := htake.bind_pure fun more => (a :: more.1, more.2)
      rw [hdrew.name] at hrest
      rw [asksOf_append]
      exact hnext.bind hrest

/-- To find that there are none, all frames that are left are asked. -/
lemma notes_take_nil (h : c.left bound = []) (n : Nat) :
    Notes (c.take (noting bound) (n + 1)) ([], ⟨c.name, [], []⟩) (asksOf c.name c.frames) := by
  obtain ⟨name, bucket, frames⟩ := c
  obtain ⟨rfl, hnothing⟩ := List.append_eq_nil_iff.mp h
  have hnext : Notes (next? (noting bound) ⟨name, [], frames⟩) none (asksOf name frames) := by
    show Notes (firstOf (noting bound) name frames) _ _
    rw [firstOf_eq]
    exact notes_firstAnswer_nil hnothing
  rw [← List.append_nil (asksOf name frames)]
  exact hnext.bind (notes_pure _)

lemma notes_take_all {n : Nat} (hn : (c.left bound).length < n) :
    Notes (c.take (noting bound) n) (c.left bound, ⟨c.name, [], []⟩) (asksOf c.name c.frames) := by
  obtain ⟨k, rfl⟩ := Nat.exists_eq_add_of_lt hn
  obtain ⟨c', asked, htake, hdrew⟩ := exists_notes_take (Nat.le_refl (c.left bound).length)
  rw [List.take_length] at htake hdrew
  have hnothing : c'.left bound = [] := by simpa using hdrew.left_eq
  have hmore := (notes_take_nil hnothing k).bind_pure fun more => (c.left bound ++ more.1, more.2)
  rw [List.append_nil, hdrew.name] at hmore
  rw [Nat.add_assoc, take_add, hdrew.frames, asksOf_append]
  exact htake.bind hmore

variable (bound) in
lemma exists_notes_draw (c : Candidates ρ α) (n : Nat) : ∃ c' asked,
    Notes (c.take (noting bound) n) ((c.left bound).take n, c') (asksOf c.name asked) := by
  rcases Nat.lt_or_ge (c.left bound).length n with hn | hn
  · rw [List.take_of_length_le (Nat.le_of_lt hn)]
    exact ⟨_, _, notes_take_all hn⟩
  · obtain ⟨c', asked, htake, -⟩ := exists_notes_take hn
    exact ⟨c', asked, htake⟩

lemma notes_allOf (name : String) (frames : List (Frame ρ)) :
    Notes (allOf (noting bound) name frames) (boundIn bound name frames) (asksOf name frames) := by
  induction frames with
  | nil => exact notes_pure []
  | cons f rest ih =>
    exact (notes_noting bound f.bindings name).bind
      (ih.bind_pure fun others => bound f.bindings name ++ others)

/-- Draining an iterator asks all frames that are left. -/
lemma notes_drain (c : Candidates ρ α) :
    Notes (c.drain (noting bound)) (c.left bound) (asksOf c.name c.frames) :=
  (notes_allOf c.name c.frames).bind_pure fun others => c.bucket ++ others

end Drew

/-! ## Two iterators -/

section Turns

variable {m : Type → Type} [Monad m] {ρ α : Type}

/-- Draws from two iterators by turns, from the first at the turns that are `true`: what each
gave, and what is left of it. -/
def drawByTurns (ask : ρ → String → m (List α)) :
    List Bool → Candidates ρ α → Candidates ρ α →
      m ((List α × Candidates ρ α) × (List α × Candidates ρ α))
  | [], c, d => pure (([], c), ([], d))
  | true :: turns, c, d => do
    let (as, c) ← c.take ask 1
    let (first, second) ← drawByTurns ask turns c d
    pure ((as ++ first.1, first.2), second)
  | false :: turns, c, d => do
    let (bs, d) ← d.take ask 1
    let (first, second) ← drawByTurns ask turns c d
    pure (first, (bs ++ second.1, second.2))

variable {bound : ρ → String → List α} {c d c' d' : Candidates ρ α} {as bs : List α}
  {asks asks' : Asks ρ}

/-- What an iterator does in many draws is what it does in the first and then in the others. -/
lemma Notes.take_succ {n : Nat} (h : Notes (c.take (noting bound) (n + 1)) (as, c') asks) :
    ∃ as₁ c₁ asks₁ as₂ asks₂, Notes (c.take (noting bound) 1) (as₁, c₁) asks₁ ∧
      Notes (c₁.take (noting bound) n) (as₂, c') asks₂ ∧ as = as₁ ++ as₂ ∧
      asks = asks₁ ++ asks₂ := by
  obtain ⟨c₁, asked₁, hfirst⟩ := exists_notes_draw bound c 1
  obtain ⟨c₂, asked₂, hothers⟩ := exists_notes_draw bound c₁ n
  have hmore := hothers.bind_pure fun more => ((c.left bound).take 1 ++ more.1, more.2)
  rw [Nat.add_comm, take_add] at h
  obtain ⟨hdrawn, rfl⟩ := h.unique (hfirst.bind hmore)
  obtain ⟨rfl, rfl⟩ := Prod.mk.inj hdrawn
  exact ⟨_, _, _, _, _, hfirst, hothers, rfl, rfl⟩

/-- Each of two iterators does, by turns, what it does alone. -/
lemma exists_notes_drawByTurns (turns : List Bool)
    (hc : Notes (c.take (noting bound) (turns.count true)) (as, c') asks)
    (hd : Notes (d.take (noting bound) (turns.count false)) (bs, d') asks') :
    ∃ all, Notes (drawByTurns (noting bound) turns c d) ((as, c'), (bs, d')) all ∧
      all.Perm (asks ++ asks') := by
  induction turns generalizing c d as bs asks asks' with
  | nil =>
    obtain ⟨hcs, rfl⟩ := hc.unique (notes_pure _)
    obtain ⟨hds, rfl⟩ := hd.unique (notes_pure _)
    rw [hcs, hds]
    exact ⟨[], notes_pure _, .refl _⟩
  | cons turn turns ih =>
    cases turn with
    | true =>
      rw [List.count_cons_self] at hc
      rw [List.count_cons_of_ne (by decide)] at hd
      obtain ⟨as₁, c₁, asks₁, as₂, asks₂, hfirst, hothers, rfl, rfl⟩ := Notes.take_succ hc
      obtain ⟨all, hall, hperm⟩ := ih hothers hd
      have hrest := hall.bind_pure fun both => ((as₁ ++ both.1.1, both.1.2), both.2)
      refine ⟨asks₁ ++ all, hfirst.bind hrest, ?_⟩
      rw [List.append_assoc]
      exact hperm.append_left asks₁
    | false =>
      rw [List.count_cons_of_ne (by decide)] at hc
      rw [List.count_cons_self] at hd
      obtain ⟨bs₁, d₁, asks₁, bs₂, asks₂, hfirst, hothers, rfl, rfl⟩ := Notes.take_succ hd
      obtain ⟨all, hall, hperm⟩ := ih hc hothers
      have hrest := hall.bind_pure fun both => (both.1, (bs₁ ++ both.2.1, both.2.2))
      refine ⟨asks₁ ++ all, hfirst.bind hrest, ?_⟩
      exact (hperm.append_left asks₁).trans (List.perm_append_comm_assoc ..)

end Turns

end Candidates

/-! ## Look-ups in a group -/

section Groups

variable {ρ α : Type} {bound : ρ → String → List α} {name : String} {k : Nat}
  {frames asked rest : List (Frame ρ)} {c : Candidates ρ α}

open Candidates

/-- The frames `asked` are the first ones, up to the one that holds the `k`-th binding of the name,
and `rest` are those behind it. -/
structure UpTo (bound : ρ → String → List α) (name : String) (k : Nat)
    (frames asked rest : List (Frame ρ)) : Prop where
  split : frames = asked ++ rest
  none : k = 0 → asked = []
  holds : 0 < k → ∃ inner f, asked = inner ++ [f] ∧ (boundIn bound name inner).length < k ∧
    k ≤ (boundIn bound name inner).length + (bound f.bindings name).length

lemma Candidates.Drew.upTo {drawn : List α} (h : Drew bound ⟨name, [], frames⟩ drawn asked c) :
    UpTo bound name drawn.length frames asked c.frames where
  split := h.frames
  none h0 := by
    rcases h.needed with hnil | ⟨inner, f, -, hlt⟩
    · exact hnil
    · rw [h0] at hlt
      cases hlt
  holds hpos := by
    have henough : drawn.length ≤ (boundIn bound name asked).length := by
      have hbindings : boundIn bound name asked = drawn ++ c.bucket := h.bindings
      rw [hbindings, List.length_append]
      exact Nat.le_add_right _ _
    rcases h.needed with rfl | ⟨inner, f, rfl, hlt⟩
    · exact absurd henough (Nat.not_le_of_lt hpos)
    · refine ⟨inner, f, rfl, hlt, ?_⟩
      rwa [boundIn_append, boundIn_singleton, List.length_append] at henough

/-- After `k` bindings of the name `c` is left, and the frames `rest` were not asked. -/
structure LeftAfter (bound : ρ → String → List α) (name : String) (frames : List (Frame ρ))
    (k : Nat) (asked rest : List (Frame ρ)) (c : Candidates ρ α) : Prop where
  /-- Drained, it gives the other bindings and asks the frames that were not asked. -/
  drains : Notes (c.drain (noting bound)) ((boundIn bound name frames).drop k) (asksOf name rest)
  /-- Of the frames that were not asked, the first are asked for the next `n` bindings. -/
  draws : ∀ n, k + n ≤ (boundIn bound name frames).length → ∃ more others c',
    UpTo bound name (k + n) frames (asked ++ more) others ∧
      Notes (c.take (noting bound) n) (((boundIn bound name frames).drop k).take n, c')
        (asksOf name more)
  /-- Of two copies that are drawn from by turns, each gives what it gives alone, and together they
  ask what they ask alone. -/
  byTurns : ∀ turns : List Bool, ∃ c₁ c₂ asks₁ asks₂ asks,
    let given₁ := ((boundIn bound name frames).drop k).take (turns.count true)
    let given₂ := ((boundIn bound name frames).drop k).take (turns.count false)
    Notes (c.take (noting bound) (turns.count true)) (given₁, c₁) asks₁ ∧
      Notes (c.take (noting bound) (turns.count false)) (given₂, c₂) asks₂ ∧
      Notes (drawByTurns (noting bound) turns c c) ((given₁, c₁), (given₂, c₂)) asks ∧
      asks.Perm (asks₁ ++ asks₂)

lemma Candidates.Drew.leftAfter {drawn : List α}
    (h : Drew bound ⟨name, [], frames⟩ drawn asked c) :
    LeftAfter bound name frames drawn.length asked c.frames c := by
  have hname : c.name = name := h.name
  have hall : boundIn bound name frames = drawn ++ c.left bound := h.left_eq
  have hleft : (boundIn bound name frames).drop drawn.length = c.left bound := by
    rw [hall, List.drop_left]
  refine ⟨?_, fun n hn => ?_, fun turns => ?_⟩
  · rw [hleft, ← hname]
    exact notes_drain c
  · rw [hall, List.length_append] at hn
    have hn' : n ≤ (c.left bound).length := Nat.le_of_add_le_add_left hn
    obtain ⟨c', more, htake, hmore⟩ := exists_notes_take hn'
    have hboth := (h.trans hmore).upTo
    rw [List.length_append, List.length_take_of_le hn'] at hboth
    rw [hleft, ← hname]
    rw [← hname] at hboth
    exact ⟨more, c'.frames, c', hboth, htake⟩
  · rw [hleft]
    obtain ⟨c₁, asked₁, h₁⟩ := exists_notes_draw bound c (turns.count true)
    obtain ⟨c₂, asked₂, h₂⟩ := exists_notes_draw bound c (turns.count false)
    obtain ⟨asks, hasks, hperm⟩ := exists_notes_drawByTurns turns h₁ h₂
    exact ⟨c₁, c₂, _, _, asks, h₁, h₂, hasks, hperm⟩

namespace ShadowGroup

/-- Look-ups ask frames only as far as they must.

To draw `k` of the bindings of a name, the frames are asked once each from the innermost on, up to
the one that holds the `k`-th, and none for no binding; then the iterator is left as described in
`LeftAfter`, and so is any copy of it.  To draw all bindings, or more than there are, each frame is
asked once.  The look-up of the nearest binding asks the frames up to the first that has one. -/
theorem asksLazily (bound : ρ → String → List α) (g : ShadowGroup ρ) (name : String) :
    let all := boundIn bound name g.frames
    let c := g.resolveAll name
    (∀ k ≤ all.length, ∃ asked rest c', UpTo bound name k g.frames asked rest ∧
      Notes (c.take (noting bound) k) (all.take k, c') (asksOf name asked) ∧
      LeftAfter bound name g.frames k asked rest c') ∧
    Notes (c.drain (noting bound)) all (asksOf name g.frames) ∧
    (∀ n > all.length, ∃ c', Notes (c.take (noting bound) n) (all, c') (asksOf name g.frames)) ∧
    (all = [] ∧ Notes (g.resolveFirst (noting bound) name) none (asksOf name g.frames) ∨
      ∃ inner f outer a more, g.frames = inner ++ f :: outer ∧ boundIn bound name inner = [] ∧
        bound f.bindings name = a :: more ∧
        Notes (g.resolveFirst (noting bound) name) (some ⟨a, f.id, f.kind, !more.isEmpty⟩)
          (asksOf name (inner ++ [f]))) := by
  intro all c
  have hleft : c.left bound = all := rfl
  refine ⟨fun k hk => ?_, notes_drain c, fun n hn => ⟨_, notes_take_all hn⟩, ?_⟩
  · obtain ⟨c', asked, htake, hdrew⟩ := exists_notes_take (c := c) hk
    have hupTo := hdrew.upTo
    have hleftAfter := hdrew.leftAfter
    rw [hleft, List.length_take_of_le hk] at hupTo hleftAfter
    exact ⟨asked, c'.frames, c', hupTo, htake, hleftAfter⟩
  · rw [resolveFirst, findFirst_eq]
    cases hall : boundIn bound name g.frames with
    | nil => exact .inl ⟨hall, notes_firstAnswer_nil hall⟩
    | cons a as =>
      obtain ⟨inner, f, outer, more, hframes, hinner, hf⟩ := exists_of_boundIn_eq_cons hall
      refine .inr ⟨inner, f, outer, a, more, hframes, hinner, hf, ?_⟩
      rw [hframes]
      exact notes_firstAnswer_cons hinner hf

/-- Three frames, told apart by numbers. -/
def threeFrames : ShadowGroup Nat :=
  ⟨[⟨⟨1, 3⟩, .members, 0⟩, ⟨⟨1, 2⟩, .inherited, 1⟩, ⟨⟨1, 1⟩, .inherited, 2⟩]⟩

/-- The frame in the middle binds nothing, and each of the others binds every name twice. -/
def twoEach (frame : Nat) (_ : String) : List Nat :=
  if frame = 1 then [] else [10 * frame, 10 * frame + 1]

/-- Three bindings are drawn without running out, and after four there are no more. -/
theorem asksLazily_threeFrames :
    let all := boundIn twoEach "m" threeFrames.frames
    let c := threeFrames.resolveAll "m"
    3 ≤ all.length ∧
      (∃ asked rest c', UpTo twoEach "m" 3 threeFrames.frames asked rest ∧
        Notes (c.take (noting twoEach) 3) (all.take 3, c') (asksOf "m" asked) ∧
        LeftAfter twoEach "m" threeFrames.frames 3 asked rest c') ∧
      5 > all.length ∧
      ∃ c', Notes (c.take (noting twoEach) 5) (all, c') (asksOf "m" threeFrames.frames) := by
  intro all c
  obtain ⟨hdraws, -, hdrains, -⟩ := asksLazily twoEach threeFrames "m"
  have hthree : 3 ≤ all.length := by decide
  have hfive : 5 > all.length := by decide
  exact ⟨hthree, hdraws 3 hthree, hfive, hdrains 5 hfive⟩

/-- The third binding is in the last frame, but the first two ask the first frame only. -/
example :
    let c := threeFrames.resolveAll "m"
    ((c.take (noting twoEach) 2).run []).2 = [(0, "m")] ∧
      ((c.take (noting twoEach) 3).run []).2 = [(0, "m"), (1, "m"), (2, "m")] :=
  ⟨rfl, rfl⟩

end ShadowGroup

end Groups

end JavaScope
