/-
# Look-ups told by pushes

A shadow group is built by pushing bindings, some of them lists and others that answer by work of
their own.  What look-ups find in it is what a plain scan of the pushed bindings finds, those
pushed last first (`Resolvers.lookups_built`): nothing is lost where a push adds no frame, or where
a frame turns out to bind nothing.
-/
import Mathlib.Data.List.Induction
import JavaScope.Proofs.Run.Transparency
import JavaScope.Proofs.Shadow.Layers

namespace JavaScope

/-! ## Resolvers -/

/-- A sort of bindings: how they are asked for a name and how their answers are read off.  Maps of
symbols are among them, and what claims to be empty binds nothing. -/
structure Resolvers (m : Type → Type) [Monad m] (ρ α : Type) [Bindings ρ] where
  ask : ρ → String → m (List α)
  /-- What a computation gives. -/
  value : {β : Type} → m β → β
  /-- A map of symbols as bindings. -/
  listed : SymbolMap α → ρ
  value_pure : ∀ {β : Type} (b : β), value (pure b) = b
  value_bind : ∀ {β γ : Type} (x : m β) (f : β → m γ), value (x >>= f) = value (f (value x))
  value_listed : ∀ (s : SymbolMap α) (name : String), value (ask (listed s) name) = s.find name
  isDefinitelyEmpty_listed : ∀ s, Bindings.isDefinitelyEmpty (listed s) = s.isEmpty
  nothing_of_isDefinitelyEmpty : ∀ b, Bindings.isDefinitelyEmpty b = true →
    ∀ name, value (ask b name) = []

/-- A step in which a group is built: any bindings are pushed, or a list of them. -/
inductive PushStep (ρ α : Type)
  | push (stamp : Nat) (kind : FrameKind) (bindings : ρ)
  | pushList (stamp : Nat) (kind : FrameKind) (entries : List (String × α))

namespace PushStep

variable {ρ α : Type}

/-- The kind of the frame. -/
def kind : PushStep ρ α → FrameKind
  | push _ kind _ => kind
  | pushList _ kind _ => kind

/-- The pushed bindings claim to be empty. -/
def claimsEmpty [Bindings ρ] : PushStep ρ α → Bool
  | push _ _ b => Bindings.isDefinitelyEmpty b
  | pushList _ _ entries => entries.isEmpty

end PushStep

namespace Resolvers

variable {m : Type → Type} [Monad m] {ρ α : Type} [Bindings ρ] (r : Resolvers m ρ α)

/-- What bindings hold under a name, in their order. -/
def bound (b : ρ) (name : String) : List α := r.value (r.ask b name)

/-- What a step binds to a name, in order. -/
def binds (name : String) : PushStep ρ α → List α
  | .push _ _ b => r.bound b name
  | .pushList _ _ entries => (entries.filter (·.1 = name)).map (·.2)

/-- The plain scan: all that the steps bind to a name, the last step first. -/
def scan (steps : List (PushStep ρ α)) (name : String) : List α :=
  steps.reverse.flatMap (r.binds name)

/-- The group after a step. -/
def perform (g : ShadowGroup ρ) : PushStep ρ α → ShadowGroup ρ
  | .push stamp kind b => g.push stamp kind b
  | .pushList stamp kind entries => g.push stamp kind (r.listed (.ofList entries))

/-- The group that some steps build. -/
def built (steps : List (PushStep ρ α)) : ShadowGroup ρ := steps.foldl r.perform .empty

lemma scan_append_singleton (steps : List (PushStep ρ α)) (s : PushStep ρ α) (name : String) :
    r.scan (steps ++ [s]) name = r.binds name s ++ r.scan steps name := by
  simp [scan]

lemma built_append_singleton (steps : List (PushStep ρ α)) (s : PushStep ρ α) :
    r.built (steps ++ [s]) = r.perform (r.built steps) s := by
  simp [built]

/-! ## Steps -/

lemma isEmpty_ofList (entries : List (String × α)) :
    (SymbolMap.ofList entries).isEmpty = entries.isEmpty := by
  have hinsert (l : List (String × α)) (s : SymbolMap α) (hs : s.isEmpty = false) :
      (s.insertAll l).isEmpty = false := by
    induction l generalizing s with
    | nil => exact hs
    | cons e l ih =>
      refine ih (s.insert e.1 e.2) ?_
      obtain ⟨_ | ⟨b, buckets⟩⟩ := s
      · cases hs
      · simp only [SymbolMap.insert, SymbolMap.insertInto, SymbolMap.isEmpty]
        split <;> rfl
  cases entries with
  | nil => rfl
  | cons e entries => exact hinsert entries _ rfl

/-- A step either leaves the group as it is and binds nothing, or adds one frame with what it
binds. -/
lemma perform_cases (g : ShadowGroup ρ) (s : PushStep ρ α) :
    s.claimsEmpty = true ∧ r.perform g s = g ∧ (∀ name, r.binds name s = []) ∨
      s.claimsEmpty = false ∧ ∃ f, r.perform g s = ⟨f :: g.frames⟩ ∧ f.kind = s.kind ∧
        f.id.place = g.depth + 1 ∧ ∀ name, r.bound f.bindings name = r.binds name s := by
  have hpush (stamp : Nat) (kind : FrameKind) (b : ρ) :
      Bindings.isDefinitelyEmpty b = true ∧ g.push stamp kind b = g ∧
          (∀ name, r.bound b name = []) ∨
        Bindings.isDefinitelyEmpty b = false ∧
          g.push stamp kind b = ⟨⟨⟨stamp, g.depth + 1⟩, kind, b⟩ :: g.frames⟩ := by
    cases h : Bindings.isDefinitelyEmpty b with
    | true =>
      have hsame : g.push stamp kind b = g := by rw [ShadowGroup.push, if_pos h]
      exact .inl ⟨rfl, hsame, r.nothing_of_isDefinitelyEmpty b h⟩
    | false => exact .inr ⟨rfl, by rw [ShadowGroup.push, if_neg (by simp [h])]⟩
  cases s with
  | push stamp kind b =>
    rcases hpush stamp kind b with ⟨hempty, hsame, hnothing⟩ | ⟨hempty, hframe⟩
    · exact .inl ⟨hempty, hsame, hnothing⟩
    · exact .inr ⟨hempty, _, hframe, rfl, rfl, fun name => rfl⟩
  | pushList stamp kind entries =>
    -- the list is pushed as a map, which finds what is in the list
    have hfind (name : String) : r.bound (r.listed (.ofList entries)) name =
        (entries.filter (·.1 = name)).map (·.2) := by
      rw [bound, r.value_listed, SymbolMap.find_ofList]
    have hclaims : Bindings.isDefinitelyEmpty (r.listed (.ofList entries)) = entries.isEmpty := by
      rw [r.isDefinitelyEmpty_listed, isEmpty_ofList]
    have hmap := hpush stamp kind (r.listed (.ofList entries))
    simp only [hclaims, hfind] at hmap
    rcases hmap with ⟨hempty, hsame, hnothing⟩ | ⟨hempty, hframe⟩
    · exact .inl ⟨hempty, hsame, hnothing⟩
    · exact .inr ⟨hempty, _, hframe, rfl, rfl, hfind⟩

/-! ## Frames -/

/-- The group has as many frames as there are steps that do not claim to be empty. -/
lemma depth_built (steps : List (PushStep ρ α)) :
    (r.built steps).depth = steps.countP fun s => !s.claimsEmpty := by
  induction steps using List.reverseRecOn with
  | nil => rfl
  | append_singleton steps s ih =>
    rw [built_append_singleton, List.countP_append, ← ih]
    rcases r.perform_cases (r.built steps) s with ⟨hempty, hsame, -⟩ | ⟨hempty, f, hframe, -⟩
    · simp [hempty, hsame]
    · simp [hempty, hframe, ShadowGroup.depth]

/-- The frames have different places in the chain. -/
lemma nodup_ids_built (steps : List (PushStep ρ α)) :
    ((r.built steps).frames.map (·.id)).Nodup ∧
      ∀ f ∈ (r.built steps).frames, f.id.place ≤ (r.built steps).depth := by
  induction steps using List.reverseRecOn with
  | nil => exact ⟨List.nodup_nil, by rintro f ⟨⟩⟩
  | append_singleton steps s ih =>
    obtain ⟨hnodup, hplaces⟩ := ih
    rw [built_append_singleton]
    rcases r.perform_cases (r.built steps) s with ⟨-, hsame, -⟩ | ⟨-, f, hframe, -, hplace, -⟩
    · rw [hsame]
      exact ⟨hnodup, hplaces⟩
    · rw [hframe]
      refine ⟨List.nodup_cons.mpr ⟨fun hmem => ?_, hnodup⟩, fun g hg => ?_⟩
      · obtain ⟨g, hg, hid⟩ := List.mem_map.mp hmem
        have hle := hplaces g hg
        rw [hid, hplace] at hle
        omega
      · show g.id.place ≤ (r.built steps).depth + 1
        rcases List.mem_cons.mp hg with rfl | hg
        · exact Nat.le_of_eq hplace
        · exact Nat.le_succ_of_le (hplaces g hg)

/-- The frames bind what the steps bind. -/
lemma flatMap_frames_built (steps : List (PushStep ρ α)) (name : String) :
    (r.built steps).frames.flatMap (fun f => r.bound f.bindings name) = r.scan steps name := by
  induction steps using List.reverseRecOn with
  | nil => rfl
  | append_singleton steps s ih =>
    rw [built_append_singleton, scan_append_singleton, ← ih]
    rcases r.perform_cases (r.built steps) s with ⟨-, hsame, hnothing⟩ | ⟨-, f, hframe, -, -, hf⟩
    · rw [hsame, hnothing, List.nil_append]
    · rw [hframe, List.flatMap_cons, hf]

/-! ## All bindings -/

/-- Drawn one by one until there are no more, the candidates are these. -/
inductive Draws : Candidates ρ α → List α → Prop
  | done {c : Candidates ρ α} : r.value (c.next? r.ask) = none → Draws c []
  | draw {c c' : Candidates ρ α} {a : α} {as : List α} :
      r.value (c.next? r.ask) = some (a, c') → Draws c' as → Draws c (a :: as)

variable {r} in
lemma Draws.congr {c c' : Candidates ρ α} {as : List α} (h : r.Draws c as)
    (hnext : r.value (c'.next? r.ask) = r.value (c.next? r.ask)) : r.Draws c' as := by
  cases h with
  | done hnone => exact .done (hnext.trans hnone)
  | draw hsome hrest => exact .draw (hnext.trans hsome) hrest

/-- The candidates are the rest of the last answer and then the answers of the other frames. -/
lemma draws_frames (name : String) (frames : List (Frame ρ)) (bucket : List α) :
    r.Draws ⟨name, bucket, frames⟩
      (bucket ++ frames.flatMap fun f => r.bound f.bindings name) := by
  induction frames generalizing bucket with
  | nil =>
    induction bucket with
    | nil => exact .done (r.value_pure none)
    | cons a more ih => exact .draw (r.value_pure _) ih
  | cons f rest ih =>
    induction bucket with
    | nil =>
      rw [List.nil_append, List.flatMap_cons]
      cases hbound : r.bound f.bindings name with
      | nil =>
        -- the frame has nothing, and the next one is asked
        have hask : r.value (r.ask f.bindings name) = [] := hbound
        have hnext : r.value (Candidates.next? r.ask ⟨name, [], f :: rest⟩) =
            r.value (Candidates.next? r.ask ⟨name, [], rest⟩) := by
          simp only [Candidates.next?, Candidates.firstOf, r.value_bind, hask]
        exact (ih []).congr hnext
      | cons a more =>
        have hask : r.value (r.ask f.bindings name) = a :: more := hbound
        have hnext : r.value (Candidates.next? r.ask ⟨name, [], f :: rest⟩) =
            some (a, ⟨name, more, rest⟩) := by
          simp only [Candidates.next?, Candidates.firstOf, r.value_bind, hask, r.value_pure]
        exact .draw hnext (ih more)
    | cons a more ihmore => exact .draw (r.value_pure _) ihmore

variable {r} in
/-- The first of the candidates can be drawn at once. -/
lemma Draws.take {c : Candidates ρ α} {as : List α} (h : r.Draws c as) (n : Nat) :
    (r.value (c.take r.ask n)).1 = as.take n := by
  induction n generalizing c as with
  | zero => rw [Candidates.take, r.value_pure, List.take_zero]
  | succ n ih =>
    rw [Candidates.take, r.value_bind]
    cases h with
    | done hnone => rw [hnone, r.value_pure, List.take_nil]
    | draw hsome hrest => rw [hsome, r.value_bind, r.value_pure, List.take_succ_cons, ih hrest]

lemma value_allOf (name : String) (frames : List (Frame ρ)) :
    r.value (Candidates.allOf r.ask name frames) =
      frames.flatMap fun f => r.bound f.bindings name := by
  induction frames with
  | nil => exact r.value_pure []
  | cons f rest ih =>
    rw [Candidates.allOf, r.value_bind, r.value_bind, r.value_pure, ih, List.flatMap_cons]
    rfl

/-! ## The nearest binding -/

/-- The find shows what the step `s` binds to the name, where `outer` are the steps before it and
`inner` those after it. -/
structure Shows (name : String) (x : Found α) (outer : List (PushStep ρ α)) (s : PushStep ρ α)
    (inner : List (PushStep ρ α)) : Prop where
  /-- No later step binds the name. -/
  passed : ∀ t ∈ inner, r.binds name t = []
  result : (r.binds name s).head? = some x.result
  isAmbiguous : x.isAmbiguous = true ↔ 1 < (r.binds name s).length
  kind : x.kind = s.kind
  /-- The frame is the one that the step added. -/
  frame : ∃ f, (r.built (outer ++ [s])).frames = f :: (r.built outer).frames ∧ f.id = x.frame ∧
    f.kind = x.kind
  /-- The chain goes on from this frame as it was after the step. -/
  chain : (r.built (outer ++ [s])).frames <:+ (r.built (outer ++ s :: inner)).frames
  /-- From this frame on, the look-up finds the same. -/
  again : r.value ((r.built (outer ++ [s])).resolveFirst r.ask name) = some x

/-- After a step the look-up finds what the step binds, or else what it found before. -/
lemma value_resolveFirst_perform (g : ShadowGroup ρ) (s : PushStep ρ α) (name : String) :
    g.frames <:+ (r.perform g s).frames ∧
      match r.binds name s with
      | [] => r.value ((r.perform g s).resolveFirst r.ask name) =
          r.value (g.resolveFirst r.ask name)
      | a :: more => ∃ f, (r.perform g s).frames = f :: g.frames ∧ f.kind = s.kind ∧
          r.value ((r.perform g s).resolveFirst r.ask name) =
            some ⟨a, f.id, f.kind, !more.isEmpty⟩ := by
  rcases r.perform_cases g s with ⟨-, hsame, hnothing⟩ | ⟨-, f, hframe, hkind, -, hf⟩
  · rw [hsame, hnothing]
    exact ⟨List.suffix_refl _, rfl⟩
  · rw [hframe]
    refine ⟨List.suffix_cons f g.frames, ?_⟩
    simp only [ShadowGroup.resolveFirst, findFirst, r.value_bind]
    have hask : r.value (r.ask f.bindings name) = r.binds name s := hf name
    rw [hask]
    cases r.binds name s with
    | nil => rfl
    | cons a more => exact ⟨f, rfl, hkind, r.value_pure _⟩

/-- The look-up finds nothing if no step binds the name, and otherwise shows the last step that
does. -/
lemma shows_built (steps : List (PushStep ρ α)) (name : String) :
    match r.value ((r.built steps).resolveFirst r.ask name) with
    | none => ∀ s ∈ steps, r.binds name s = []
    | some x => ∃ outer s inner, steps = outer ++ s :: inner ∧ r.Shows name x outer s inner := by
  induction steps using List.reverseRecOn with
  | nil =>
    have hnone : r.value ((r.built []).resolveFirst r.ask name) = none := r.value_pure none
    rw [hnone]
    rintro s ⟨⟩
  | append_singleton steps s ih =>
    obtain ⟨hchain, hstep⟩ := r.value_resolveFirst_perform (r.built steps) s name
    rw [← built_append_singleton] at hchain hstep
    cases hbinds : r.binds name s with
    | nil =>
      -- the step is passed
      rw [hbinds] at hstep
      rw [hstep]
      cases hfound : r.value ((r.built steps).resolveFirst r.ask name) with
      | none =>
        rw [hfound] at ih
        intro t ht
        rcases List.mem_append.mp ht with ht | ht
        · exact ih t ht
        · rw [List.mem_singleton.mp ht, hbinds]
      | some x =>
        rw [hfound] at ih
        obtain ⟨outer, s', inner, rfl, hshows⟩ := ih
        refine ⟨outer, s', inner ++ [s], by simp, ?_⟩
        refine { hshows with passed := fun t ht => ?_, chain := ?_ }
        · rcases List.mem_append.mp ht with ht | ht
          · exact hshows.passed t ht
          · rw [List.mem_singleton.mp ht, hbinds]
        · have hlonger := hshows.chain.trans hchain
          simpa using hlonger
    | cons a more =>
      -- the step decides
      rw [hbinds] at hstep
      obtain ⟨f, hframes, hkind, hfound⟩ := hstep
      rw [hfound]
      refine ⟨steps, s, [], rfl, ?_⟩
      refine ⟨by rintro t ⟨⟩, by rw [hbinds]; rfl, ?_, hkind, ⟨f, hframes, rfl, rfl⟩,
        List.suffix_refl _, hfound⟩
      rw [hbinds]
      cases more <;> simp

/-- The look-up finds the first binding of the scan, if there is any. -/
lemma value_resolveFirst_built (steps : List (PushStep ρ α)) (name : String) :
    (r.value ((r.built steps).resolveFirst r.ask name)).map (·.result) =
      (r.scan steps name).head? := by
  have h := r.shows_built steps name
  have hpassed (ts : List (PushStep ρ α)) (hts : ∀ t ∈ ts, r.binds name t = []) :
      ts.reverse.flatMap (r.binds name) = [] :=
    List.flatMap_eq_nil_iff.mpr fun t ht => hts t (List.mem_reverse.mp ht)
  cases hfound : r.value ((r.built steps).resolveFirst r.ask name) with
  | none =>
    rw [hfound] at h
    rw [scan, hpassed steps h]
    rfl
  | some x =>
    rw [hfound] at h
    obtain ⟨outer, s, inner, rfl, hshows⟩ := h
    obtain ⟨more, hbinds⟩ := List.head?_eq_some_iff.mp hshows.result
    simp [scan, hpassed inner hshows.passed, hbinds]

/-- In a group that was built by pushes, whatever is pushed, look-ups find what a plain scan of the
pushed bindings finds, the last push first.  Drawn one by one, in part or all at once, the
candidates for a name are the bindings of the scan in its order.  There is a nearest binding if the
scan has any, and it is the first one of the scan.  It shows the last step that binds the name: it
has the kind of that step and the frame that the step added, it is ambiguous if the step binds the
name more than once, and from its frame on the look-up finds the same.  Frames of the chain have
different identities, and there are as many as pushes that do not claim to be empty. -/
theorem lookups_built (steps : List (PushStep ρ α)) (name : String) :
    r.Draws ((r.built steps).resolveAll name) (r.scan steps name) ∧
      (∀ n, (r.value (((r.built steps).resolveAll name).take r.ask n)).1 =
        (r.scan steps name).take n) ∧
      r.value (((r.built steps).resolveAll name).drain r.ask) = r.scan steps name ∧
      (r.value ((r.built steps).resolveFirst r.ask name)).map (·.result) =
        (r.scan steps name).head? ∧
      (∀ x, r.value ((r.built steps).resolveFirst r.ask name) = some x →
        ∃ outer s inner, steps = outer ++ s :: inner ∧ r.Shows name x outer s inner) ∧
      ((r.built steps).frames.map (·.id)).Nodup ∧
      (r.built steps).depth = steps.countP fun s => !s.claimsEmpty := by
  have hdraws : r.Draws ((r.built steps).resolveAll name) (r.scan steps name) := by
    rw [← r.flatMap_frames_built steps name]
    exact r.draws_frames name (r.built steps).frames []
  have hdrain : r.value (((r.built steps).resolveAll name).drain r.ask) = r.scan steps name := by
    rw [Candidates.drain, r.value_bind, r.value_pure, ← r.flatMap_frames_built steps name]
    exact r.value_allOf name (r.built steps).frames
  refine ⟨hdraws, hdraws.take, hdrain, r.value_resolveFirst_built steps name, fun x hx => ?_,
    (r.nodup_ids_built steps).1, r.depth_built steps⟩
  have h := r.shows_built steps name
  rwa [hx] at h

end Resolvers

/-! ## The frames of symbol tables -/

/-- What is known to bind nothing finds nothing. -/
lemma TypeBindings.value_find_of_isDefinitelyEmpty (p : Classpath) {b : TypeBindings}
    (h : Bindings.isDefinitelyEmpty b) (name : String) : (b.find name).value p = [] := by
  cases b with
  | declared types => exact SymbolMap.find_of_isEmpty h name
  | onDemand targets =>
    obtain rfl : targets = [] := List.isEmpty_iff.mp h
    rw [TypeBindings.find]
    split <;> rfl
  | ofPackage package => cases h

/-- Frames of types, which a classpath answers. -/
def TypeBindings.resolvers (p : Classpath) : Resolvers Query TypeBindings TypeSymbol where
  ask := TypeBindings.find
  value := Query.value p
  listed := .declared
  value_pure := Query.value_pure p
  value_bind := Query.value_bind p
  value_listed _ _ := rfl
  isDefinitelyEmpty_listed _ := rfl
  nothing_of_isDefinitelyEmpty _ h := value_find_of_isDefinitelyEmpty p h

namespace MemberBindings

/-- Frames of members that find what is declared or static in some classes. -/
def resolvers {α : Type} (find : MemberBindings α → String → List α)
    (declared : ∀ s name, find (.declared s) name = s.find name)
    (statics : ∀ name, find (.statics []) name = []) : Resolvers Id (MemberBindings α) α where
  ask b name := pure (find b name)
  value x := x.run
  listed := .declared
  value_pure _ := rfl
  value_bind _ _ := rfl
  value_listed := declared
  isDefinitelyEmpty_listed _ := rfl
  nothing_of_isDefinitelyEmpty b h name := by
    cases b with
    | declared s => exact (declared s name).trans (SymbolMap.find_of_isEmpty h name)
    | statics owners =>
      obtain rfl : owners = [] := List.isEmpty_iff.mp h
      exact statics name

/-- Frames of variables. -/
def variableResolvers : Resolvers Id (MemberBindings VariableSymbol) VariableSymbol :=
  resolvers findVariables (fun _ _ => rfl) fun _ => rfl

/-- Frames of methods. -/
def methodResolvers : Resolvers Id (MemberBindings MethodSymbol) MethodSymbol :=
  resolvers findMethods (fun _ _ => rfl) fun _ => rfl

end MemberBindings

end JavaScope
