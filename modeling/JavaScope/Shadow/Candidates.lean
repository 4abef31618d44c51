/-
# Candidates

All bindings of a name in all frames of a shadow group, the innermost frame first: the
overloads of a method accumulate.  Candidates are drawn one by one, and a frame is asked
only when the bindings of the frames before it are used up.  What is left to draw is a
value, so drawing can be taken up again from any point.
-/
import JavaScope.Shadow.Group

namespace JavaScope

/-- What is left to draw: the rest of the bindings of the last frame that was asked, and
the frames not asked yet. -/
structure Candidates (ρ α : Type) where
  name : String
  bucket : List α := []
  frames : List (Frame ρ)
deriving Inhabited

/-- Every binding of a name. -/
def ShadowGroup.resolveAll {ρ α : Type} (g : ShadowGroup ρ) (name : String) :
    Candidates ρ α :=
  { name, frames := g.frames }

namespace Candidates

variable {m : Type → Type} [Monad m] {ρ α : Type}

/-- The first binding in these frames, and what is left behind it. -/
def firstOf (ask : ρ → String → m (List α)) (name : String) :
    List (Frame ρ) → m (Option (α × Candidates ρ α))
  | [] => pure none
  | f :: rest => do
    match ← ask f.bindings name with
    | [] => firstOf ask name rest
    | a :: more => pure (some (a, ⟨name, more, rest⟩))

/-- The next binding, and what is left behind it. -/
def next? (ask : ρ → String → m (List α)) (c : Candidates ρ α) :
    m (Option (α × Candidates ρ α)) :=
  match c.bucket with
  | a :: more => pure (some (a, { c with bucket := more }))
  | [] => firstOf ask c.name c.frames

/-- The next `n` bindings, or all if there are fewer, and what is left behind them. -/
def take (ask : ρ → String → m (List α)) :
    Nat → Candidates ρ α → m (List α × Candidates ρ α)
  | 0, c => pure ([], c)
  | n + 1, c => do
    match ← c.next? ask with
    | none => pure ([], { c with bucket := [], frames := [] })
    | some (a, c) => do
      let (as, c) ← take ask n c
      pure (a :: as, c)

/-- The bindings in these frames. -/
def allOf (ask : ρ → String → m (List α)) (name : String) :
    List (Frame ρ) → m (List α)
  | [] => pure []
  | f :: rest => do
    let bucket ← ask f.bindings name
    let others ← allOf ask name rest
    pure (bucket ++ others)

/-- All bindings that are left. -/
def drain (ask : ρ → String → m (List α)) (c : Candidates ρ α) : m (List α) := do
  let others ← allOf ask c.name c.frames
  pure (c.bucket ++ others)

end Candidates

end JavaScope
