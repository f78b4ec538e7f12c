import SharedList.Chain.Fold
import SharedList.Chain.Map
import SharedList.Chain.Order
import SharedList.Session.Creation

/-!
# Commands that take a closure through two chains

Every command here calls its closure with the elements at equal positions as `x` and `y`, up to the
end of the shorter chain, and, where the command says so, with the result so far as `acc`.
-/

set_option autoImplicit false

namespace SharedList

/-- The commands that take a closure through two chains. -/
inductive Pairing (σ : Type) where
  | zipWith (f : Closure σ)
  | zipWithReverse (f : Closure σ)
  | all (p : Closure σ)
  | any (p : Closure σ)
  | equal (p : Closure σ)
  | compare (f : Closure σ)
  | visit (f : Closure σ)
  | foldl (init : Datum) (f : Closure σ)
  | foldr (init : Datum) (f : Closure σ)

namespace Pairing

variable {σ : Type}

/-- The arguments for a pair of elements. -/
def args (k₁ k₂ : Kind) (x : k₁.Elem) (y : k₂.Elem) : Act σ Args :=
  return [(.x, ← Act.view k₁ x), (.y, ← Act.view k₂ y)]

/-- Runs a command that takes a closure through two chains. -/
def runOn (k₁ k₂ : Kind) (xs : Chain k₁.Elem) (ys : Chain k₂.Elem) : Pairing σ → Attempt σ Outcome
  | zipWith f => Attempt.act do
    return .vals (← Act.build (xs.zipWithM ys fun x y => do f.call (← args k₁ k₂ x y)))
  | zipWithReverse f => Attempt.act do
    return .vals (← Act.build (xs.zipWithReverseM ys fun x y => do f.call (← args k₁ k₂ x y)))
  | all p => Attempt.act do
    return .bool (← xs.allM₂ ys fun x y => do p.test (← args k₁ k₂ x y))
  | any p => Attempt.act do
    return .bool (← xs.anyM₂ ys fun x y => do p.test (← args k₁ k₂ x y))
  | equal p => Attempt.act do
    return .bool (← xs.equalM ys fun x y => do p.test (← args k₁ k₂ x y))
  | compare f => Attempt.act do
    return .only (reportOrdering (← xs.compareM ys fun x y => do f.order (← args k₁ k₂ x y)))
  | visit f => Attempt.act do
    xs.forM₂ ys fun x y => do f.tell (← args k₁ k₂ x y)
    return .only (reportCalls (← get).calls)
  | foldl init f => do
    let init ← Creation.element .vals init
    Attempt.act do
      let acc ← xs.foldlM₂ ys (fun acc x y => do f.call ((.acc, acc) :: (← args k₁ k₂ x y))) init
      return .value acc
  | foldr init f => do
    let init ← Creation.element .vals init
    Attempt.act do
      let folded ←
        xs.foldrM₂ ys (fun acc x y => do f.call ((.acc, acc) :: (← args k₁ k₂ x y))) init
      return (Outcome.value folded.value).traced folded.events

/-- Runs a command on the chains in two registers. -/
def run (rs : Registers) (source other : String) (p : Pairing σ) : Attempt σ Outcome := do
  let ⟨k₁, xs⟩ ← Attempt.read (rs.closable source)
  let ⟨k₂, ys⟩ ← Attempt.read (rs.closable other)
  p.runOn k₁ k₂ xs ys

end Pairing

end SharedList
