import SharedList.Chain.Fold
import SharedList.Chain.Map
import SharedList.Session.Creation

/-!
# Commands that take a closure through one chain

Every command here calls its closure with an element as `x`, and, where the command says so, with
the element's position as `i`, the result so far as `acc`, or another value as `y`.
-/

set_option autoImplicit false

namespace SharedList

/-- The commands that take a closure through one chain. -/
inductive Traversal (σ : Type) where
  | all (p : Closure σ)
  | any (p : Closure σ)
  | findIdx (p : Closure σ)
  | find (p : Closure σ)
  | contains (d : Datum) (eq : Closure σ)
  | filter (p : Closure σ)
  | filterIdx (p : Closure σ)
  | filterMap (test f : Closure σ)
  | partition (p : Closure σ)
  | map (f : Closure σ)
  | mapIdx (f : Closure σ)
  | mapReverse (f : Closure σ)
  | visit (f : Closure σ)
  | visitIdx (f : Closure σ)
  | foldl (init : Datum) (f : Closure σ)
  | foldlIdx (init : Datum) (f : Closure σ)
  | foldr (init : Datum) (f : Closure σ)

namespace Traversal

variable {σ : Type}

/-- A position as a value. -/
def position (index : Nat) : Value := .int (Int64.ofNat index)

/-- Runs a command that takes a closure through a chain. -/
def runOn (k : Kind) (xs : Chain k.Elem) : Traversal σ → Attempt σ Outcome
  | all p => Attempt.act do
    return .bool (← xs.allM fun x => do p.test [(.x, ← Act.view k x)])
  | any p => Attempt.act do
    return .bool (← xs.anyM fun x => do p.test [(.x, ← Act.view k x)])
  | findIdx p => Attempt.act do
    let index ← xs.findIdx?M fun x => do p.test [(.x, ← Act.view k x)]
    return .only ((index.map Json.nat).getD .null)
  | find p => Attempt.act do
    let found ← xs.find?M fun x => do p.test [(.x, ← Act.view k x)]
    return .only ((found.map k.toJson).getD .null)
  | contains d eq => do
    let y ← Creation.element .vals d
    Attempt.act do
      return .bool (← xs.containsM y fun x y => do eq.test [(.x, ← Act.view k x), (.y, y)])
  | filter p => Attempt.act do
    return .chain k (← Act.build (xs.filterM fun x => do p.test [(.x, ← Act.view k x)]))
  | filterIdx p => Attempt.act do
    return .chain k (← Act.build (xs.filterIdxM fun x index => do
      p.test [(.x, ← Act.view k x), (.i, position index)]))
  | filterMap test f => Attempt.act do
    return .vals (← Act.build (xs.filterMapM fun x => do
      let args := [(.x, ← Act.view k x)]
      if ← test.test args then return some (← f.run args) else return none))
  | partition p => Attempt.act do
    let (pass, fail) ← Act.build (xs.partitionM fun x => do p.test [(.x, ← Act.view k x)])
    return .chains k k pass fail
  | map f => Attempt.act do
    return .vals (← Act.build (xs.mapM fun x => do f.call [(.x, ← Act.view k x)]))
  | mapIdx f => Attempt.act do
    return .vals (← Act.build (xs.mapIdxM fun index x => do
      f.call [(.i, position index), (.x, ← Act.view k x)]))
  | mapReverse f => Attempt.act do
    return .vals (← Act.build (xs.mapReverseM fun x => do f.call [(.x, ← Act.view k x)]))
  | visit f => Attempt.act do
    xs.forM fun x => do f.tell [(.x, ← Act.view k x)]
    return .only (reportCalls (← get).calls)
  | visitIdx f => Attempt.act do
    xs.forIdxM fun index x => do f.tell [(.i, position index), (.x, ← Act.view k x)]
    return .only (reportCalls (← get).calls)
  | foldl init f => do
    let init ← Creation.element .vals init
    Attempt.act do
      let acc ← xs.foldlM (fun acc x => do f.call [(.acc, acc), (.x, ← Act.view k x)]) init
      return .value acc
  | foldlIdx init f => do
    let init ← Creation.element .vals init
    Attempt.act do
      let acc ← xs.foldlIdxM (fun acc x index => do
        f.call [(.acc, acc), (.x, ← Act.view k x), (.i, position index)]) init
      return .value acc
  | foldr init f => do
    let init ← Creation.element .vals init
    Attempt.act do
      let folded ← xs.foldrM (fun acc x => do f.call [(.acc, acc), (.x, ← Act.view k x)]) init
      return (Outcome.value folded.value).traced folded.events

/-- Runs a command on the chain in a register. -/
def run (rs : Registers) (source : String) (t : Traversal σ) : Attempt σ Outcome := do
  let ⟨k, xs⟩ ← Attempt.read (rs.closable source)
  t.runOn k xs

end Traversal

end SharedList
