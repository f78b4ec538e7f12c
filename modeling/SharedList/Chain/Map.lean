import SharedList.Chain.Append

/-!
# Chains made from the answers of a function

Every function here calls a closure once per element, or once per pair of elements at equal
positions below the shorter length, front to back, and then puts the answers, or the elements
that the answers select, into cells that are all new.  The closures run first: what is returned is
the `Fresh` computation that makes the cells.

* `mapM`, `mapIdxM`, `zipWithM` keep the order; `mapReverseM`, `zipWithReverseM` reverse it.
* `filterM`, `filterIdxM`, `filterMapM`, `partitionM` select.
* `zip` pairs two chains up and `unzip` takes pairs apart.
-/

set_option autoImplicit false

namespace SharedList.Chain

variable {m : Type → Type} [Monad m] {α β γ : Type}

/-! ## Mapping -/

/-- The answers of `f`, in order. -/
@[specialize] def mapM (xs : Chain α) (f : α → m β) : m (Fresh (Chain β)) := do
  let answers ← xs.toList.foldlM (fun (d : Draft β) x => return d.push (← f x))
    (.withCapacity xs.length)
  return answers.freeze

/-- The answers of `f`, which is also given each element's position. -/
@[specialize] def mapIdxM (xs : Chain α) (f : Nat → α → m β) : m (Fresh (Chain β)) := do
  let answers ← xs.toList.zipIdx.foldlM
    (fun (d : Draft β) (x, index) => return d.push (← f index x)) (.withCapacity xs.length)
  return answers.freeze

/-- The answers of `f`, the last one in front. -/
@[specialize] def mapReverseM (xs : Chain α) (f : α → m β) : m (Fresh (Chain β)) := do
  let answers ← xs.toList.foldlM (fun (d : Draft β) x => return d.push (← f x)) .empty
  return stack answers.toList empty

/-- The answers of `f` about the pairs, in order. -/
@[specialize] def zipWithM (xs : Chain α) (ys : Chain β) (f : α → β → m γ) :
    m (Fresh (Chain γ)) := do
  let answers ← (xs.toList.zip ys.toList).foldlM
    (fun (d : Draft γ) (x, y) => return d.push (← f x y)) (.withCapacity (min xs.length ys.length))
  return answers.freeze

/-- The answers of `f` about the pairs, the last one in front. -/
@[specialize] def zipWithReverseM (xs : Chain α) (ys : Chain β) (f : α → β → m γ) :
    m (Fresh (Chain γ)) := do
  let answers ← (xs.toList.zip ys.toList).foldlM
    (fun (d : Draft γ) (x, y) => return d.push (← f x y)) .empty
  return stack answers.toList empty

/-! ## Selecting -/

/-- The elements of which `p` holds. -/
@[specialize] def filterM (xs : Chain α) (p : α → m Bool) : m (Fresh (Chain α)) := do
  let kept ← xs.toList.foldlM
    (fun (d : Draft α) x => do if ← p x then return d.push x else return d) .empty
  return kept.freeze

/-- The elements of which `p`, which is also given their positions, holds. -/
@[specialize] def filterIdxM (xs : Chain α) (p : α → Nat → m Bool) : m (Fresh (Chain α)) := do
  let kept ← xs.toList.zipIdx.foldlM
    (fun (d : Draft α) (x, index) => do if ← p x index then return d.push x else return d) .empty
  return kept.freeze

/-- The values that `f` gives, for the elements to which it gives one. -/
@[specialize] def filterMapM (xs : Chain α) (f : α → m (Option β)) : m (Fresh (Chain β)) := do
  let given ← xs.toList.foldlM
    (fun (d : Draft β) x => do
      match ← f x with
      | some y => return d.push y
      | none => return d) .empty
  return given.freeze

/-- The elements of which `p` holds, and those of which it does not. -/
@[specialize] def partitionM (xs : Chain α) (p : α → m Bool) :
    m (Fresh (Chain α × Chain α)) := do
  let (pass, fail) ← xs.toList.foldlM
    (fun ((pass, fail) : Draft α × Draft α) x => do
      if ← p x then return (pass.push x, fail) else return (pass, fail.push x))
    (Draft.empty, Draft.empty)
  return do return (← pass.freeze, ← fail.freeze)

/-! ## Pairs -/

/-- Pairs of the elements at equal positions, up to the end of the shorter chain. -/
def zip (xs : Chain α) (ys : Chain β) : Fresh (Chain (α × β)) :=
  Id.run (xs.zipWithM ys fun x y => pure (x, y))

/-- The first and the second components of a chain of pairs. -/
def unzip (xs : Chain (α × β)) : Fresh (Chain α × Chain β) := do
  let (firsts, seconds) := xs.toList.foldl
    (fun ((firsts, seconds) : Draft α × Draft β) (x, y) => (firsts.push x, seconds.push y))
    (Draft.withCapacity xs.length, Draft.withCapacity xs.length)
  return (← firsts.freeze, ← seconds.freeze)

end SharedList.Chain
