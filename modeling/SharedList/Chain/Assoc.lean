import SharedList.Chain.Search
import SharedList.Draft

/-!
# Chains of pairs as association lists

A chain of pairs associates keys with values.  Keys are compared by a closure that is given the
**stored** key and the **searched** key, front to back; only the first pair whose key matches
counts.

* `lookupM`, `hasKeyM` look a key up.
* `splitAtKeyM` cuts the chain around the first match.
* `eraseKeyM`, `setKeyM` remove or replace the first matching pair.  Pairs before it are copied,
  pairs after it keep their cells; without a match nothing is copied.
* `lookup`, `hasKey`, `eraseKey`, `setKey` are the same for closures without effects.
-/

set_option autoImplicit false

namespace SharedList.Chain

variable {m : Type → Type} [Monad m] {κ ν θ : Type}

/-- The value of the first pair whose key matches. -/
@[specialize] def lookupM (xs : Chain (κ × ν)) (key : θ) (eq : κ → θ → m Bool) : m (Option ν) :=
  return (← xs.find?M fun pair => eq pair.1 key).map (·.2)

/-- Whether some pair's key matches. -/
@[specialize] def hasKeyM (xs : Chain (κ × ν)) (key : θ) (eq : κ → θ → m Bool) : m Bool :=
  xs.anyM fun pair => eq pair.1 key

/-- The pairs before the first match, still a draft, and the cells after it. -/
@[specialize] def splitAtKeyM (xs : Chain (κ × ν)) (key : θ) (eq : κ → θ → m Bool) :
    m (Option (Draft (κ × ν) × Chain (κ × ν))) :=
  search .empty xs.cells
where
  /-- Walks along the cells, drafting the pairs that do not match. -/
  search (before : Draft (κ × ν)) : List (Cell (κ × ν)) →
      m (Option (Draft (κ × ν) × Chain (κ × ν)))
    | [] => return none
    | cell :: rest => do
      if ← eq cell.value.1 key then
        return some (before, ⟨rest, xs.length - before.size - 1⟩)
      else
        search (before.push cell.value) rest

/-- The chain without the first pair whose key matches; the chain itself when none does. -/
@[specialize] def eraseKeyM (xs : Chain (κ × ν)) (key : θ) (eq : κ → θ → m Bool) :
    m (Fresh (Chain (κ × ν))) := do
  match ← xs.splitAtKeyM key eq with
  | some (before, rest) => return before.freezeOnto rest
  | none => return pure xs

/-- The chain with `(key, value)` in place of the first pair whose key matches, or in front when
none does. -/
@[specialize] def setKeyM (xs : Chain (κ × ν)) (key : κ) (value : ν) (eq : κ → κ → m Bool) :
    m (Fresh (Chain (κ × ν))) := do
  match ← xs.splitAtKeyM key eq with
  | some (before, rest) => return (do before.freezeOnto (← rest.cons (key, value)))
  | none => return xs.cons (key, value)

/-! ## Keys compared without effects -/

/-- The value of the first pair whose key matches. -/
def lookup (xs : Chain (κ × ν)) (key : θ) (eq : κ → θ → Bool) : Option ν :=
  Id.run (xs.lookupM key fun stored searched => pure (eq stored searched))

/-- Whether some pair's key matches. -/
def hasKey (xs : Chain (κ × ν)) (key : θ) (eq : κ → θ → Bool) : Bool :=
  Id.run (xs.hasKeyM key fun stored searched => pure (eq stored searched))

/-- The chain without the first pair whose key matches; the chain itself when none does. -/
def eraseKey (xs : Chain (κ × ν)) (key : θ) (eq : κ → θ → Bool) : Fresh (Chain (κ × ν)) :=
  Id.run (xs.eraseKeyM key fun stored searched => pure (eq stored searched))

/-- The chain with `(key, value)` in place of the first pair whose key matches, or in front when
none does. -/
def setKey (xs : Chain (κ × ν)) (key : κ) (value : ν) (eq : κ → κ → Bool) :
    Fresh (Chain (κ × ν)) :=
  Id.run (xs.setKeyM key value fun stored searched => pure (eq stored searched))

end SharedList.Chain
