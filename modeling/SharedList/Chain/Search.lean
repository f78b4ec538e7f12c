import SharedList.Chain.Basic

/-!
# Questions that one element can decide

Each function here asks a closure about the elements, or about the pairs of elements at equal
positions below the shorter length, front to back, and stops right after the first answer that
decides the question.

* `allM`, `anyM`, `allM₂`, `anyM₂`, `containsM` — is it so of all, of some?
* `find?M`, `findIdx?M` — which element is the first, and where?
-/

set_option autoImplicit false

namespace SharedList.Chain

variable {m : Type → Type} [Monad m] {α β : Type}

/-- Whether `p` holds of every element. -/
@[specialize] def allM (xs : Chain α) (p : α → m Bool) : m Bool := ask xs.toList
where
  /-- Asks on until an answer is `false`. -/
  ask : List α → m Bool
    | [] => return true
    | x :: rest => do if ← p x then ask rest else return false

/-- Whether `p` holds of some element. -/
@[specialize] def anyM (xs : Chain α) (p : α → m Bool) : m Bool := ask xs.toList
where
  /-- Asks on until an answer is `true`. -/
  ask : List α → m Bool
    | [] => return false
    | x :: rest => do if ← p x then return true else ask rest

/-- Whether `p` holds of every pair. -/
@[specialize] def allM₂ (xs : Chain α) (ys : Chain β) (p : α → β → m Bool) : m Bool :=
  ask xs.toList ys.toList
where
  /-- Asks on until an answer is `false` or a chain ends. -/
  ask : List α → List β → m Bool
    | x :: xs, y :: ys => do if ← p x y then ask xs ys else return false
    | _, _ => return true

/-- Whether `p` holds of some pair. -/
@[specialize] def anyM₂ (xs : Chain α) (ys : Chain β) (p : α → β → m Bool) : m Bool :=
  ask xs.toList ys.toList
where
  /-- Asks on until an answer is `true` or a chain ends. -/
  ask : List α → List β → m Bool
    | x :: xs, y :: ys => do if ← p x y then return true else ask xs ys
    | _, _ => return false

/-- Whether some element stands in the relation `eq` to `y`. -/
@[specialize] def containsM (xs : Chain α) (y : β) (eq : α → β → m Bool) : m Bool :=
  xs.anyM fun x => eq x y

/-- The first element of which `p` holds. -/
@[specialize] def find?M (xs : Chain α) (p : α → m Bool) : m (Option α) := ask xs.toList
where
  /-- Asks on until an answer is `true`. -/
  ask : List α → m (Option α)
    | [] => return none
    | x :: rest => do if ← p x then return some x else ask rest

/-- The position of the first element of which `p` holds. -/
@[specialize] def findIdx?M (xs : Chain α) (p : α → m Bool) : m (Option Nat) := ask 0 xs.toList
where
  /-- Asks on until an answer is `true`, counting the positions. -/
  ask (index : Nat) : List α → m (Option Nat)
    | [] => return none
    | x :: rest => do if ← p x then return some index else ask (index + 1) rest

end SharedList.Chain
