import SharedList.Draft

/-!
# Cutting chains

Cutting a chain at a position past its end is refused.  Otherwise the part before the cut is
copied into new cells and the part after it keeps its cells.

* `take?` — the part before.
* `drop?` — the part after.
* `splitAt?` — both.
-/

set_option autoImplicit false

namespace SharedList.Chain

variable {α : Type}

/-- The first `count` elements, in new cells; `none` when there are fewer. -/
def take? (xs : Chain α) (count : Nat) : Option (Fresh (Chain α)) :=
  if count > xs.length then none
  else some ((Draft.withCapacity count).extend (xs.toList.take count)).freeze

/-- The cells after the first `count`; `none` when there are fewer. -/
def drop? (xs : Chain α) (count : Nat) : Option (Chain α) :=
  if count ≤ xs.length then some (xs.suffix count) else none

/-- The first `index` elements, in new cells, and the cells after them. -/
def splitAt? (xs : Chain α) (index : Nat) : Option (Fresh (Chain α × Chain α)) :=
  (xs.take? index).map fun front => return (← front, xs.suffix index)

end SharedList.Chain
