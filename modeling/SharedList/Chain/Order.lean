import SharedList.Chain.Search

/-!
# Equality and order of chains

Chains are compared by their elements alone; which cells they share makes no difference.

* `equalM` compares the cached lengths first and then asks about the pairs.
* `compareM` is lexicographic: the first pair that is not equal decides, and a chain that ends
  first is less.
* `partialCompare` is the same order where elements may be incomparable: a first deciding pair
  without an order leaves the chains without one.
* `compareLength` compares the cached lengths only.
-/

set_option autoImplicit false

namespace SharedList.Chain

variable {m : Type → Type} [Monad m] {α β : Type}

/-- Whether the lengths agree and `eq` holds of every pair. -/
@[specialize] def equalM (xs : Chain α) (ys : Chain β) (eq : α → β → m Bool) : m Bool :=
  if xs.length = ys.length then xs.allM₂ ys eq else return false

/-- The lexicographic comparison by `cmp`. -/
@[specialize] def compareM (xs : Chain α) (ys : Chain β) (cmp : α → β → m Ordering) : m Ordering :=
  decideFirst xs.toList ys.toList
where
  /-- Compares pair by pair until one decides or a chain ends. -/
  decideFirst : List α → List β → m Ordering
    | [], [] => return .eq
    | [], _ :: _ => return .lt
    | _ :: _, [] => return .gt
    | x :: xs, y :: ys => do
      match ← cmp x y with
      | .eq => decideFirst xs ys
      | decided => return decided

/-- The comparison by length only. -/
def compareLength (xs : Chain α) (ys : Chain β) : Ordering := compare xs.length ys.length

/-! ## Orders without effects -/

/-- Whether the lengths agree and `eq` holds of every pair. -/
def equal (xs : Chain α) (ys : Chain β) (eq : α → β → Bool) : Bool :=
  Id.run (xs.equalM ys fun x y => pure (eq x y))

/-- The lexicographic order over the order `cmp` of the elements. -/
def compareBy (xs : Chain α) (ys : Chain β) (cmp : α → β → Ordering) : Ordering :=
  Id.run (xs.compareM ys fun x y => pure (cmp x y))

/-- The lexicographic order over an order in which elements may be incomparable. -/
def partialCompare (xs : Chain α) (ys : Chain β) (cmp : α → β → Option Ordering) :
    Option Ordering :=
  decideFirst xs.toList ys.toList
where
  /-- Compares pair by pair until one is not equal or a chain ends. -/
  decideFirst : List α → List β → Option Ordering
    | [], [] => some .eq
    | [], _ :: _ => some .lt
    | _ :: _, [] => some .gt
    | x :: xs, y :: ys =>
      match cmp x y with
      | some .eq => decideFirst xs ys
      | decided => decided

instance [BEq α] : BEq (Chain α) := ⟨fun xs ys => xs.equal ys (· == ·)⟩

instance [Ord α] : Ord (Chain α) := ⟨fun xs ys => xs.compareBy ys compare⟩

end SharedList.Chain
