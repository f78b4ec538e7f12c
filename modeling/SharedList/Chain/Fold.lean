import SharedList.Chain.Basic
import SharedList.Trace

/-!
# Visits and folds

Every traversal here calls its function once per element, or once per pair of elements at equal
positions below the shorter length.  The functions are monadic, so that the order of the calls
and what they pass on to each other are part of the meaning.

* `forM`, `forIdxM`, `forM₂` visit front to back.
* `foldlM`, `foldlIdxM`, `foldlM₂` fold front to back.
* `foldrM`, `foldrM₂` fold back to front.  Below `recursionLimit` they recurse along the cells;
  from there on they copy the elements into a buffer, fold it from its end, and say so in an event.
-/

set_option autoImplicit false

namespace SharedList.Chain

variable {m : Type → Type} [Monad m] {α β γ : Type}

/-! ## Front to back -/

/-- Visits each element. -/
@[specialize] def forM (xs : Chain α) (f : α → m Unit) : m Unit := xs.toList.forM f

/-- Visits each element together with its position. -/
@[specialize] def forIdxM (xs : Chain α) (f : Nat → α → m Unit) : m Unit :=
  xs.toList.zipIdx.forM fun (x, index) => f index x

/-- Visits the elements of two chains in pairs, up to the end of the shorter. -/
@[specialize] def forM₂ (xs : Chain α) (ys : Chain β) (f : α → β → m Unit) : m Unit :=
  (xs.toList.zip ys.toList).forM fun (x, y) => f x y

/-- Folds front to back. -/
@[specialize] def foldlM (xs : Chain α) (f : γ → α → m γ) (init : γ) : m γ :=
  xs.toList.foldlM f init

/-- Folds front to back, passing each element's position along. -/
@[specialize] def foldlIdxM (xs : Chain α) (f : γ → α → Nat → m γ) (init : γ) : m γ :=
  xs.toList.zipIdx.foldlM (fun acc (x, index) => f acc x index) init

/-- Folds the pairs of two chains front to back, up to the end of the shorter. -/
@[specialize] def foldlM₂ (xs : Chain α) (ys : Chain β) (f : γ → α → β → m γ) (init : γ) : m γ :=
  (xs.toList.zip ys.toList).foldlM (fun acc (x, y) => f acc x y) init

/-! ## Back to front -/

/-- The length from which a right fold uses a buffer instead of recursion. -/
def recursionLimit : Nat := 1000

/-- The right fold by recursion along the cells. -/
@[specialize] def foldrRec (f : γ → α → m γ) (init : γ) : List (Cell α) → m γ
  | [] => return init
  | cell :: rest => do f (← foldrRec f init rest) cell.value

/-- The right fold by way of a buffer that is read from its end. -/
@[specialize] def foldrBuffered (f : γ → α → m γ) (init : γ) (xs : Chain α) : m γ :=
  xs.toList.reverse.foldlM f init

/-- Folds back to front. -/
@[specialize] def foldrM (xs : Chain α) (f : γ → α → m γ) (init : γ) : m (Traced γ) := do
  if xs.length < recursionLimit then
    return ⟨← foldrRec f init xs.cells, []⟩
  else
    return ⟨← foldrBuffered f init xs, [.foldBuffered xs.length]⟩

/-- The right fold over pairs by recursion along both chains' cells. -/
@[specialize] def foldrRec₂ (f : γ → α → β → m γ) (init : γ) :
    List (Cell α) → List (Cell β) → m γ
  | x :: xs, y :: ys => do f (← foldrRec₂ f init xs ys) x.value y.value
  | _, _ => return init

/-- The right fold over pairs by way of a buffer that is read from its end. -/
@[specialize] def foldrBuffered₂ (f : γ → α → β → m γ) (init : γ) (xs : Chain α) (ys : Chain β) :
    m γ :=
  (xs.toList.zip ys.toList).reverse.foldlM (fun acc (x, y) => f acc x y) init

/-- Folds the pairs of two chains back to front.  The number of pairs, not the length of either
chain, decides how. -/
@[specialize] def foldrM₂ (xs : Chain α) (ys : Chain β) (f : γ → α → β → m γ) (init : γ) :
    m (Traced γ) := do
  let pairs := min xs.length ys.length
  if pairs < recursionLimit then
    return ⟨← foldrRec₂ f init xs.cells ys.cells, []⟩
  else
    return ⟨← foldrBuffered₂ f init xs ys, [.pairsBuffered pairs]⟩

end SharedList.Chain
