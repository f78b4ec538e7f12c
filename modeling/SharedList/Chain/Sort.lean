import SharedList.Chain.Basic
import SharedList.Trace

/-!
# Sorting

Sorting copies the elements into a buffer, reports that it does, sorts the buffer and puts the
elements into new cells.  It is **stable**: of two elements the later one moves in front of the
earlier one only if it compares less.

A comparison may have effects.  Then it matters which elements it is asked about and when; a merge
sort, of which the halves are sorted one after the other, is one of the sorts that are stable.

* `Row.mergeM`, `Row.mergeSortM` — the merge sort of a row.
* `Chain.sortByM` — sorts by a comparison that may have effects, `Chain.sortBy` by one without.
-/

set_option autoImplicit false

namespace SharedList

variable {m : Type → Type} [Monad m] {α : Type}

namespace Row

/-- Merges two rows behind what is merged already, which is given from its end.  `inOrder x y` says
whether `x` may stay in front of `y`. -/
@[specialize] def mergeM (inOrder : α → α → m Bool) : List α → List α → List α → m (List α)
  | merged, [], ys => return merged.reverseAux ys
  | merged, xs, [] => return merged.reverseAux xs
  | merged, x :: xs, y :: ys => do
    if ← inOrder x y then mergeM inOrder (x :: merged) xs (y :: ys)
    else mergeM inOrder (y :: merged) (x :: xs) ys
termination_by _ xs ys => xs.length + ys.length

/-- Sorts the first half of a row and then the second, and merges them. -/
@[specialize] def mergeSortM (inOrder : α → α → m Bool) (row : List α) : m (List α) :=
  if row.length ≤ 1 then return row
  else do
    let front ← mergeSortM inOrder (row.take ((row.length + 1) / 2))
    let back ← mergeSortM inOrder (row.drop ((row.length + 1) / 2))
    mergeM inOrder [] front back
termination_by row.length
decreasing_by
  · rw [List.length_take]
    omega
  · rw [List.length_drop]
    omega

end Row

namespace Chain

/-- Sorts by `cmp`, which compares its first argument with its second and may have effects.  Other
stable sorts may ask in another order; nobody can tell but a comparison that answers according to
what it was asked before. -/
@[specialize] def sortByM (xs : Chain α) (cmp : α → α → m Ordering) :
    m (Traced (Fresh (Chain α))) := do
  let elements := xs.toList
  let sorted ← Row.mergeSortM (fun earlier later => return (← cmp later earlier) != .lt) elements
  return ⟨ofArray sorted.toArray, [.sorting elements.length]⟩

/-- Sorts by `cmp`, which compares its first argument with its second. -/
def sortBy (xs : Chain α) (cmp : α → α → Ordering) : Traced (Fresh (Chain α)) :=
  Id.run (xs.sortByM fun x y => pure (cmp x y))

/-- Sorts by the natural order of the elements. -/
def sort [Ord α] (xs : Chain α) : Traced (Fresh (Chain α)) := xs.sortBy compare

end Chain

end SharedList
