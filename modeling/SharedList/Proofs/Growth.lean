import SharedList.Chain.Append
import SharedList.Chain.Split

/-!
# How chains grow

Every operation that builds a chain puts new cells, one after the other, in front of a chain that
it keeps: the empty chain, an operand, or the end of one.  This file says so once.

* `Chain.prepend` — elements in front of a chain; `prepend_apply` gives its cells, their labels and
  its length.  Freezing a draft, stacking, `ofList`, `ofArray`, `take?`, `append` and
  `reverseAppend` are `prepend` (`freezeOnto_eq`, `stack_eq`, …).
* `Chain.WellFormed` — the cached length is the number of cells, and the cells are distinct.
* `Chain.Alike` — two computations come to the same elements, in whatever cells.
* `Chain.Grows` — one chain goes on with the very cells of another, after cells that are new.
  `Grows.drop?_eq` and `Grows.isNew` read the sharing off it; `Grows.trans` composes it.
* `Chain.Built` — a row of elements in new cells in front of a tail that is kept; `built_prepend`
  says that `prepend` builds it.
-/

set_option autoImplicit false

namespace SharedList

variable {α β : Type}

/-! ## The cells of a row of elements -/

namespace Cell

/-- Cells for a row of elements.  The last element's cell is made first, so that the labels count
down from front to back. -/
def numbered : List α → Label → List (Cell α)
  | [], _ => []
  | x :: xs, next => ⟨next + xs.length, x⟩ :: numbered xs next

theorem link_eq (xs : List α) (rest : List (Cell α)) (next : Label) :
    link xs rest next = (numbered xs next ++ rest, next + xs.length) := by
  induction xs with
  | nil => rfl
  | cons x xs ih =>
    rw [link_cons, ih]
    simp [numbered, Nat.add_assoc]

@[simp] theorem length_numbered (xs : List α) (next : Label) :
    (numbered xs next).length = xs.length := by
  induction xs with
  | nil => rfl
  | cons x xs ih => simp [numbered, ih]

@[simp] theorem map_value_numbered (xs : List α) (next : Label) :
    (numbered xs next).map (·.value) = xs := by
  induction xs with
  | nil => rfl
  | cons x xs ih => simp [numbered, ih]

theorem label_of_mem_numbered {xs : List α} {next : Label} {cell : Cell α}
    (h : cell ∈ numbered xs next) : next ≤ cell.label ∧ cell.label < next + xs.length := by
  induction xs with
  | nil => cases h
  | cons x xs ih =>
    rw [numbered, List.mem_cons] at h
    rcases h with rfl | h
    · exact ⟨Nat.le_add_right _ _, by simp⟩
    · obtain ⟨hge, hlt⟩ := ih h
      exact ⟨hge, Nat.lt_of_lt_of_le hlt (Nat.add_le_add_left (Nat.le_succ _) next)⟩

theorem nodup_numbered (xs : List α) (next : Label) :
    ((numbered xs next).map (·.label)).Nodup := by
  induction xs with
  | nil => exact List.nodup_nil
  | cons x xs ih =>
    rw [numbered, List.map_cons, List.nodup_cons]
    refine ⟨fun hmem => ?_, ih⟩
    obtain ⟨cell, hcell, hlabel⟩ := List.mem_map.mp hmem
    have hlt := (label_of_mem_numbered hcell).2
    exact absurd hlabel (Nat.ne_of_lt hlt)

end Cell

namespace Chain

/-! ## Well-formed chains -/

/-- Following the cells from the first one ends after exactly as many as the chain says it has,
and no cell is met twice. -/
structure WellFormed (xs : Chain α) : Prop where
  length_eq : xs.length = xs.cells.length
  nodup : (xs.cells.map (·.label)).Nodup

theorem wellFormed_empty : (empty : Chain α).WellFormed := ⟨rfl, List.nodup_nil⟩

/-- Every cell of the chain was made before the supply came to `next`. -/
def Before (next : Label) (xs : Chain α) : Prop := ∀ cell ∈ xs.cells, cell.label < next

theorem Before.mono {next next' : Label} (hle : next ≤ next') {xs : Chain α}
    (h : xs.Before next) : xs.Before next' :=
  fun cell hcell => Nat.lt_of_lt_of_le (h cell hcell) hle

/-- A cell made from `next` on is no cell of a chain made before. -/
theorem Before.label_ne {next : Label} {old : Chain β} (hold : old.Before next) {cell : Cell α}
    (hge : next ≤ cell.label) {other : Cell β} (hother : other ∈ old.cells) :
    cell.label ≠ other.label :=
  Nat.ne_of_gt (Nat.lt_of_lt_of_le (hold other hother) hge)

theorem length_toList (xs : Chain α) : xs.toList.length = xs.cells.length := by simp [toList]

/-- The cached length is the number of elements. -/
theorem WellFormed.toList_length {xs : Chain α} (h : xs.WellFormed) :
    xs.toList.length = xs.length := by
  rw [length_toList, h.length_eq]

theorem same_refl (xs : Chain α) : xs.same xs = true := by
  unfold same
  cases xs.cells with
  | nil => rfl
  | cons cell rest => simp

theorem tail?_eq_some {xs ys : Chain α} (h : xs.tail? = some ys) : ys = xs.suffix 1 := by
  unfold tail? at h
  split at h
  · cases h
  · rename_i cell rest hcells
    cases h
    rw [suffix, hcells]
    rfl

theorem drop?_eq_some {xs rest : Chain α} {count : Nat} (h : xs.drop? count = some rest) :
    count ≤ xs.length ∧ rest = xs.suffix count := by
  unfold drop? at h
  split at h
  · rename_i hle
    cases h
    exact ⟨hle, rfl⟩
  · cases h

theorem uncons?_eq_some {xs ys : Chain α} {x : α} (h : xs.uncons? = some (x, ys)) :
    x ∈ xs.toList ∧ ys = xs.suffix 1 := by
  unfold uncons? at h
  split at h
  · cases h
  · rename_i cell rest hcells
    cases h
    rw [suffix, toList, hcells]
    exact ⟨List.mem_cons_self, rfl⟩

/-- Whatever labels they draw, both computations come to the same elements in the same order. -/
def Alike (make make' : Fresh (Chain α)) : Prop :=
  ∀ next next', (make next).1.toList = (make' next').1.toList

/-! ## Elements in front of a chain -/

/-- The elements of a list, in order, in new cells in front of `rest`. -/
def prepend (xs : List α) (rest : Chain α) : Fresh (Chain α) := xs.foldrM cons rest

theorem prepend_apply (xs : List α) (rest : Chain α) (next : Label) :
    prepend xs rest next =
      (⟨Cell.numbered xs next ++ rest.cells, rest.length + xs.length⟩, next + xs.length) := by
  rw [prepend, Draft.foldrM_cons_apply, Cell.link_eq]

theorem toList_prepend (xs : List α) (rest : Chain α) (next : Label) :
    (prepend xs rest next).1.toList = xs ++ rest.toList := by
  simp [prepend_apply, toList]

theorem length_prepend (xs : List α) (rest : Chain α) (next : Label) :
    (prepend xs rest next).1.length = xs.length + rest.length := by
  rw [prepend_apply]
  exact Nat.add_comm _ _

/-- In front of nothing there is the row alone. -/
theorem toList_prepend_empty (xs : List α) (next : Label) :
    (prepend xs empty next).1.toList = xs := by
  rw [toList_prepend, toList_empty, List.append_nil]

theorem length_prepend_empty (xs : List α) (next : Label) :
    (prepend xs empty next).1.length = xs.length := length_prepend xs empty next

theorem prepend_cons (x : α) (xs : List α) (rest : Chain α) :
    prepend (x :: xs) rest = prepend xs rest >>= cons x := by
  rw [prepend, List.foldrM_cons]
  rfl

/-- A row in front of a chain, one part after the other. -/
theorem prepend_append (xs ys : List α) (rest : Chain α) :
    prepend (xs ++ ys) rest = prepend ys rest >>= prepend xs := by
  rw [prepend, List.foldrM_append]
  rfl

/-! ## Builders put elements in front of a chain -/

theorem freezeOnto_eq (d : Draft α) (tail : Chain α) :
    d.freezeOnto tail = prepend d.toList tail := by
  rw [Draft.freezeOnto, ← Array.foldrM_toList]
  rfl

theorem freeze_eq (d : Draft α) : d.freeze = prepend d.toList empty := freezeOnto_eq d empty

theorem ofList_eq (xs : List α) : ofList xs = prepend xs empty := by
  funext next
  rw [prepend_apply]
  show ((⟨(Cell.link xs [] next).1, xs.length⟩ : Chain α), (Cell.link xs [] next).2) = _
  simp [Cell.link_eq, empty]

theorem length_ofList (xs : List α) (next : Label) : (ofList xs next).1.length = xs.length := rfl

/-- A chain made of a list counts its cells. -/
theorem counted_ofList (xs : List α) (next : Label) :
    (ofList xs next).1.length = (ofList xs next).1.cells.length := by
  rw [← length_toList, toList_ofList, length_ofList]

theorem ofArray_eq (xs : Array α) : ofArray xs = prepend xs.toList empty := by
  rw [ofArray_eq_ofList, ofList_eq]

theorem collect_eq (xs : List α) : collect xs = prepend xs empty := by
  simp [collect, freeze_eq]

theorem stack_eq (xs : List α) (onto : Chain α) : stack xs onto = prepend xs.reverse onto := by
  rw [prepend, List.foldrM_reverse]
  rfl

theorem take?_eq {xs : Chain α} {count : Nat} (h : count ≤ xs.length) :
    xs.take? count = some (prepend (xs.toList.take count) empty) := by
  rw [take?, if_neg (Nat.not_lt.mpr h), freeze_eq, Draft.toList_extend]
  rfl

/-- Where there is a part before the cut, it is the row of its elements. -/
theorem take?_eq_some {xs : Chain α} {count : Nat} {make : Fresh (Chain α)}
    (h : xs.take? count = some make) : make = prepend (xs.toList.take count) empty := by
  by_cases hle : count ≤ xs.length
  · rw [take?_eq hle] at h
    exact (Option.some.inj h).symm
  · rw [take?, if_pos (Nat.lt_of_not_le hle)] at h
    cases h

theorem append_eq {xs ys : Chain α} (hx : xs.isEmpty = false) (hy : ys.isEmpty = false) :
    xs.append ys = prepend xs.toList ys := by
  simp [append, hx, hy, freezeOnto_eq]

theorem append_of_isEmpty_left {xs : Chain α} (ys : Chain α) (hx : xs.isEmpty = true) :
    xs.append ys = pure ys := by
  simp [append, hx]

theorem append_of_isEmpty_right {xs ys : Chain α} (hx : xs.isEmpty = false)
    (hy : ys.isEmpty = true) : xs.append ys = pure xs := by
  simp [append, hx, hy]

/-! ## Growing from a chain -/

/-- The chain `result` goes on with the very cells of `tail`, after cells that were all made from
`next` on, and counts both. -/
def Grows (next : Label) (tail result : Chain α) : Prop :=
  ∃ front, result.cells = front ++ tail.cells ∧ (∀ cell ∈ front, next ≤ cell.label) ∧
    result.length = front.length + tail.length

namespace Grows

variable {next next' : Label} {tail middle result : Chain α}

theorem refl (next : Label) (xs : Chain α) : Grows next xs xs :=
  ⟨[], rfl, fun _ h => absurd h List.not_mem_nil, by simp⟩

theorem trans (hle : next ≤ next') (first : Grows next tail middle)
    (second : Grows next' middle result) : Grows next tail result := by
  obtain ⟨front, hcells, hnew, hlen⟩ := first
  obtain ⟨front', hcells', hnew', hlen'⟩ := second
  refine ⟨front' ++ front, by rw [hcells', hcells, List.append_assoc], ?_, ?_⟩
  · intro cell hcell
    rcases List.mem_append.mp hcell with h | h
    · exact Nat.le_trans hle (hnew' cell h)
    · exact hnew cell h
  · rw [hlen', hlen, List.length_append, Nat.add_assoc]

theorem mono (hle : next ≤ next') (h : Grows next' tail result) : Grows next tail result :=
  trans hle (refl next tail) h

theorem length_eq (h : Grows next tail result) (htail : tail.length = tail.cells.length) :
    result.length = result.cells.length := by
  obtain ⟨front, hcells, -, hlen⟩ := h
  rw [hlen, hcells, List.length_append, htail]

theorem isEmpty_eq_false (h : Grows next tail result) (htail : tail.isEmpty = false) :
    result.isEmpty = false := by
  obtain ⟨front, hcells, -, -⟩ := h
  simp only [isEmpty, List.isEmpty_eq_false_iff] at htail ⊢
  rw [hcells]
  exact List.append_ne_nil_of_right_ne_nil front htail

/-- What comes after the new cells is `tail` itself. -/
theorem drop?_eq (h : Grows next tail result) :
    result.drop? (result.length - tail.length) = some tail := by
  obtain ⟨front, hcells, -, hlen⟩ := h
  have hcount : result.length - tail.length = front.length := by omega
  have hrest : result.length - front.length = tail.length := by omega
  rw [drop?, if_pos (by omega), hcount, suffix, hcells, List.drop_left, hrest]

/-- What comes before the cells of `tail` was made from `next` on. -/
theorem label_ge (h : Grows next tail result) :
    ∀ cell ∈ result.cells.take (result.length - tail.length), next ≤ cell.label := by
  obtain ⟨front, hcells, hnew, hlen⟩ := h
  have hcount : result.length - tail.length = front.length := by omega
  intro cell hcell
  rw [hcount, hcells, List.take_left] at hcell
  exact hnew cell hcell

/-- So it is in no chain made before. -/
theorem isNew (h : Grows next tail result) {old : Chain β} (hold : old.Before next) :
    ∀ cell ∈ result.cells.take (result.length - tail.length), ∀ other ∈ old.cells,
      cell.label ≠ other.label :=
  fun cell hcell _ hother => hold.label_ne (h.label_ge cell hcell) hother

end Grows

theorem grows_prepend (xs : List α) (rest : Chain α) (next : Label) :
    Grows next rest (prepend xs rest next).1 := by
  rw [prepend_apply]
  refine ⟨Cell.numbered xs next, rfl, fun cell h => (Cell.label_of_mem_numbered h).1, ?_⟩
  rw [Cell.length_numbered, Nat.add_comm]

theorem le_prepend (xs : List α) (rest : Chain α) (next : Label) :
    next ≤ (prepend xs rest next).2 := by
  rw [prepend_apply]
  exact Nat.le_add_right _ _

/-! ## Rows in front of tails -/

/-- The chain holds the row in new cells, and goes on with the very cells of the tail. -/
structure Built (next : Label) (row : List α) (tail result : Chain α) : Prop where
  toList : result.toList = row ++ tail.toList
  length : result.length = row.length + tail.length
  /-- What comes after the row is the tail itself; if there is no row, the result is the tail. -/
  kept : result.drop? row.length = some tail
  whole : row = [] → result = tail
  /-- The cells of the row are in no chain made before. -/
  new : ∀ old : Chain α, old.Before next → ∀ cell ∈ result.cells.take row.length,
    ∀ other ∈ old.cells, cell.label ≠ other.label
  wellFormed : tail.WellFormed → tail.Before next → result.WellFormed

theorem built_prepend (row : List α) (tail : Chain α) (next : Label) :
    Built next row tail (prepend row tail next).1 := by
  have hgrows := grows_prepend row tail next
  have hlength := length_prepend row tail next
  have hcount : (prepend row tail next).1.length - tail.length = row.length := by omega
  refine ⟨toList_prepend row tail next, hlength, hcount ▸ hgrows.drop?_eq, ?_,
    fun old hold => hcount ▸ hgrows.isNew hold, fun htail hbefore => ?_⟩
  · rintro rfl
    rfl
  · refine ⟨hgrows.length_eq htail.length_eq, ?_⟩
    rw [prepend_apply, List.map_append, List.nodup_append]
    refine ⟨Cell.nodup_numbered row next, htail.nodup, fun a ha b hb heq => ?_⟩
    obtain ⟨cell, hcell, rfl⟩ := List.mem_map.mp ha
    obtain ⟨other, hother, rfl⟩ := List.mem_map.mp hb
    exact hbefore.label_ne (Cell.label_of_mem_numbered hcell).1 hother heq

end Chain

end SharedList
