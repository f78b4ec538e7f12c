import SharedList.Proofs.Appending

/-!
# Cuts and what they leave

A cut is refused by the cached length alone and made along the cells alone: the part before it is
copied, the part after it keeps its cells.  On a well-formed chain the two agree at every count, so
the parts fit together again, and cuts can be made one after the other.

* `Chain.tailAfter?` — the chain after so many steps to the tail; `drop?` comes to the same.
* `Chain.drop?_drop?` — what is left after two cuts is what is left after one of both counts.
* `Chain.Parts`, `Chain.Rejoins` — the two parts of a chain, and what joins them again.
* `Chain.cuts_fit_together` — all of this for every count.
-/

set_option autoImplicit false

namespace SharedList.Chain

variable {α : Type}

/-! ## Steps to the tail -/

/-- The chain after `count` steps to the tail, if there are that many. -/
def tailAfter? (xs : Chain α) : Nat → Option (Chain α)
  | 0 => some xs
  | count + 1 => (xs.tailAfter? count).bind tail?

theorem drop?_eq_none_iff (xs : Chain α) (count : Nat) :
    xs.drop? count = none ↔ xs.length < count := by
  simp [drop?]

theorem suffix_suffix (xs : Chain α) (count further : Nat) :
    (xs.suffix count).suffix further = xs.suffix (count + further) := by
  simp only [suffix, List.drop_drop, Nat.sub_sub]

/-- **Cuts one after the other** leave what one cut of both counts does, and are refused when it
is. -/
theorem drop?_drop? {xs rest : Chain α} {count : Nat} (h : xs.drop? count = some rest)
    (further : Nat) : rest.drop? further = xs.drop? (count + further) := by
  obtain ⟨hle, rfl⟩ := drop?_eq_some h
  have hlength : (xs.suffix count).length = xs.length - count := rfl
  rw [drop?, drop?, suffix_suffix, hlength]
  by_cases hfurther : count + further ≤ xs.length
  · rw [if_pos hfurther, if_pos (by omega)]
  · rw [if_neg hfurther, if_neg (by omega)]

/-- What is left counts its cells if the chain does. -/
theorem length_drop? {xs rest : Chain α} {count : Nat} (hxs : xs.length = xs.cells.length)
    (h : xs.drop? count = some rest) : rest.length = rest.cells.length := by
  obtain ⟨-, rfl⟩ := drop?_eq_some h
  show xs.length - count = (xs.cells.drop count).length
  rw [List.length_drop, hxs]

/-- A step to the tail is a cut after one cell. -/
theorem tail?_eq_drop? {xs : Chain α} (hxs : xs.length = xs.cells.length) :
    xs.tail? = xs.drop? 1 := by
  obtain ⟨cells, length⟩ := xs
  obtain rfl : length = cells.length := hxs
  cases cells with
  | nil => rfl
  | cons cell rest => simp [tail?, drop?, suffix]

/-- **A cut is as many steps to the tail**, at every count. -/
theorem tailAfter?_eq_drop? {xs : Chain α} (hxs : xs.length = xs.cells.length) (count : Nat) :
    xs.tailAfter? count = xs.drop? count := by
  induction count with
  | zero => rfl
  | succ count ih =>
    rw [tailAfter?, ih]
    cases h : xs.drop? count with
    | none =>
      rw [drop?_eq_none_iff] at h
      exact ((drop?_eq_none_iff xs (count + 1)).mpr (Nat.lt_succ_of_lt h)).symm
    | some rest =>
      show rest.tail? = _
      rw [tail?_eq_drop? (length_drop? hxs h), drop?_drop? h]

/-! ## The two parts -/

theorem take?_eq_none_iff (xs : Chain α) (count : Nat) :
    xs.take? count = none ↔ xs.length < count := by
  simp [take?]

theorem splitAt?_eq_none_iff (xs : Chain α) (index : Nat) :
    xs.splitAt? index = none ↔ xs.length < index := by
  rw [splitAt?, Option.map_eq_none_iff, take?_eq_none_iff]

theorem length_take_toList {xs : Chain α} (hxs : xs.length = xs.cells.length) {count : Nat}
    (h : count ≤ xs.length) : (xs.toList.take count).length = count := by
  rw [List.length_take, length_toList, ← hxs]
  omega

/-- The parts of `xs` before and after `count` cells. -/
structure Parts (xs : Chain α) (count : Nat) (front rest : Chain α) : Prop where
  front_toList : front.toList = xs.toList.take count
  front_length : front.length = count
  rest_toList : rest.toList = xs.toList.drop count
  rest_length : rest.length = xs.length - count
  /-- The part after the cut is the very chain that as many steps to the tail come to. -/
  rest_tail : xs.tailAfter? count = some rest

theorem parts_suffix {xs : Chain α} (hxs : xs.length = xs.cells.length) {count : Nat}
    (h : count ≤ xs.length) (next : Label) :
    Parts xs count (prepend (xs.toList.take count) empty next).1 (xs.suffix count) := by
  refine ⟨?_, ?_, toList_suffix xs count, rfl, ?_⟩
  · rw [toList_prepend_empty]
  · rw [length_prepend_empty, length_take_toList hxs h]
  · rw [tailAfter?_eq_drop? hxs, drop?, if_pos h]

/-! ## Joining them again -/

/-- The chain `joined` holds what `xs` holds, and has the cells of `xs` from `count` on; its cells
before that were made from `next` on. -/
structure Rejoins (next : Label) (xs : Chain α) (count : Nat) (joined : Chain α) : Prop where
  toList_eq : joined.toList = xs.toList
  length_eq : joined.length = xs.length
  /-- Wherever one goes on behind the cut, there is the same left of both. -/
  shares : ∀ further, joined.drop? (count + further) = xs.drop? (count + further)
  /-- No cell before the cut is a cell of a chain made before. -/
  isNew : ∀ old : Chain α, old.Before next → ∀ cell ∈ joined.cells.take count,
    ∀ other ∈ old.cells, cell.label ≠ other.label

/-- A row that is made and then joined to a chain grows from that chain, also where one of the two
is empty. -/
theorem grows_made_append (row : List α) {rest : Chain α} (hrest : rest.length = rest.cells.length)
    (next : Label) :
    Grows next rest ((prepend row empty >>= fun front => front.append rest) next).1 := by
  have hmade := grows_prepend row empty next
  have hle := le_prepend row empty next
  rw [Fresh.bind_apply]
  generalize prepend row empty next = made at hmade hle ⊢
  have hgrows := grows_append (hmade.length_eq rfl) hrest made.2
  cases hempty : rest.isEmpty with
  | true =>
    -- The row itself is kept, and it grew from the empty chain, which `rest` is.
    rw [kept_of_isEmpty hempty] at hgrows
    rw [eq_empty hempty hrest]
    rw [eq_empty hempty hrest] at hgrows
    exact Grows.trans hle hmade hgrows
  | false =>
    rw [kept_of_filled hempty] at hgrows
    exact hgrows.mono hle

theorem length_made_append (row : List α) {rest : Chain α}
    (hrest : rest.length = rest.cells.length) (next : Label) :
    ((prepend row empty >>= fun front => front.append rest) next).1.length =
      row.length + rest.length := by
  have hmade := (grows_prepend row empty next).length_eq rfl
  rw [Fresh.bind_apply, length_append_eq hmade hrest, length_prepend_empty]

theorem rejoins_append {xs : Chain α} (hxs : xs.length = xs.cells.length) {count : Nat}
    (h : count ≤ xs.length) (next : Label) :
    Rejoins next xs count
      ((prepend (xs.toList.take count) empty >>= fun front => front.append (xs.suffix count))
        next).1 := by
  have hdrop : xs.drop? count = some (xs.suffix count) := if_pos h
  have hrest := length_drop? hxs hdrop
  have hparts := parts_suffix hxs h next
  have hgrows := grows_made_append (xs.toList.take count) hrest next
  have hlength := length_made_append (xs.toList.take count) hrest next
  rw [length_take_toList hxs h, hparts.rest_length, Nat.add_sub_cancel' h] at hlength
  have hcut : xs.length - (xs.suffix count).length = count := by
    rw [hparts.rest_length]
    omega
  rw [← hlength] at hcut
  refine ⟨?_, hlength, fun further => ?_, fun old hold cell hcell => ?_⟩
  · rw [Fresh.bind_apply, toList_append, hparts.front_toList, hparts.rest_toList,
      List.take_append_drop]
  · have hshared := hgrows.drop?_add further
    rw [hcut] at hshared
    rw [hshared, drop?_drop? hdrop]
  · exact hgrows.isNew hold cell (hcut.symm ▸ hcell)

/-! ## All cuts -/

/-- **Cuts fit together.**  All three are refused at the same counts, which are those past the end.
Otherwise the two parts of `splitAt?` are those of `take?` and `drop?`; they hold the elements
before and after the cut, the second being what as many steps to the tail come to; and joined again
they hold what the chain held and go on with its cells from the cut on.  Cutting what is left of a
chain is cutting the chain at the sum of both counts, however great that is. -/
theorem cuts_fit_together {xs : Chain α} (hxs : xs.WellFormed) (count : Nat) :
    -- Refusals
    (xs.take? count = none ↔ xs.length < count) ∧
    (xs.drop? count = none ↔ xs.length < count) ∧
    (xs.splitAt? count = none ↔ xs.length < count) ∧
    -- Parts
    (count ≤ xs.length → ∃ front rest, xs.take? count = some front ∧ xs.drop? count = some rest ∧
      xs.splitAt? count = some (do return (← front, rest)) ∧
      ∀ next, Parts xs count (front next).1 rest ∧
        Rejoins next xs count ((front >>= fun front => front.append rest) next).1) ∧
    -- Cuts of what is left
    (count ≤ xs.length → ∃ rest, xs.drop? count = some rest ∧ ∀ further,
      (rest.drop? further = none ↔ xs.length < count + further) ∧
        rest.drop? further = xs.drop? (count + further)) := by
  refine ⟨take?_eq_none_iff xs count, drop?_eq_none_iff xs count, splitAt?_eq_none_iff xs count,
    fun hle => ?_, fun hle => ?_⟩
  · refine ⟨prepend (xs.toList.take count) empty, xs.suffix count, take?_eq hle, if_pos hle, ?_,
      fun next => ⟨parts_suffix hxs.length_eq hle next, rejoins_append hxs.length_eq hle next⟩⟩
    rw [splitAt?, take?_eq hle]
    rfl
  · have hdrop : xs.drop? count = some (xs.suffix count) := if_pos hle
    refine ⟨xs.suffix count, hdrop, fun further => ⟨?_, drop?_drop? hdrop further⟩⟩
    rw [drop?_drop? hdrop, drop?_eq_none_iff]

/-- Three numbers are cut after the first; the greatest count of 64 bits is then refused, as its sum
with one is. -/
theorem cuts_fit_together_after_one :
    let xs : Chain Nat := ⟨[⟨7, 10⟩, ⟨4, 20⟩, ⟨1, 30⟩], 3⟩
    let rest : Chain Nat := ⟨[⟨4, 20⟩, ⟨1, 30⟩], 2⟩
    xs.WellFormed ∧ xs.drop? 1 = some rest ∧ xs.tailAfter? 1 = some rest ∧
      rest.drop? (2 ^ 64 - 1) = none ∧ rest.drop? 2 = some empty ∧ xs.drop? (1 + 2) = some empty ∧
      ∃ front split, xs.take? 1 = some front ∧ xs.splitAt? 1 = some split ∧
        (split 8).1.1 = (front 8).1 ∧ (split 8).1.2 = rest ∧
        Rejoins 8 xs 1 ((front >>= fun front => front.append rest) 8).1 := by
  intro xs rest
  have hxs : xs.WellFormed := ⟨rfl, by decide⟩
  obtain ⟨-, -, -, hparts, hleft⟩ := cuts_fit_together hxs 1
  obtain ⟨front, rest', htake, hdrop, hsplit, hjoined⟩ := hparts (by decide)
  obtain ⟨rest'', hdrop', hfurther⟩ := hleft (by decide)
  obtain rfl : rest = rest' := Option.some.inj hdrop
  obtain rfl : rest = rest'' := Option.some.inj hdrop'
  obtain ⟨hpart, hagain⟩ := hjoined 8
  refine ⟨hxs, rfl, hpart.rest_tail, (hfurther _).1.mpr (by decide), ?_, rfl, front, _, htake,
    hsplit, rfl, rfl, hagain⟩
  rw [(hfurther 2).2]
  rfl

end SharedList.Chain
