import SharedList.Proofs.Joining

/-!
# Joining two chains is a monoid, down to the cells

Joining copies the elements of the first chain, unless one of the two is empty.  Three chains can
be joined from either end: from the front some elements are copied twice, from the end none are.
Even so both results keep the same cells of the chains that were there before, at the same places.

* `Chain.Appends` — what joining two chains comes to.
* `Chain.LeadsTo` — after so many cells the one chain starts where the other does.
* `Chain.kept` — the one of two chains whose cells the joined chain keeps; it is associative.
* `Grows.leadsTo_congr` — chains that go on with the same cells after equally many new ones lead to
  the same chains of before.
* `append_monoid` — the elements, the length, the neutral element, and both ways to join three.
-/

set_option autoImplicit false

namespace SharedList.Chain

variable {α : Type}

/-- After `count` cells the chain starts at the very cell where `ys` does. -/
def LeadsTo (xs : Chain α) (count : Nat) (ys : Chain α) : Prop :=
  ∃ rest, xs.drop? count = some rest ∧ rest.same ys = true

/-- The chain `result` joins `xs` and `ys`, its new cells made from `next` on. -/
structure Appends (next : Label) (xs ys result : Chain α) : Prop where
  toList_eq : result.toList = xs.toList ++ ys.toList
  length_eq : result.length = xs.length + ys.length
  /-- An empty first chain gives the second itself. -/
  same_right : xs.isEmpty = true → result.same ys = true
  /-- An empty second chain gives the first itself. -/
  same_left : ys.isEmpty = true → result.same xs = true
  /-- Otherwise what comes after the elements of `xs` starts at the very cell where `ys` does. -/
  leads : xs.isEmpty = false → ys.isEmpty = false → result.LeadsTo xs.length ys
  /-- And no cell before that is a cell of a chain made before. -/
  isNew : xs.isEmpty = false → ys.isEmpty = false → ∀ old : Chain α, old.Before next →
    ∀ cell ∈ result.cells.take xs.length, ∀ other ∈ old.cells, cell.label ≠ other.label

/-! ## Growing chains and where they lead -/

namespace Grows

variable {next next' : Label} {tail result result' p : Chain α}

/-- Past the new cells there is what there is in `tail`. -/
theorem drop?_add (h : Grows next tail result) (count : Nat) :
    result.drop? (result.length - tail.length + count) = tail.drop? count := by
  obtain ⟨front, hcells, -, hlen⟩ := h
  have hcount : result.length - tail.length + count = front.length + count := by omega
  have hrest : result.length - (front.length + count) = tail.length - count := by omega
  rw [hcount, drop?, drop?, suffix, suffix, hrest, hcells, List.drop_length_add_append]
  by_cases hle : count ≤ tail.length
  · rw [if_pos hle, if_pos (by omega)]
  · rw [if_neg hle, if_neg (by omega)]

/-- The new cells are no chain's of before. -/
theorem not_leadsTo (h : Grows next tail result) (hp : p.isEmpty = false) (hbefore : p.Before next)
    {count : Nat} (hcount : count < result.length - tail.length) : ¬ result.LeadsTo count p := by
  obtain ⟨front, hcells, hnew, hlen⟩ := h
  have hfront : count < front.length := by omega
  rintro ⟨rest, hrest, hsame⟩
  rw [drop?, if_pos (by omega), suffix, hcells,
    List.drop_append_of_le_length (Nat.le_of_lt hfront), List.drop_eq_getElem_cons hfront] at hrest
  cases hrest
  unfold same at hsame
  cases hcellsp : p.cells with
  | nil => simp [isEmpty, hcellsp] at hp
  | cons cell cells =>
    rw [hcellsp] at hsame
    have hlabel : front[count].label = cell.label := eq_of_beq hsame
    have hge := hnew front[count] (List.getElem_mem hfront)
    exact hbefore.label_ne hge (hcellsp ▸ List.mem_cons_self) hlabel

/-- Of the chains of before, equally long chains that go on with the same cells lead to the same
ones at the same places. -/
theorem leadsTo_congr (h : Grows next tail result) (h' : Grows next' tail result')
    (hlength : result.length = result'.length) (hp : p.isEmpty = false) (hbefore : p.Before next)
    (hbefore' : p.Before next') (count : Nat) :
    result.LeadsTo count p ↔ result'.LeadsTo count p := by
  by_cases hcount : count < result.length - tail.length
  · exact iff_of_false (h.not_leadsTo hp hbefore hcount)
      (h'.not_leadsTo hp hbefore' (hlength ▸ hcount))
  · obtain ⟨further, rfl⟩ := Nat.exists_eq_add_of_le (Nat.le_of_not_lt hcount)
    rw [LeadsTo, LeadsTo, h.drop?_add, hlength, h'.drop?_add]

end Grows

/-! ## What joining keeps -/

/-- The one of two chains whose cells are kept when they are joined. -/
def kept (xs ys : Chain α) : Chain α := if ys.isEmpty then xs else ys

section Kept

variable {xs ys zs : Chain α}

theorem kept_of_isEmpty (h : ys.isEmpty = true) : kept xs ys = xs := by simp [kept, h]

theorem kept_of_filled (h : ys.isEmpty = false) : kept xs ys = ys := by simp [kept, h]

theorem kept_assoc (xs ys zs : Chain α) : kept (kept xs ys) zs = kept xs (kept ys zs) := by
  cases h : zs.isEmpty with
  | true => rw [kept_of_isEmpty h, kept_of_isEmpty h]
  | false => rw [kept_of_filled h, kept_of_filled h, kept_of_filled h]

/-- A chain without cells that counts them right is the empty chain. -/
theorem eq_empty (h : xs.isEmpty = true) (hcount : xs.length = xs.cells.length) : xs = empty := by
  rw [isEmpty, List.isEmpty_iff] at h
  obtain ⟨cells, length⟩ := xs
  obtain rfl : cells = [] := h
  obtain rfl : length = 0 := hcount
  rfl

theorem grows_append (hx : xs.length = xs.cells.length) (hy : ys.length = ys.cells.length)
    (next : Label) : Grows next (kept xs ys) (xs.append ys next).1 := by
  cases hye : ys.isEmpty with
  | true =>
    rw [kept_of_isEmpty hye]
    cases hxe : xs.isEmpty with
    | true =>
      rw [append_of_isEmpty_left ys hxe, eq_empty hxe hx, eq_empty hye hy]
      exact Grows.refl next empty
    | false =>
      rw [append_of_isEmpty_right hxe hye]
      exact Grows.refl next xs
  | false =>
    rw [kept_of_filled hye]
    cases hxe : xs.isEmpty with
    | true =>
      rw [append_of_isEmpty_left ys hxe]
      exact Grows.refl next ys
    | false =>
      rw [append_eq hxe hye]
      exact grows_prepend xs.toList ys next

/-- The joined chain is empty just when what it keeps is. -/
theorem isEmpty_append (xs ys : Chain α) (next : Label) :
    (xs.append ys next).1.isEmpty = (kept xs ys).isEmpty := by
  rw [Bool.eq_iff_iff, isEmpty_iff, isEmpty_iff, toList_append, List.append_eq_nil_iff]
  cases h : ys.isEmpty with
  | true => simp [kept_of_isEmpty h, isEmpty_iff.mp h]
  | false =>
    have hne : ys.toList ≠ [] := fun hnil => by simp [isEmpty_iff.mpr hnil] at h
    simp [kept_of_filled h, hne]

/-- Joining counts the cells of both chains. -/
theorem length_append_eq (hx : xs.length = xs.cells.length) (hy : ys.length = ys.cells.length)
    (next : Label) : (xs.append ys next).1.length = xs.length + ys.length := by
  rw [length_append hx hy, ← length_toList, toList_append, List.length_append, length_toList,
    length_toList, hx, hy]

theorem appends_append (hx : xs.WellFormed) (hy : ys.WellFormed) (next : Label) :
    Appends next xs ys (xs.append ys next).1 := by
  have hlen := length_append_eq hx.length_eq hy.length_eq next
  have hgrows := grows_append hx.length_eq hy.length_eq next
  have hfront : (xs.append ys next).1.length - ys.length = xs.length := by omega
  refine ⟨toList_append xs ys next, hlen, fun hxe => ?_, fun hye => ?_, fun hxe hye => ?_,
    fun hxe hye old hold => ?_⟩
  · rw [append_of_isEmpty_left ys hxe]
    exact same_refl ys
  · cases hxe : xs.isEmpty with
    | true =>
      rw [append_of_isEmpty_left ys hxe, eq_empty hxe hx.length_eq, eq_empty hye hy.length_eq]
      rfl
    | false =>
      rw [append_of_isEmpty_right hxe hye]
      exact same_refl xs
  · rw [kept_of_filled hye] at hgrows
    exact ⟨ys, hfront ▸ hgrows.drop?_eq, same_refl ys⟩
  · rw [kept_of_filled hye] at hgrows
    exact hfront ▸ hgrows.isNew hold

/-! ## Joining three chains -/

/-- Joined from the front, three chains keep the cells of the last that is not empty. -/
theorem grows_append_left (hx : xs.length = xs.cells.length) (hy : ys.length = ys.cells.length)
    (hz : zs.length = zs.cells.length) (next : Label) :
    Grows next (kept (kept xs ys) zs) ((xs.append ys >>= fun u => u.append zs) next).1 := by
  have hmid := grows_append hx hy next
  have hle := le_append xs ys next
  have hall := grows_append (length_append hx hy next) hz (xs.append ys next).2
  rw [Fresh.bind_apply]
  cases hze : zs.isEmpty with
  | true =>
    rw [kept_of_isEmpty hze] at hall ⊢
    exact Grows.trans hle hmid hall
  | false =>
    rw [kept_of_filled hze] at hall ⊢
    exact hall.mono hle

/-- Joined from the end, they do so, too. -/
theorem grows_append_right (hx : xs.length = xs.cells.length) (hy : ys.length = ys.cells.length)
    (hz : zs.length = zs.cells.length) (next : Label) :
    Grows next (kept xs (kept ys zs)) ((ys.append zs >>= fun u => xs.append u) next).1 := by
  have hmid := grows_append hy hz next
  have hle := le_append ys zs next
  have hall := grows_append hx (length_append hy hz next) (ys.append zs next).2
  rw [Fresh.bind_apply]
  cases hke : (kept ys zs).isEmpty with
  | true =>
    rw [kept_of_isEmpty ((isEmpty_append ys zs next).trans hke)] at hall
    rw [kept_of_isEmpty hke]
    exact hall.mono hle
  | false =>
    rw [kept_of_filled ((isEmpty_append ys zs next).trans hke)] at hall
    rw [kept_of_filled hke]
    exact Grows.trans hle hmid hall

end Kept

/-- **Joining is a monoid, down to the cells.**  It holds the elements of both chains and counts
them, gives back the other chain itself where one is empty, and otherwise keeps the cells of the
second after new ones.  Both ways to join three chains come to the same elements, and lead to the
same chains of before at the same places, whatever labels either way draws. -/
theorem append_monoid {xs ys zs : Chain α} (hx : xs.WellFormed) (hy : ys.WellFormed)
    (hz : zs.WellFormed) (next next' : Label) :
    Appends next xs ys (xs.append ys next).1 ∧
    (let left := ((xs.append ys >>= fun u => u.append zs) next).1
      let right := ((ys.append zs >>= fun u => xs.append u) next').1
      left.toList = right.toList ∧ left.length = right.length ∧
      ∀ p : Chain α, p.isEmpty = false → p.Before next → p.Before next' →
        ∀ count, left.LeadsTo count p ↔ right.LeadsTo count p) := by
  have hleft := grows_append_left hx.length_eq hy.length_eq hz.length_eq next
  have hright := grows_append_right hx.length_eq hy.length_eq hz.length_eq next'
  have helems : ((xs.append ys >>= fun u => u.append zs) next).1.toList =
      ((ys.append zs >>= fun u => xs.append u) next').1.toList := by
    simp [Fresh.bind_apply]
  have hlength : ((xs.append ys >>= fun u => u.append zs) next).1.length =
      ((ys.append zs >>= fun u => xs.append u) next').1.length := by
    rw [Fresh.bind_apply, Fresh.bind_apply,
      length_append_eq (length_append hx.length_eq hy.length_eq next) hz.length_eq,
      length_append_eq hx.length_eq (length_append hy.length_eq hz.length_eq next'),
      length_append_eq hx.length_eq hy.length_eq, length_append_eq hy.length_eq hz.length_eq,
      Nat.add_assoc]
  rw [kept_assoc] at hleft
  exact ⟨appends_append hx hy next, helems, hlength, fun p hp hbefore hbefore' count =>
    hleft.leadsTo_congr hright hlength hp hbefore hbefore' count⟩

/-- Two chains that share a cell and a third of its own: both ways to join them lead to the third
after four cells. -/
theorem append_monoid_of_shared :
    let xs : Chain Nat := ⟨[⟨1, 10⟩, ⟨0, 20⟩], 2⟩
    let ys : Chain Nat := ⟨[⟨2, 30⟩, ⟨0, 20⟩], 2⟩
    let zs : Chain Nat := ⟨[⟨3, 40⟩], 1⟩
    xs.WellFormed ∧ ys.WellFormed ∧ zs.WellFormed ∧
      Appends 4 xs ys (xs.append ys 4).1 ∧
      (((xs.append ys >>= fun u => u.append zs) 4).1.LeadsTo 4 zs ↔
        ((ys.append zs >>= fun u => xs.append u) 10).1.LeadsTo 4 zs) ∧
      ((xs.append ys >>= fun u => u.append zs) 4).1.LeadsTo 4 zs := by
  intro xs ys zs
  have hx : xs.WellFormed := ⟨rfl, by decide⟩
  have hy : ys.WellFormed := ⟨rfl, by decide⟩
  have hz : zs.WellFormed := ⟨rfl, by decide⟩
  have hbefore : zs.Before 4 := List.forall_mem_singleton.mpr (by decide)
  have hbefore' : zs.Before 10 := List.forall_mem_singleton.mpr (by decide)
  obtain ⟨hjoined, -, -, hleads⟩ := append_monoid hx hy hz 4 10
  exact ⟨hx, hy, hz, hjoined, hleads zs rfl hbefore hbefore' 4, ⟨zs, rfl, rfl⟩⟩

end SharedList.Chain
