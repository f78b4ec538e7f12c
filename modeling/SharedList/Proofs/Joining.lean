import Mathlib.Algebra.GroupWithZero.Nat
import SharedList.Proofs.Growth

/-!
# Two ways to join many chains

`appendAll` joins chains two by two from the back, and an empty side costs nothing; `flatten`
passes over a chain of chains once and holds back the latest that is not empty.  They come to the
same, element by element and cell by cell.

* `Chain.lastFilled` — the last chain that is not empty, whose cells the result keeps.
* `Chain.Joins` — what joining comes to: the elements of all chains in order, the sum of their
  lengths, the very cells of the last filled chain at the end and new cells before them.
* `appendAll_cons` — one more chain in front; `foldl_pass` — the pass from any point on.
* `joins_appendAll_and_flatten` — both ways join, wherever the empty chains stand and however
  often one chain occurs.
-/

set_option autoImplicit false

namespace SharedList.Chain

variable {α : Type}

/-! ## What joining comes to -/

/-- The chains that are not empty, in their order. -/
def filled (chains : List (Chain α)) : List (Chain α) := chains.filter fun xs => !xs.isEmpty

/-- The last chain that is not empty. -/
def lastFilled (chains : List (Chain α)) : Option (Chain α) := (filled chains).getLast?

/-- The chain `result` joins `chains`, its new cells made from `next` on. -/
structure Joins (next : Label) (chains : List (Chain α)) (result : Chain α) : Prop where
  /-- It holds the elements of all chains, in order. -/
  toList_eq : result.toList = chains.flatMap toList
  /-- Its length is the sum of the lengths. -/
  length_eq : result.length = (chains.map length).sum
  /-- Its end, as long as the last filled chain, starts at the very cell where that chain starts. -/
  shares : ∀ last, lastFilled chains = some last →
    ∃ rest, result.drop? ((chains.map length).sum - last.length) = some rest ∧
      rest.same last = true
  /-- No cell before that end is a cell of a chain made before. -/
  isNew : ∀ last, lastFilled chains = some last → ∀ old : Chain α, old.Before next →
    ∀ cell ∈ result.cells.take ((chains.map length).sum - last.length), ∀ other ∈ old.cells,
      cell.label ≠ other.label
  /-- Where only one chain is filled, the result starts at the very cell where that one does. -/
  alone : ∀ only, filled chains = [only] → result.same only = true
  /-- Where none is filled, the result is empty. -/
  isEmpty : filled chains = [] → result.isEmpty = true ∧ result.length = 0

theorem filled_cons_of_isEmpty {xs : Chain α} (chains : List (Chain α)) (h : xs.isEmpty = true) :
    filled (xs :: chains) = filled chains := by
  simp [filled, h]

theorem filled_cons {xs : Chain α} (chains : List (Chain α)) (h : xs.isEmpty = false) :
    filled (xs :: chains) = xs :: filled chains := by
  simp [filled, h]

theorem lastFilled_cons_of_isEmpty {xs : Chain α} (chains : List (Chain α))
    (h : xs.isEmpty = true) : lastFilled (xs :: chains) = lastFilled chains := by
  rw [lastFilled, filled_cons_of_isEmpty chains h]
  rfl

theorem lastFilled_cons {xs : Chain α} (chains : List (Chain α)) (h : xs.isEmpty = false) :
    lastFilled (xs :: chains) = some ((lastFilled chains).getD xs) := by
  rw [lastFilled, filled_cons chains h, List.getLast?_cons]
  rfl

theorem isEmpty_of_lastFilled {chains : List (Chain α)} {last : Chain α}
    (h : lastFilled chains = some last) : last.isEmpty = false := by
  have hmem := List.mem_of_getLast? h
  simpa using (List.mem_filter.mp hmem).2

theorem flatMap_toList_filled (chains : List (Chain α)) :
    (filled chains).flatMap toList = chains.flatMap toList := by
  induction chains with
  | nil => rfl
  | cons xs chains ih =>
    cases h : xs.isEmpty with
    | true => rw [filled_cons_of_isEmpty chains h, List.flatMap_cons, isEmpty_iff.mp h, ih]; rfl
    | false => rw [filled_cons chains h, List.flatMap_cons, List.flatMap_cons, ih]

theorem length_flatMap_toList {chains : List (Chain α)} (wf : ∀ xs ∈ chains, xs.WellFormed) :
    (chains.flatMap toList).length = (chains.map length).sum := by
  rw [List.length_flatMap]
  congr 1
  refine List.map_congr_left fun xs hxs => ?_
  exact (wf xs hxs).toList_length

/-- Enough to join: the right elements, counted right, and growth from the last filled chain. -/
theorem Joins.of_grows {next : Label} {chains : List (Chain α)} {result : Chain α}
    (wf : ∀ xs ∈ chains, xs.WellFormed) (helems : result.toList = chains.flatMap toList)
    (hcount : result.length = result.cells.length)
    (hgrows : ∀ last, lastFilled chains = some last → Grows next last result) :
    Joins next chains result := by
  have hlen : result.length = (chains.map length).sum := by
    rw [hcount, ← length_toList, helems, length_flatMap_toList wf]
  refine ⟨helems, hlen, ?_, ?_, ?_, ?_⟩
  · intro last hlast
    rw [← hlen]
    exact ⟨last, (hgrows last hlast).drop?_eq, same_refl last⟩
  · intro last hlast old hold
    rw [← hlen]
    exact (hgrows last hlast).isNew hold
  · intro only honly
    obtain ⟨front, hcells, -, hlength⟩ := hgrows only (by rw [lastFilled, honly]; rfl)
    -- The elements of the only filled chain leave none for the new cells.
    have hnone : front = [] := by
      rw [← flatMap_toList_filled, honly, List.flatMap_singleton] at helems
      have := congrArg List.length helems
      rw [length_toList, length_toList, hcells, List.length_append] at this
      exact List.eq_nil_of_length_eq_zero (by omega)
    have hsame : result.cells = only.cells := by rw [hcells, hnone]; rfl
    have := same_refl only
    simpa only [same, hsame] using this
  · intro hnone
    have hnil : result.toList = [] := by rw [helems, ← flatMap_toList_filled, hnone]; rfl
    refine ⟨isEmpty_iff.mpr hnil, ?_⟩
    rw [hcount, ← length_toList, hnil]
    rfl

/-! ## Joining two by two -/

/-- A chain in front of others is joined last. -/
theorem appendAll_cons {xs : Chain α} {chains : List (Chain α)} (h : chains ≠ []) :
    appendAll (xs :: chains) = appendAll chains >>= xs.append := by
  unfold appendAll
  rw [List.reverse_cons]
  cases hr : chains.reverse with
  | nil => exact absurd (List.reverse_eq_nil_iff.mp hr) h
  | cons last before => simp [List.foldlM_append]

theorem toList_appendAll (chains : List (Chain α)) (next : Label) :
    (appendAll chains next).1.toList = chains.flatMap toList := by
  induction chains with
  | nil => rfl
  | cons xs chains ih =>
    cases chains with
    | nil =>
      show xs.toList = [xs].flatMap toList
      rw [List.flatMap_singleton]
    | cons ys chains =>
      rw [appendAll_cons (List.cons_ne_nil ys chains), Fresh.bind_apply, toList_append, ih]
      rfl

theorem le_append (xs ys : Chain α) (next : Label) : next ≤ (xs.append ys next).2 := by
  cases hx : xs.isEmpty with
  | true => rw [append_of_isEmpty_left ys hx]; exact Nat.le_refl next
  | false =>
    cases hy : ys.isEmpty with
    | true => rw [append_of_isEmpty_right hx hy]; exact Nat.le_refl next
    | false => rw [append_eq hx hy]; exact le_prepend xs.toList ys next

theorem le_appendAll (chains : List (Chain α)) (next : Label) :
    next ≤ (appendAll chains next).2 := by
  induction chains with
  | nil => exact Nat.le_refl next
  | cons xs chains ih =>
    cases chains with
    | nil => exact Nat.le_refl next
    | cons ys chains =>
      rw [appendAll_cons (List.cons_ne_nil ys chains), Fresh.bind_apply]
      exact Nat.le_trans ih (le_append xs _ _)

/-- The result of joining two chains counts its cells if both chains do. -/
theorem length_append {xs ys : Chain α} (hx : xs.length = xs.cells.length)
    (hy : ys.length = ys.cells.length) (next : Label) :
    (xs.append ys next).1.length = (xs.append ys next).1.cells.length := by
  cases hxe : xs.isEmpty with
  | true => rw [append_of_isEmpty_left ys hxe]; exact hy
  | false =>
    cases hye : ys.isEmpty with
    | true => rw [append_of_isEmpty_right hxe hye]; exact hx
    | false =>
      rw [append_eq hxe hye]
      exact (grows_prepend xs.toList ys next).length_eq hy

theorem length_appendAll {chains : List (Chain α)} (wf : ∀ xs ∈ chains, xs.WellFormed)
    (next : Label) :
    (appendAll chains next).1.length = (appendAll chains next).1.cells.length := by
  induction chains with
  | nil => rfl
  | cons xs chains ih =>
    have hx := (wf xs List.mem_cons_self).length_eq
    cases chains with
    | nil => exact hx
    | cons ys chains =>
      rw [appendAll_cons (List.cons_ne_nil ys chains), Fresh.bind_apply]
      exact length_append hx (ih fun zs hzs => wf zs (List.mem_cons_of_mem xs hzs)) _

theorem grows_appendAll {chains : List (Chain α)} (next : Label) {last : Chain α}
    (h : lastFilled chains = some last) : Grows next last (appendAll chains next).1 := by
  induction chains generalizing last with
  | nil => cases h
  | cons xs chains ih =>
    cases chains with
    | nil =>
      cases hx : xs.isEmpty with
      | true => rw [lastFilled_cons_of_isEmpty [] hx] at h; cases h
      | false =>
        rw [lastFilled_cons [] hx] at h
        obtain rfl : xs = last := Option.some.inj h
        exact Grows.refl next xs
    | cons ys chains =>
      rw [appendAll_cons (List.cons_ne_nil ys chains), Fresh.bind_apply]
      have hle := le_appendAll (ys :: chains) next
      have helems := toList_appendAll (ys :: chains) next
      generalize appendAll (ys :: chains) next = joined at ih hle helems ⊢
      cases hx : xs.isEmpty with
      | true =>
        rw [append_of_isEmpty_left joined.1 hx]
        rw [lastFilled_cons_of_isEmpty _ hx] at h
        exact ih h
      | false =>
        rw [lastFilled_cons _ hx] at h
        cases hrest : lastFilled (ys :: chains) with
        | none =>
          -- Nothing is filled after `xs`, which is therefore kept as it is.
          rw [hrest] at h
          obtain rfl : xs = last := Option.some.inj h
          have hy : joined.1.isEmpty = true := by
            rw [isEmpty_iff, helems, ← flatMap_toList_filled, List.getLast?_eq_none_iff.mp hrest]
            rfl
          rw [append_of_isEmpty_right hx hy]
          exact Grows.refl next xs
        | some kept =>
          rw [hrest] at h
          obtain rfl : kept = last := Option.some.inj h
          have hgrows := ih hrest
          have hy := hgrows.isEmpty_eq_false (isEmpty_of_lastFilled hrest)
          rw [append_eq hx hy]
          exact Grows.trans hle hgrows (grows_prepend xs.toList joined.1 joined.2)

/-! ## Joining in one pass -/

theorem pass_of_isEmpty (j : Joining α) {xs : Chain α} (h : xs.isEmpty = true) : j.pass xs = j := by
  simp [Joining.pass, h]

/-- A filled chain becomes the latest, and the one held back so far is copied. -/
theorem pass_of_filled (j : Joining α) {xs : Chain α} (h : xs.isEmpty = false) :
    (j.pass xs).latest = some xs ∧
      (j.pass xs).copied.toList = j.copied.toList ++ (j.latest.map toList).getD [] := by
  unfold Joining.pass
  rw [if_neg (by simp [h])]
  split <;> simp_all

/-- From any point on, the pass holds back the last filled chain and copies the elements of those
before it. -/
theorem foldl_pass (chains : List (Chain α)) (j : Joining α) :
    (chains.foldl Joining.pass j).latest = (lastFilled chains).or j.latest ∧
      (chains.foldl Joining.pass j).copied.toList ++
          ((chains.foldl Joining.pass j).latest.map toList).getD [] =
        j.copied.toList ++ (j.latest.map toList).getD [] ++ chains.flatMap toList := by
  induction chains generalizing j with
  | nil => simp [lastFilled, filled]
  | cons xs chains ih =>
    rw [List.foldl_cons]
    cases hx : xs.isEmpty with
    | true =>
      rw [pass_of_isEmpty j hx, lastFilled_cons_of_isEmpty chains hx, List.flatMap_cons,
        isEmpty_iff.mp hx]
      exact ih j
    | false =>
      obtain ⟨hlatest, helems⟩ := ih (j.pass xs)
      obtain ⟨hnow, hcopied⟩ := pass_of_filled j hx
      rw [helems, hlatest, hnow, hcopied, lastFilled_cons chains hx]
      refine ⟨?_, by simp⟩
      cases lastFilled chains <;> rfl

/-- With a filled chain, `flatten` puts copies in front of the last of them. -/
theorem flatten_of_lastFilled {chains : Chain (Chain α)} {last : Chain α}
    (h : lastFilled chains.toList = some last) :
    ∃ copied : List α, copied ++ last.toList = chains.toList.flatMap toList ∧
      flatten chains = prepend copied last := by
  obtain ⟨hlatest, helems⟩ := foldl_pass chains.toList ⟨.empty, none⟩
  rw [h, Option.some_or] at hlatest
  rw [hlatest] at helems
  refine ⟨_, by simpa using helems, ?_⟩
  simp only [flatten, hlatest]
  exact freezeOnto_eq _ last

/-- Without one, it makes nothing. -/
theorem flatten_of_none {chains : Chain (Chain α)} (h : lastFilled chains.toList = none) :
    flatten chains = pure empty := by
  have hlatest := (foldl_pass chains.toList ⟨.empty, none⟩).1
  rw [h, Option.none_or] at hlatest
  simp only [flatten, hlatest]

theorem joins_flatten {chains : Chain (Chain α)} (wf : ∀ xs ∈ chains.toList, xs.WellFormed)
    (next : Label) : Joins next chains.toList (flatten chains next).1 := by
  cases h : lastFilled chains.toList with
  | none =>
    have hnone := List.getLast?_eq_none_iff.mp h
    rw [flatten_of_none h]
    refine Joins.of_grows wf ?_ rfl fun last hlast => ?_
    · rw [← flatMap_toList_filled, hnone]
      rfl
    · rw [h] at hlast
      cases hlast
  | some last =>
    obtain ⟨copied, helems, happly⟩ := flatten_of_lastFilled h
    have hmem := (List.mem_filter.mp (List.mem_of_getLast? h)).1
    have hgrows := grows_prepend copied last next
    rw [happly]
    refine Joins.of_grows wf ?_ (hgrows.length_eq (wf last hmem).length_eq) fun last' hlast => ?_
    · rw [toList_prepend, helems]
    · rw [h] at hlast
      obtain rfl : last = last' := Option.some.inj hlast
      exact hgrows

theorem joins_appendAll {chains : List (Chain α)} (wf : ∀ xs ∈ chains, xs.WellFormed)
    (next : Label) : Joins next chains (appendAll chains next).1 :=
  Joins.of_grows wf (toList_appendAll chains next) (length_appendAll wf next) fun _ h =>
    grows_appendAll next h

/-- A chain made later joins the same chains. -/
theorem Joins.mono {next next' : Label} (hle : next ≤ next') {chains : List (Chain α)}
    {result : Chain α} (h : Joins next' chains result) : Joins next chains result where
  toList_eq := h.toList_eq
  length_eq := h.length_eq
  shares := h.shares
  isNew last hlast old hold := h.isNew last hlast old (hold.mono hle)
  alone := h.alone
  isEmpty := h.isEmpty

/-- **Both ways of joining come to the same**, in elements, lengths and shared cells, wherever the
empty chains stand and however often one chain occurs. -/
theorem joins_appendAll_and_flatten (chains : List (Chain α)) (next : Label)
    (wf : ∀ xs ∈ chains, xs.WellFormed) :
    Joins next chains (appendAll chains next).1 ∧
      Joins next chains ((ofList chains >>= flatten) next).1 := by
  refine ⟨joins_appendAll wf next, ?_⟩
  rw [Fresh.bind_apply]
  have helems := toList_ofList chains next
  have hle : next ≤ (ofList chains next).2 := by
    rw [ofList_eq]
    exact le_prepend chains empty next
  have hjoins := joins_flatten (by rw [helems]; exact wf) (ofList chains next).2
  rw [helems] at hjoins
  exact hjoins.mono hle

/-- Three chains that share cells, an empty one among them and one at the end. -/
theorem joins_shared_and_empty :
    let base : Chain Nat := ⟨[⟨1, 20⟩, ⟨0, 30⟩], 2⟩
    let longer : Chain Nat := ⟨[⟨2, 10⟩, ⟨1, 20⟩, ⟨0, 30⟩], 3⟩
    let chains := [longer, empty, base, base, empty]
    (∀ xs ∈ chains, xs.WellFormed) ∧ Joins 3 chains (appendAll chains 3).1 ∧
      Joins 3 chains ((ofList chains >>= flatten) 3).1 := by
  intro base longer chains
  have wf : ∀ xs ∈ chains, xs.WellFormed := by
    intro xs hxs
    simp only [chains, List.mem_cons, List.not_mem_nil, or_false] at hxs
    rcases hxs with rfl | rfl | rfl | rfl | rfl <;> exact ⟨rfl, by decide⟩
  exact ⟨wf, joins_appendAll_and_flatten chains 3 wf⟩

end SharedList.Chain
