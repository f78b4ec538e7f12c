import SharedList.Proofs.Associating
import SharedList.Proofs.Traversing

/-!
# Removing a key again and again

Each removal takes the first matching pair away, so the next one comes to light.  As many removals
as there are matching pairs come to the chain that keeps exactly the pairs that do not match, and
whatever is removed after that leaves the very chain.

* `WithoutFirst` — a row without so many of its first matches: `WithoutFirst.eraseP` is one removal,
  and `WithoutFirst.find?_eq`, `any_eq`, `eq_filter` read off what is left.
* `Chain.eraseKeyEach` — one removal after the other; `withoutFirst_eraseKey` is the step and
  `withoutFirst_eraseKeyEach` the run.
* `Chain.filterM_pure` — keeping by a closure without effects.
* `Chain.erasures_take_matches_in_order` — the law.
-/

set_option autoImplicit false

namespace SharedList

variable {α κ ν θ : Type}

/-! ## Rows without their first matches -/

/-- The row `ys` is `xs` without the first `j` elements of which `p` holds.  All others are there,
in their order. -/
def WithoutFirst (p : α → Bool) (j : Nat) (xs ys : List α) : Prop :=
  ∃ front back, xs = front ++ back ∧ front.countP p = j ∧ ys = front.filter (!p ·) ++ back

namespace WithoutFirst

variable {p : α → Bool} {j : Nat} {xs ys : List α}

theorem zero (p : α → Bool) (xs : List α) : WithoutFirst p 0 xs xs := ⟨[], xs, rfl, rfl, rfl⟩

/-- The first match that is left is the next one of all. -/
theorem find?_eq (h : WithoutFirst p j xs ys) : ys.find? p = (xs.filter p)[j]? := by
  obtain ⟨front, back, rfl, rfl, rfl⟩ := h
  have hfront : (front.filter (!p ·)).find? p = none := by simp
  have hcount : front.countP p = (front.filter p).length := List.countP_eq_length_filter
  rw [List.find?_append, hfront, Option.none_or, List.filter_append, hcount,
    List.getElem?_append_right (Nat.le_refl _), Nat.sub_self, ← List.head?_eq_getElem?,
    List.head?_filter]

theorem any_eq (h : WithoutFirst p j xs ys) : ys.any p = decide (j < xs.countP p) := by
  rw [← List.isSome_find?, h.find?_eq, List.countP_eq_length_filter]
  rcases Nat.lt_or_ge j (xs.filter p).length with hlt | hge
  · rw [List.getElem?_eq_getElem hlt]
    simp [hlt]
  · rw [List.getElem?_eq_none hge]
    simp [hge]

/-- Taking the first match away is taking one more. -/
theorem eraseP (h : WithoutFirst p j xs ys) (hj : j < xs.countP p) :
    WithoutFirst p (j + 1) xs (ys.eraseP p) := by
  have hany : ys.any p = true := by rw [h.any_eq]; simpa using hj
  obtain ⟨front, back, rfl, rfl, rfl⟩ := h
  have hfront : ∀ y ∈ front.filter (!p ·), p y = false := by
    intro y hy
    simpa using (List.mem_filter.mp hy).2
  rcases no_match_or_first p back with hnone | ⟨passed, x, rest, rfl, hpassed, hx⟩
  · rw [List.any_append, hnone, Bool.or_false, List.any_eq_true] at hany
    obtain ⟨y, hy, hpy⟩ := hany
    rw [hfront y hy] at hpy
    cases hpy
  · have hnone : passed.countP p = 0 := by
      rw [List.countP_eq_zero]
      intro y hy
      simp [hpassed y hy]
    have hall : passed.filter (!p ·) = passed := by
      rw [List.filter_eq_self]
      intro y hy
      simp [hpassed y hy]
    refine ⟨front ++ passed ++ [x], rest, by simp, by simp [hnone, hx], ?_⟩
    rw [← List.append_assoc, eraseP_split ?_ hx]
    · simp [hall, hx]
    · intro y hy
      rcases List.mem_append.mp hy with hy | hy
      · exact hfront y hy
      · exact hpassed y hy

/-- Without all its matches a row is what does not match. -/
theorem eq_filter (h : WithoutFirst p (xs.countP p) xs ys) : ys = xs.filter (!p ·) := by
  obtain ⟨front, back, rfl, hcount, rfl⟩ := h
  have hback : back.countP p = 0 := by
    rw [List.countP_append] at hcount
    omega
  have hall : back.filter (!p ·) = back := by
    rw [List.filter_eq_self]
    intro y hy
    simpa using List.countP_eq_zero.mp hback y hy
  rw [List.filter_append, hall]

end WithoutFirst

namespace Chain

/-! ## One removal after the other -/

/-- The chain after one removal for each of the labels, from which the removal draws. -/
def eraseKeyEach (t : Chain (κ × ν)) (key : θ) (eq : κ → θ → Bool) (supplies : List Label) :
    Chain (κ × ν) :=
  supplies.foldl (fun left next => (left.eraseKey key eq next).1) t

section Runs

variable {key : θ} {eq : κ → θ → Bool} {t left : Chain (κ × ν)} {j : Nat}

/-- A removal takes the next match away, as long as there is one. -/
theorem withoutFirst_eraseKey
    (h : WithoutFirst (matching eq key) (min j (t.toList.countP (matching eq key))) t.toList
      left.toList) (next : Label) :
    WithoutFirst (matching eq key) (min (j + 1) (t.toList.countP (matching eq key))) t.toList
      (left.eraseKey key eq next).1.toList := by
  rw [toList_eraseKey]
  rcases Nat.lt_or_ge j (t.toList.countP (matching eq key)) with hlt | hge
  · rw [Nat.min_eq_left (Nat.le_of_lt hlt)] at h
    rw [Nat.min_eq_left hlt]
    exact h.eraseP hlt
  · have hnone : left.toList.any (matching eq key) = false := by
      rw [h.any_eq]
      simp [hge]
    rw [List.eraseP_of_forall_not (by simpa using hnone), Nat.min_eq_right (by omega)]
    rwa [Nat.min_eq_right hge] at h

theorem withoutFirst_eraseKeyEach
    (h : WithoutFirst (matching eq key) (min j (t.toList.countP (matching eq key))) t.toList
      left.toList) (supplies : List Label) :
    WithoutFirst (matching eq key) (min (j + supplies.length) (t.toList.countP (matching eq key)))
      t.toList (left.eraseKeyEach key eq supplies).toList := by
  induction supplies generalizing j left with
  | nil => exact h
  | cons next supplies ih =>
    have hstep := ih (withoutFirst_eraseKey h next)
    rwa [Nat.add_right_comm, Nat.add_assoc] at hstep

theorem hasKey_of_withoutFirst (h : WithoutFirst (matching eq key) j t.toList left.toList) :
    left.hasKey key eq = decide (j < t.toList.countP (matching eq key)) := by
  rw [hasKey_eq, h.any_eq]

theorem lookup_of_withoutFirst (h : WithoutFirst (matching eq key) j t.toList left.toList) :
    left.lookup key eq = (t.toList.filter (matching eq key))[j]?.map (·.2) := by
  rw [lookup_eq, h.find?_eq]

/-- Once all matching pairs are gone, what is left is what keeping the others makes. -/
theorem filterM_of_withoutFirst
    (h : WithoutFirst (matching eq key) (t.toList.countP (matching eq key)) t.toList left.toList) :
    Id.run (t.filterM fun pair => pure (!eq pair.1 key)) = ofList left.toList := by
  rw [filterM_pure, h.eq_filter]
  rfl

/-- What a removal leaves counts its cells right. -/
theorem length_eraseKey (h : t.length = t.cells.length) (next : Label) :
    (t.eraseKey key eq next).1.length = (t.eraseKey key eq next).1.cells.length := by
  rcases miss_or_match t key eq with hmiss | ⟨front, cell, rest, hcells, hfront, hcell⟩
  · rw [eraseKey_of_miss hmiss]
    exact h
  · rw [eraseKey_of_match hcells hfront hcell]
    refine (grows_prepend _ _ next).length_eq ?_
    rw [h, hcells]
    simp

theorem length_eraseKeyEach (h : t.length = t.cells.length) (supplies : List Label) :
    (t.eraseKeyEach key eq supplies).length = (t.eraseKeyEach key eq supplies).cells.length := by
  induction supplies generalizing t with
  | nil => exact h
  | cons next supplies ih => exact ih (length_eraseKey h next)

end Runs

/-- **Removals take the matching pairs away one by one, from the front.**  After so many of them
exactly the first so many matching pairs are gone; as long as one is left, the key is there, and it
is the next matching pair that a lookup finds.  Once all are gone, the chain is the one that keeps
the pairs that do not match, the key is not there, and a further removal gives back the very chain.
Whatever labels the removals draw, and whatever else happens between them, it is the same. -/
theorem erasures_take_matches_in_order {t : Chain (κ × ν)} (ht : t.WellFormed) (key : θ)
    (eq : κ → θ → Bool) (supplies : List Label) :
    let count := t.toList.countP (matching eq key)
    let left := t.eraseKeyEach key eq supplies
    (supplies.length ≤ count →
      WithoutFirst (matching eq key) supplies.length t.toList left.toList) ∧
    (supplies.length < count → left.hasKey key eq = true ∧
      ∃ pair, (t.toList.filter (matching eq key))[supplies.length]? = some pair ∧
        left.lookup key eq = some pair.2) ∧
    (count ≤ supplies.length →
      (∀ next, let kept := (Id.run (t.filterM fun pair => pure (!eq pair.1 key)) next).1
        left.toList = kept.toList ∧ left.length = kept.length) ∧
      left.hasKey key eq = false ∧
      ∀ next, (left.eraseKey key eq next).1 = left ∧
        (left.eraseKey key eq next).1.same left = true) := by
  intro count left
  have hzero : WithoutFirst (matching eq key) (min 0 count) t.toList t.toList := by
    rw [Nat.zero_min]
    exact .zero _ _
  have hrun := withoutFirst_eraseKeyEach hzero supplies
  rw [Nat.zero_add] at hrun
  refine ⟨fun hle => ?_, fun hlt => ?_, fun hge => ?_⟩
  · rwa [Nat.min_eq_left hle] at hrun
  · rw [Nat.min_eq_left (Nat.le_of_lt hlt)] at hrun
    have hlength : supplies.length < (t.toList.filter (matching eq key)).length := by
      rwa [← List.countP_eq_length_filter]
    have hpair := List.getElem?_eq_getElem hlength
    refine ⟨?_, _, hpair, ?_⟩
    · rw [hasKey_of_withoutFirst hrun]
      exact decide_eq_true hlt
    · rw [lookup_of_withoutFirst hrun, hpair]
      rfl
  · rw [Nat.min_eq_right hge] at hrun
    have hmiss : left.hasKey key eq = false := by
      rw [hasKey_of_withoutFirst hrun]
      exact decide_eq_false (Nat.lt_irrefl _)
    have hlength : left.length = left.cells.length := length_eraseKeyEach ht.length_eq supplies
    refine ⟨fun next => ?_, hmiss, fun next => ?_⟩
    · rw [filterM_of_withoutFirst hrun]
      refine ⟨(toList_ofList left.toList next).symm, ?_⟩
      rw [hlength, length_ofList, length_toList]
    · rw [eraseKey_of_miss hmiss]
      exact ⟨rfl, same_refl left⟩

/-- Two pairs have the same key.  After one removal the second of them is found, after two the key
is gone. -/
theorem erasures_of_a_doubled_key :
    let t : Chain (Nat × Nat) := ⟨[⟨3, (1, 10)⟩, ⟨2, (2, 20)⟩, ⟨1, (1, 30)⟩, ⟨0, (3, 40)⟩], 4⟩
    let once := t.eraseKeyEach 1 (· == ·) [4]
    let twice := t.eraseKeyEach 1 (· == ·) [4, 5]
    t.WellFormed ∧ once.lookup 1 (· == ·) = some 30 ∧
      WithoutFirst (matching (· == ·) 1) 1 t.toList once.toList ∧
      twice.hasKey 1 (· == ·) = false ∧
      twice.toList = [(2, 20), (3, 40)] ∧ (twice.eraseKey 1 (· == ·) 7).1.same twice = true := by
  intro t once twice
  have ht : t.WellFormed := ⟨rfl, by decide⟩
  obtain ⟨htaken, hnext, -⟩ := erasures_take_matches_in_order ht 1 (· == ·) [4]
  obtain ⟨-, pair, hpair, hfound⟩ := hnext (by decide)
  obtain ⟨-, -, hgone⟩ := erasures_take_matches_in_order ht 1 (· == ·) [4, 5]
  obtain ⟨-, hmiss, hsame⟩ := hgone (by decide)
  have hthird : pair = (1, 30) := Option.some.inj (hpair.symm.trans (by decide))
  rw [hthird] at hfound
  exact ⟨ht, hfound, htaken (by decide), hmiss, by decide, (hsame 7).2⟩

end Chain

end SharedList
