import SharedList.Proofs.Appending
import SharedList.Proofs.TotalOrder

/-!
# Comparisons by any function

A comparison of two chains asks about pair after pair until an answer decides, and if none does, the
chain that ends first is less.  Nothing is asked of the function: its arguments may be of two types,
and its answers need not make an order.  So what holds of all comparisons is what can be read off
the answers about the pairs.

* `firstDecided` — the first of a row of answers that decides; `firstDecided_append`,
  `firstDecided_map_swap`, `firstDecided_eq_eq_iff` say what it is of longer and other rows.
* `Chain.compareBy_eq_firstDecided` — the loop comes to the first answer that decides, or else to
  the comparison of the lengths.
* `Chain.comparisons_by_answers` — chains that are exchanged, joined, compared without deciding, or
  asked to be equal.
-/

set_option autoImplicit false

namespace SharedList

variable {α β : Type}

/-! ## Rows of answers -/

/-- The first answer that is not `.eq`, or `.eq` if there is none. -/
def firstDecided (answers : List Ordering) : Ordering := answers.foldr Ordering.then .eq

theorem firstDecided_cons (answer : Ordering) (answers : List Ordering) :
    firstDecided (answer :: answers) = answer.then (firstDecided answers) := rfl

/-- Of two rows the second is looked at only if nothing in the first decides. -/
theorem firstDecided_append (answers answers' : List Ordering) :
    firstDecided (answers ++ answers') = (firstDecided answers).then (firstDecided answers') := by
  induction answers with
  | nil => rfl
  | cons answer answers ih =>
    rw [List.cons_append, firstDecided_cons, firstDecided_cons, ih, Ordering.then_assoc]

theorem firstDecided_map_swap (answers : List Ordering) :
    firstDecided (answers.map Ordering.swap) = (firstDecided answers).swap := by
  induction answers with
  | nil => rfl
  | cons answer answers ih =>
    rw [List.map_cons, firstDecided_cons, firstDecided_cons, ih, Ordering.swap_then]

theorem firstDecided_eq_eq_iff (answers : List Ordering) :
    firstDecided answers = .eq ↔ ∀ answer ∈ answers, answer = .eq := by
  induction answers with
  | nil => exact iff_of_true rfl (List.forall_mem_nil _)
  | cons answer answers ih =>
    rw [firstDecided_cons, Ordering.then_eq_eq, List.forall_mem_cons, ih]

/-- The answers about the pairs of two rows leave it open just when each of them does. -/
theorem firstDecided_zipWith_eq_eq_iff (c : α → β → Ordering) (xs : List α) (ys : List β) :
    firstDecided (List.zipWith c xs ys) = .eq ↔ ∀ p ∈ xs.zip ys, c p.1 p.2 = .eq := by
  rw [firstDecided_eq_eq_iff, ← List.map_uncurry_zip_eq_zipWith, List.forall_mem_map]
  rfl

/-- Rows that are made longer alike compare as they did. -/
theorem compare_add_right (m n count : Nat) : compare (m + count) (n + count) = compare m n := by
  simp only [Nat.compare_eq_ite_lt, Nat.add_lt_add_iff_right]

namespace Chain

/-! ## The loop -/

/-- **The loop** comes to the first answer that decides, or else to the comparison of how long the
rows are. -/
theorem decideFirst_eq_firstDecided (c : α → β → Ordering) (xs : List α) (ys : List β) :
    compareM.decideFirst (m := Id) (fun x y => pure (c x y)) xs ys =
      (firstDecided (List.zipWith c xs ys)).then (compare xs.length ys.length) := by
  induction xs generalizing ys with
  | nil =>
    cases ys with
    | nil => rfl
    | cons y ys => exact (Nat.compare_eq_lt.mpr (Nat.succ_pos ys.length)).symm
  | cons x xs ih =>
    cases ys with
    | nil => exact (Nat.compare_eq_gt.mpr (Nat.succ_pos xs.length)).symm
    | cons y ys =>
      rw [List.zipWith_cons_cons, firstDecided_cons, List.length_cons, List.length_cons,
        compare_add_right, Ordering.then_assoc, ← ih ys, compareM.decideFirst]
      cases c x y <;> rfl

theorem compareBy_eq_firstDecided (xs : Chain α) (ys : Chain β) (c : α → β → Ordering) :
    xs.compareBy ys c =
      (firstDecided (List.zipWith c xs.toList ys.toList)).then
        (compare xs.toList.length ys.toList.length) :=
  decideFirst_eq_firstDecided c xs.toList ys.toList

/-! ## What the answers say of chains -/

/-- Exchanged chains, compared by what exchanges the answers, compare the other way round. -/
theorem compareBy_exchanged (xs : Chain α) (ys : Chain β) (c : α → β → Ordering) :
    (ys.compareBy xs fun y x => (c x y).swap) = (xs.compareBy ys c).swap := by
  rw [compareBy_eq_firstDecided, compareBy_eq_firstDecided, Ordering.swap_then, Nat.compare_swap,
    ← firstDecided_map_swap, List.map_zipWith, List.zipWith_comm]

section Joined

variable {xs : Chain α} {ys : Chain β}

/-- Of joined chains the first parts decide, if they do and are equally long. -/
theorem compareBy_append (hxs : xs.WellFormed) (hys : ys.WellFormed) (h : xs.length = ys.length)
    (xs' : Chain α) (ys' : Chain β) (c : α → β → Ordering) (next next' : Label) :
    (xs.append xs' next).1.compareBy (ys.append ys' next').1 c =
      (xs.compareBy ys c).then (xs'.compareBy ys' c) := by
  have hlength : xs.toList.length = ys.toList.length := by
    rw [hxs.toList_length, hys.toList_length, h]
  have hfirst : compare xs.toList.length ys.toList.length = .eq := Nat.compare_eq_eq.mpr hlength
  have hrest : compare (xs.toList.length + xs'.toList.length)
      (ys.toList.length + ys'.toList.length) =
        compare xs'.toList.length ys'.toList.length := by
    rw [hlength, Nat.add_comm, Nat.add_comm _ ys'.toList.length, compare_add_right]
  simp only [compareBy_eq_firstDecided, toList_append, List.length_append]
  rw [List.zipWith_append hlength, firstDecided_append, hrest, hfirst, Ordering.then_eq,
    Ordering.then_assoc]

/-- Where nothing decides, the lengths do. -/
theorem compareBy_undecided (hxs : xs.WellFormed) (hys : ys.WellFormed) :
    xs.compareBy ys (fun _ _ => .eq) = xs.compareLength ys := by
  have hanswers : firstDecided (List.zipWith (fun _ _ => .eq) xs.toList ys.toList) = .eq :=
    (firstDecided_zipWith_eq_eq_iff _ _ _).mpr fun _ _ => rfl
  rw [compareBy_eq_firstDecided, hanswers, hxs.toList_length, hys.toList_length]
  rfl

/-- Chains are found equal, with the lengths looked at first, just when the comparison comes to
`.eq`. -/
theorem equal_iff_compareBy (hxs : xs.WellFormed) (hys : ys.WellFormed) (c : α → β → Ordering) :
    xs.equal ys (fun x y => c x y == .eq) = true ↔ xs.compareBy ys c = .eq := by
  rw [equal_eq_true_iff, compareBy_eq_firstDecided, Ordering.then_eq_eq,
    firstDecided_zipWith_eq_eq_iff, Nat.compare_eq_eq, hxs.toList_length, hys.toList_length,
    and_comm]
  simp only [beq_iff_eq]

end Joined

/-- **Comparisons go by the answers about the pairs and then by the lengths**, whatever the function
is.  So to exchange the chains and the answers exchanges the result; joined chains compare as their
first parts, if these are equally long and decide, and otherwise as their second parts; a comparison
in which nothing decides is that of the lengths; and chains are equal by a function just when they
compare as equal. -/
theorem comparisons_by_answers {xs : Chain α} {ys : Chain β} (hxs : xs.WellFormed)
    (hys : ys.WellFormed) (c : α → β → Ordering) :
    ((ys.compareBy xs fun y x => (c x y).swap) = (xs.compareBy ys c).swap) ∧
    (xs.length = ys.length → ∀ (xs' : Chain α) (ys' : Chain β) (next next' : Label),
      (xs.append xs' next).1.compareBy (ys.append ys' next').1 c =
        if xs.compareBy ys c = .eq then xs'.compareBy ys' c else xs.compareBy ys c) ∧
    xs.compareBy ys (fun _ _ => .eq) = xs.compareLength ys ∧
    (xs.equal ys (fun x y => c x y == .eq) = true ↔ xs.compareBy ys c = .eq) := by
  refine ⟨compareBy_exchanged xs ys c, fun h xs' ys' next next' => ?_,
    compareBy_undecided hxs hys, equal_iff_compareBy hxs hys c⟩
  rw [compareBy_append hxs hys h]
  cases xs.compareBy ys c <;> rfl

/-- Numbers against texts, by the lengths of the texts: the third pair decides, and it does so where
the joined chains have it. -/
theorem comparisons_by_answers_of_texts :
    let xs : Chain Nat := ⟨[⟨1, 1⟩, ⟨0, 2⟩], 2⟩
    let ys : Chain String := ⟨[⟨3, "a"⟩, ⟨2, "bc"⟩], 2⟩
    let xs' : Chain Nat := ⟨[⟨4, 9⟩], 1⟩
    let c : Nat → String → Ordering := fun n s => compare n s.length
    xs.WellFormed ∧ ys.WellFormed ∧ xs.length = ys.length ∧ xs.compareBy ys c = .eq ∧
      xs.equal ys (fun n s => c n s == .eq) = true ∧
      (xs.append xs' 5).1.compareBy (ys.append ys 6).1 c = .gt ∧
      (ys.compareBy xs fun s n => (c n s).swap) = .eq := by
  intro xs ys xs' c
  have hxs : xs.WellFormed := ⟨rfl, by decide⟩
  have hys : ys.WellFormed := ⟨rfl, by decide⟩
  have heq : xs.compareBy ys c = .eq := by decide
  obtain ⟨hexchanged, hjoined, -, hequal⟩ := comparisons_by_answers hxs hys c
  refine ⟨hxs, hys, rfl, heq, hequal.mpr heq, ?_, ?_⟩
  · rw [hjoined rfl, if_pos heq]
    decide
  · rw [hexchanged, heq]
    rfl

end Chain

end SharedList
