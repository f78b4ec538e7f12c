import SharedList.Chain.Sort
import SharedList.Proofs.Growth

/-!
# Sorts that ask

A sort asks its comparison about two elements at a time, and the comparison may have effects and may
remember what it was asked.  Whatever it answers, no element is lost and none is added; and if every
answer is that of a comparison without effects, then the sort comes to what it comes to with that
one, whatever else the asking does.

* `Returns` — an action that returns nothing but one value; `Returns.bind` puts two together.
* `Row.mergeSortM_returns` — a row is sorted as by `List.mergeSort`.
* `Chain.sortByM_returns`, `Chain.sortBy_eq` — so are the elements of a chain.
* `Row.mergeSortM_perm`, `Chain.toList_sortByM_perm` — whatever the answers, the elements are only
  rearranged.
-/

set_option autoImplicit false

namespace SharedList

variable {m : Type → Type} [Monad m] {α β σ : Type}

/-! ## Actions that return one value -/

/-- Whatever else the action does, it returns nothing but `x`: to put `x` for what it returns leaves
it as it is. -/
def Returns (action : m α) (x : α) : Prop := (fun _ => x) <$> action = action

theorem Returns.eq {x y : α} (h : Returns (m := Id) x y) : x = y := Eq.symm h

/-- In a state monad, the value is returned from every state. -/
theorem returns_iff {action : StateM σ α} {x : α} : Returns action x ↔ ∀ s, (action s).1 = x := by
  constructor
  · exact fun h s => (congrArg Prod.fst (congrFun h s)).symm
  · exact fun h => funext fun s => Prod.ext (h s).symm rfl

variable [LawfulMonad m]

theorem returns_pure (x : α) : Returns (pure x : m α) x := map_pure _ x

theorem Returns.bind {action : m α} {next : α → m β} {x : α} {y : β} (h : Returns action x)
    (hnext : Returns (next x) y) : Returns (action >>= next) y := by
  have hfirst : action >>= next = action >>= fun _ => next x :=
    calc action >>= next = (fun _ => x) <$> action >>= next := congrArg (· >>= next) h.symm
      _ = action >>= fun _ => next x := bind_map_left ..
  rw [Returns, hfirst, map_bind]
  exact congrArg (action >>= ·) (funext fun _ => hnext)

/-! ## Rows -/

namespace Row

section Answers

variable {ask : α → α → m Bool} {inOrder : α → α → Bool}

theorem mergeM_returns (h : ∀ x y, Returns (ask x y) (inOrder x y)) (merged xs ys : List α) :
    Returns (mergeM ask merged xs ys) (merged.reverse ++ xs.merge ys inOrder) := by
  fun_induction mergeM ask merged xs ys with
  | case1 merged ys =>
    rw [List.nil_merge, ← List.reverseAux_eq]
    exact returns_pure _
  | case2 merged xs =>
    rw [List.merge_right, ← List.reverseAux_eq]
    exact returns_pure _
  | case3 merged x xs y ys ihx ihy =>
    refine (h x y).bind ?_
    rw [List.merge]
    split
    · rwa [List.reverse_cons, List.append_assoc, List.singleton_append] at ihx
    · rwa [List.reverse_cons, List.append_assoc, List.singleton_append] at ihy

theorem mergeSort_of_short {row : List α} (h : row.length ≤ 1) : row.mergeSort inOrder = row := by
  match row, h with
  | [], _ => exact List.mergeSort_nil
  | [x], _ => exact List.mergeSort_singleton x

/-- The halves are the first part of the row, which is the longer one, and the rest of it. -/
theorem mergeSort_of_long {row : List α} (h : ¬row.length ≤ 1) :
    row.mergeSort inOrder = ((row.take ((row.length + 1) / 2)).mergeSort inOrder).merge
      ((row.drop ((row.length + 1) / 2)).mergeSort inOrder) inOrder := by
  match row, h with
  | [], h => exact absurd (Nat.zero_le 1) h
  | [x], h => exact absurd (Nat.le_refl 1) h
  | x :: y :: rest, _ =>
    rw [List.mergeSort, List.MergeSort.Internal.splitInTwo_fst,
      List.MergeSort.Internal.splitInTwo_snd]

/-- **A row is sorted as by `List.mergeSort`**, if the answers are those of `inOrder`. -/
theorem mergeSortM_returns (h : ∀ x y, Returns (ask x y) (inOrder x y)) (row : List α) :
    Returns (mergeSortM ask row) (row.mergeSort inOrder) := by
  fun_induction mergeSortM ask row with
  | case1 row hshort =>
    rw [mergeSort_of_short hshort]
    exact returns_pure row
  | case2 row hlong ihfront ihback =>
    rw [mergeSort_of_long hlong]
    exact ihfront.bind (ihback.bind (mergeM_returns h [] _ _))

end Answers

/-! ### Whatever the answers -/

section Rearranging

variable (ask : α → α → StateM σ Bool)

/-- A question decides what is done next, from the state to which asking it has come. -/
theorem asked_apply (question : StateM σ Bool) (yes no : StateM σ β) (s : σ) :
    (do if ← question then yes else no : StateM σ β) s =
      if (question s).1 then yes (question s).2 else no (question s).2 := by
  show (if (question s).1 then yes else no) (question s).2 = _
  split <;> rfl

theorem mergeM_perm (merged xs ys : List α) (s : σ) :
    (mergeM ask merged xs ys s).1.Perm (merged ++ (xs ++ ys)) := by
  fun_induction mergeM ask merged xs ys generalizing s with
  | case1 merged ys =>
    show (merged.reverseAux ys).Perm _
    rw [List.reverseAux_eq]
    exact (List.reverse_perm merged).append_right ys
  | case2 merged xs =>
    show (merged.reverseAux xs).Perm _
    rw [List.reverseAux_eq, List.append_nil]
    exact (List.reverse_perm merged).append_right xs
  | case3 merged x xs y ys ihx ihy =>
    rw [asked_apply]
    split
    · exact (ihx _).trans List.perm_middle.symm
    · refine (ihy _).trans ?_
      exact List.perm_middle.symm.trans (List.perm_middle.symm.append_left merged)

theorem mergeSortM_perm (row : List α) (s : σ) : (mergeSortM ask row s).1.Perm row := by
  fun_induction mergeSortM ask row generalizing s with
  | case1 row h => exact .refl row
  | case2 row h ihfront ihback =>
    refine (mergeM_perm ask [] _ _ _).trans (((ihfront s).append (ihback _)).trans ?_)
    rw [List.take_append_drop]

end Rearranging

end Row

/-! ## Chains -/

namespace Chain

/-- What is asked where a chain is sorted: whether the earlier element may stay in front. -/
def inPlace (cmp : α → α → m Ordering) (earlier later : α) : m Bool :=
  return (← cmp later earlier) != .lt

theorem inPlace_returns {ask : α → α → m Ordering} {cmp : α → α → Ordering}
    (h : ∀ x y, Returns (ask x y) (cmp x y)) (earlier later : α) :
    Returns (inPlace ask earlier later) (cmp later earlier != .lt) :=
  (h later earlier).bind (returns_pure _)

/-- The elements of a chain are sorted as by `List.mergeSort`, if the answers are those of `cmp`. -/
theorem sortByM_returns_mergeSort (xs : Chain α) {ask : α → α → m Ordering}
    {cmp : α → α → Ordering} (h : ∀ x y, Returns (ask x y) (cmp x y)) :
    Returns (xs.sortByM ask) ⟨ofArray (xs.toList.mergeSort fun earlier later =>
      cmp later earlier != .lt).toArray, [.sorting xs.toList.length]⟩ :=
  (Row.mergeSortM_returns (inPlace_returns h) xs.toList).bind (returns_pure _)

theorem sortBy_eq_mergeSort (xs : Chain α) (cmp : α → α → Ordering) :
    xs.sortBy cmp = ⟨ofArray (xs.toList.mergeSort fun earlier later =>
      cmp later earlier != .lt).toArray, [.sorting xs.toList.length]⟩ :=
  (xs.sortByM_returns_mergeSort (m := Id) fun _ _ => returns_pure _).eq

/-- **A sort that asks is a sort**: if the answers are those of a comparison without effects, the
chain and the events are those to which that comparison leads. -/
theorem sortByM_returns (xs : Chain α) {ask : α → α → m Ordering} {cmp : α → α → Ordering}
    (h : ∀ x y, Returns (ask x y) (cmp x y)) : Returns (xs.sortByM ask) (xs.sortBy cmp) := by
  rw [sortBy_eq_mergeSort]
  exact xs.sortByM_returns_mergeSort h

theorem sortBy_eq (xs : Chain α) (cmp : α → α → Ordering) :
    (xs.sortBy cmp).value =
      prepend (xs.toList.mergeSort fun earlier later => cmp later earlier != .lt) empty := by
  rw [sortBy_eq_mergeSort]
  exact ofArray_eq _

theorem sortByM_eq (xs : Chain α) (cmp : α → α → StateM σ Ordering) (s : σ) :
    (xs.sortByM cmp s).1.value = prepend (Row.mergeSortM (inPlace cmp) xs.toList s).1 empty :=
  ofArray_eq (Row.mergeSortM (inPlace cmp) xs.toList s).1.toArray

/-- Whatever the comparison answers, the elements are only rearranged. -/
theorem toList_sortByM_perm (xs : Chain α) (cmp : α → α → StateM σ Ordering) (s : σ)
    (next : Label) : ((xs.sortByM cmp s).1.value next).1.toList.Perm xs.toList := by
  rw [sortByM_eq, toList_prepend, toList_empty, List.append_nil]
  exact Row.mergeSortM_perm (inPlace cmp) xs.toList s

end Chain

end SharedList
