import Mathlib.Data.List.Perm.Basic
import SharedList.Proofs.Making
import SharedList.Proofs.TotalOrder
import SharedList.Proofs.Traversing

/-!
# What a stable sort comes to

Where a comparison is a total preorder, elements that compare as equal need not be the same, and a
row has many permutations that are in order.  Just one of them keeps the elements that compare as
equal in the order in which they were, and a chain is sorted into this one.  So what a sort comes to
does not depend on how it is made, and neither does what two sorts come to, or a sort of what is
kept.

* `TotalPreorder` — the laws, for the elements of which a predicate holds.
* `StableSort` — what is asked of a sorted row; `StableSort.eq` — there is at most one;
  `TotalPreorder.stableSort_mergeSort` — and a merge sort gives it.
* `StableSort.comp`, `StableSort.filter` — a sort after a sort, and a sort of what is kept.
* `Chain.sorts_stably` — chains are sorted so.
* `Chain.sorts_compose` — a sort by a second comparison first, and a sort after what is kept.
-/

set_option autoImplicit false

namespace SharedList

variable {α : Type}

/-- In a sort by `cmp` the earlier element may stay in front of the later one. -/
def inOrder (cmp : α → α → Ordering) (earlier later : α) : Bool := cmp later earlier != .lt

/-- On the elements of which `good` holds, the comparison is a total preorder.  Elements that compare
as equal need not be the same. -/
structure TotalPreorder (good : α → Prop) (cmp : α → α → Ordering) : Prop where
  swap : ∀ a b, good a → good b → cmp b a = (cmp a b).swap
  trans : ∀ a b c, good a → good b → good c → (cmp a b).isLE → (cmp b c).isLE → (cmp a c).isLE

theorem TotalOrder.preorder {good : α → Prop} {cmp : α → α → Ordering}
    {partialCmp : α → α → Option Ordering} {eq : α → α → Bool}
    (h : TotalOrder good cmp partialCmp eq) : TotalPreorder good cmp := ⟨h.swap, h.trans⟩

/-- What is asked of the row `ys` where `xs` is sorted. -/
structure StableSort (cmp : α → α → Ordering) (xs ys : List α) : Prop where
  /-- No element is lost and none is added. -/
  perm : ys.Perm xs
  /-- No element compares greater than a later one. -/
  ordered : ys.Pairwise fun a b => (cmp a b).isLE
  /-- The elements that compare as equal with one of them are in the order in which they were. -/
  stable : ∀ a ∈ xs, ys.filter (cmp a · == .eq) = xs.filter (cmp a · == .eq)

namespace TotalPreorder

variable {good : α → Prop} {cmp cmp₁ cmp₂ : α → α → Ordering} {a b c : α} {xs ys : List α}

/-! ## Laws -/

/-- Elements compared by a key of theirs. -/
theorem of_key {κ : Type} [Ord κ] [Std.TransOrd κ] (key : α → κ) :
    TotalPreorder (fun _ => True) fun a b => compare (key a) (key b) where
  swap _ _ _ _ := Std.OrientedCmp.eq_swap
  trans _ _ _ _ _ _ := Std.TransCmp.isLE_trans

/-- The laws for some elements are the laws for all of the type that holds just these. -/
theorem iff_transCmp :
    TotalPreorder good cmp ↔ Std.TransCmp fun a b : {x // good x} => cmp a.1 b.1 := by
  constructor
  · intro h
    have horiented : Std.OrientedCmp fun a b : {x // good x} => cmp a.1 b.1 :=
      ⟨fun {a b} => h.swap b.1 a.1 b.2 a.2⟩
    exact ⟨fun {a b c} => h.trans a.1 b.1 c.1 a.2 b.2 c.2⟩
  · intro h
    refine ⟨fun a b ha hb => ?_, fun a b c ha hb hc => ?_⟩
    · exact h.eq_swap (a := ⟨b, hb⟩) (b := ⟨a, ha⟩)
    · exact h.isLE_trans (a := ⟨a, ha⟩) (b := ⟨b, hb⟩) (c := ⟨c, hc⟩)

/-- One comparison, and another where it finds no difference. -/
theorem lex (h₁ : TotalPreorder good cmp₁) (h₂ : TotalPreorder good cmp₂) :
    TotalPreorder good (compareLex cmp₁ cmp₂) := by
  rw [iff_transCmp] at h₁ h₂ ⊢
  exact inferInstanceAs (Std.TransCmp (compareLex
    (fun a b : {x // good x} => cmp₁ a.1 b.1) fun a b : {x // good x} => cmp₂ a.1 b.1))

theorem refl (h : TotalPreorder good cmp) (ha : good a) : cmp a a = .eq := by
  have hswap := h.swap a a ha ha
  revert hswap
  cases cmp a a <;> simp

theorem total (h : TotalPreorder good cmp) (ha : good a) (hb : good b) :
    (cmp a b).isLE ∨ (cmp b a).isLE := TotalOrder.total_of_swap (h.swap a b ha hb)

theorem eq_of_isLE_of_isLE (h : TotalPreorder good cmp) (ha : good a) (hb : good b)
    (hab : (cmp a b).isLE) (hba : (cmp b a).isLE) : cmp a b = .eq := by
  rw [h.swap a b ha hb] at hba
  revert hab hba
  cases cmp a b <;> simp

/-- Elements that compare as equal with the same element are in order, either way round. -/
theorem isLE_of_eq_of_eq (h : TotalPreorder good cmp) (ha : good a) (hb : good b) (hc : good c)
    (hab : cmp a b = .eq) (hac : cmp a c = .eq) : (cmp b c).isLE := by
  have hba : (cmp b a).isLE := by rw [h.swap a b ha hb, hab]; rfl
  exact h.trans b a c hb ha hc hba (by rw [hac]; rfl)

/-- The element in front of a row in order is at most every element of it. -/
theorem head_isLE (h : TotalPreorder good cmp) (ha : good a)
    (hsorted : (a :: xs).Pairwise fun a b => (cmp a b).isLE) (hb : b ∈ a :: xs) :
    (cmp a b).isLE := by
  rcases List.mem_cons.mp hb with rfl | hb
  · rw [h.refl ha]
    rfl
  · exact List.rel_of_pairwise_cons hsorted hb

theorem inOrder_iff (h : TotalPreorder good cmp) (ha : good a) (hb : good b) :
    inOrder cmp a b = true ↔ (cmp a b).isLE := by
  rw [inOrder, h.swap a b ha hb]
  cases cmp a b <;> simp

/-! ## Merge sorts -/

/-- The laws hold of some elements only, so that those of a row are taken to be such before they are
sorted. -/
theorem map_mergeSort (cmp : α → α → Ordering) (hxs : ∀ x ∈ xs, good x) :
    ((xs.attachWith good hxs).mergeSort fun a b => inOrder cmp a.1 b.1).map (·.1) =
      xs.mergeSort (inOrder cmp) := by
  rw [List.map_mergeSort (s := inOrder cmp) fun _ _ _ _ => rfl, List.attachWith_map_subtype_val]

theorem inOrder_trans (h : TotalPreorder good cmp) (a b c : {x // good x})
    (hab : inOrder cmp a.1 b.1 = true) (hbc : inOrder cmp b.1 c.1 = true) :
    inOrder cmp a.1 c.1 = true := by
  rw [h.inOrder_iff a.2 b.2] at hab
  rw [h.inOrder_iff b.2 c.2] at hbc
  rw [h.inOrder_iff a.2 c.2]
  exact h.trans a.1 b.1 c.1 a.2 b.2 c.2 hab hbc

theorem inOrder_total (h : TotalPreorder good cmp) (a b : {x // good x}) :
    (inOrder cmp a.1 b.1 || inOrder cmp b.1 a.1) = true := by
  rw [Bool.or_eq_true, h.inOrder_iff a.2 b.2, h.inOrder_iff b.2 a.2]
  exact h.total a.2 b.2

/-- A sorted row is in order. -/
theorem pairwise_mergeSort (h : TotalPreorder good cmp) (hxs : ∀ x ∈ xs, good x) :
    (xs.mergeSort (inOrder cmp)).Pairwise fun a b => (cmp a b).isLE := by
  rw [← map_mergeSort cmp hxs, List.pairwise_map]
  exact (List.pairwise_mergeSort h.inOrder_trans h.inOrder_total _).imp
    fun {a b} hab => (h.inOrder_iff a.2 b.2).mp hab

/-- Elements that are in order already stay so when they are sorted with others. -/
theorem sublist_mergeSort (h : TotalPreorder good cmp) (hxs : ∀ x ∈ xs, good x)
    (hys : ys.Pairwise fun a b => (cmp a b).isLE) (hsub : ys.Sublist xs) :
    ys.Sublist (xs.mergeSort (inOrder cmp)) := by
  rw [← List.attachWith_map_subtype_val hxs, List.sublist_map_iff] at hsub
  obtain ⟨ys', hsub, rfl⟩ := hsub
  rw [List.pairwise_map] at hys
  rw [← map_mergeSort cmp hxs]
  apply List.Sublist.map
  refine List.sublist_mergeSort h.inOrder_trans h.inOrder_total (hys.imp fun {a b} hab => ?_) hsub
  exact (h.inOrder_iff a.2 b.2).mpr hab

/-- Where those elements of which `p` holds are in order, sorting moves none of them past another. -/
theorem filter_mergeSort (h : TotalPreorder good cmp) (hxs : ∀ x ∈ xs, good x) {p : α → Bool}
    (hp : (xs.filter p).Pairwise fun a b => (cmp a b).isLE) :
    (xs.mergeSort (inOrder cmp)).filter p = xs.filter p := by
  have hsub := (h.sublist_mergeSort hxs hp List.filter_sublist).filter p
  simp only [List.filter_filter, Bool.and_self] at hsub
  have hperm := (List.mergeSort_perm xs (inOrder cmp)).filter p
  exact (hsub.eq_of_length hperm.length_eq.symm).symm

theorem stableSort_mergeSort (h : TotalPreorder good cmp) (hxs : ∀ x ∈ xs, good x) :
    StableSort cmp xs (xs.mergeSort (inOrder cmp)) where
  perm := List.mergeSort_perm xs (inOrder cmp)
  ordered := h.pairwise_mergeSort hxs
  stable a ha := by
    apply h.filter_mergeSort hxs
    apply List.pairwise_of_forall_mem_list
    intro b hb c hc
    obtain ⟨hb, hab⟩ := List.mem_filter.mp hb
    obtain ⟨hc, hac⟩ := List.mem_filter.mp hc
    exact h.isLE_of_eq_of_eq (hxs a ha) (hxs b hb) (hxs c hc) (beq_iff_eq.mp hab)
      (beq_iff_eq.mp hac)

end TotalPreorder

/-! ## Stable sorts -/

namespace StableSort

variable {good : α → Prop} {cmp cmp₁ cmp₂ : α → α → Ordering} {xs ys zs : List α}

/-- Rows in order that hold the same elements are the same, if in both of them the elements that
compare as equal are in the same order. -/
theorem eq_of_perm (h : TotalPreorder good cmp) (hgood : ∀ y ∈ ys, good y) (hperm : ys.Perm zs)
    (hys : ys.Pairwise fun a b => (cmp a b).isLE) (hzs : zs.Pairwise fun a b => (cmp a b).isLE)
    (hsame : ∀ a ∈ ys, ys.filter (cmp a · == .eq) = zs.filter (cmp a · == .eq)) : ys = zs := by
  induction ys generalizing zs with
  | nil => exact hperm.nil_eq
  | cons y ys ih =>
    cases zs with
    | nil => exact hperm.eq_nil
    | cons z zs =>
      have hy := hgood y List.mem_cons_self
      have hmem : z ∈ y :: ys := hperm.mem_iff.mpr List.mem_cons_self
      have hz := hgood z hmem
      -- Each front element is at most all elements of its row, so also the other front element.
      have hyz : cmp y z = .eq := h.eq_of_isLE_of_isLE hy hz (h.head_isLE hy hys hmem)
        (h.head_isLE hz hzs (hperm.mem_iff.mp List.mem_cons_self))
      have hyy : cmp y y = .eq := h.refl hy
      have hfront := hsame y List.mem_cons_self
      rw [List.filter_cons_of_pos (by rw [hyy]; rfl), List.filter_cons_of_pos (by rw [hyz]; rfl)]
        at hfront
      obtain ⟨rfl, -⟩ := List.cons.inj hfront
      refine congrArg (y :: ·) (ih (List.forall_mem_cons.mp hgood).2 hperm.cons_inv
        (List.pairwise_cons.mp hys).2 (List.pairwise_cons.mp hzs).2 fun a ha => ?_)
      have hrest := hsame a (List.mem_cons_of_mem y ha)
      rw [List.filter_cons, List.filter_cons] at hrest
      split at hrest
      · exact (List.cons.inj hrest).2
      · exact hrest

/-- There is at most one such row. -/
theorem eq (h : TotalPreorder good cmp) (hxs : ∀ x ∈ xs, good x) (hys : StableSort cmp xs ys)
    (hzs : StableSort cmp xs zs) : ys = zs := by
  refine eq_of_perm h (fun y hy => hxs y (hys.perm.mem_iff.mp hy)) (hys.perm.trans hzs.perm.symm)
    hys.ordered hzs.ordered fun a ha => ?_
  have hmem := hys.perm.mem_iff.mp ha
  rw [hys.stable a hmem, hzs.stable a hmem]

/-- A row that is in order is sorted as it is. -/
theorem of_ordered (hxs : xs.Pairwise fun a b => (cmp a b).isLE) : StableSort cmp xs xs :=
  ⟨.refl xs, hxs, fun _ _ => rfl⟩

/-- The elements in which neither comparison finds a difference. -/
theorem filter_lex (cmp₁ cmp₂ : α → α → Ordering) (a : α) (xs : List α) :
    xs.filter (compareLex cmp₁ cmp₂ a · == .eq) =
      (xs.filter (cmp₂ a · == .eq)).filter (cmp₁ a · == .eq) := by
  rw [List.filter_filter]
  congr 1
  funext b
  rw [Bool.eq_iff_iff, Bool.and_eq_true, beq_iff_eq, beq_iff_eq, beq_iff_eq, compareLex_eq_eq]

/-- A sort by a second comparison and then by the first is one by both: elements that the first
takes for equal stay as the second has left them. -/
theorem comp (h₁ : TotalPreorder good cmp₁) (hxs : ∀ x ∈ xs, good x)
    (hsecond : StableSort cmp₂ xs ys) (hfirst : StableSort cmp₁ ys zs) :
    StableSort (compareLex cmp₁ cmp₂) xs zs where
  perm := hfirst.perm.trans hsecond.perm
  ordered := by
    rw [List.pairwise_iff_forall_sublist]
    intro a b hsub
    have hle := List.pairwise_iff_forall_sublist.mp hfirst.ordered hsub
    show ((cmp₁ a b).then (cmp₂ a b)).isLE
    cases hab : cmp₁ a b with
    | lt => rfl
    | eq =>
      have ha : a ∈ ys := hfirst.perm.mem_iff.mp (hsub.subset List.mem_cons_self)
      have haa : cmp₁ a a = .eq := h₁.refl (hxs a (hsecond.perm.mem_iff.mp ha))
      have hclass := hsub.filter (cmp₁ a · == .eq)
      rw [hfirst.stable a ha, List.filter_eq_self.mpr (by simp [haa, hab])] at hclass
      exact List.pairwise_iff_forall_sublist.mp hsecond.ordered
        (hclass.trans List.filter_sublist)
    | gt =>
      rw [hab] at hle
      cases hle
  stable a ha := by
    have hmem := hsecond.perm.mem_iff.mpr ha
    rw [filter_lex, List.filter_comm, hfirst.stable a hmem, List.filter_comm, hsecond.stable a ha,
      filter_lex]

/-- A sort of the elements of which `p` holds keeps those of the sorted row. -/
theorem filter (h : StableSort cmp xs ys) (p : α → Bool) :
    StableSort cmp (xs.filter p) (ys.filter p) where
  perm := h.perm.filter p
  ordered := h.ordered.filter p
  stable a ha := by
    rw [List.filter_comm, h.stable a (List.mem_of_mem_filter ha), List.filter_comm]

end StableSort

/-! ## Chains -/

namespace Chain

variable {good : α → Prop} {cmp cmp₁ cmp₂ : α → α → Ordering} {xs : Chain α}

theorem toList_sortBy (xs : Chain α) (cmp : α → α → Ordering) (next : Label) :
    ((xs.sortBy cmp).value next).1.toList = xs.toList.mergeSort (inOrder cmp) := by
  rw [sortBy_eq, toList_prepend_empty]
  rfl

theorem length_sortBy (xs : Chain α) (cmp : α → α → Ordering) (next : Label) :
    ((xs.sortBy cmp).value next).1.length = (xs.toList.mergeSort (inOrder cmp)).length := by
  rw [sortBy_eq, length_prepend_empty]
  rfl

theorem stableSort_sortBy (h : TotalPreorder good cmp) (hxs : ∀ x ∈ xs.toList, good x)
    (next : Label) : StableSort cmp xs.toList ((xs.sortBy cmp).value next).1.toList := by
  rw [toList_sortBy]
  exact h.stableSort_mergeSort hxs

/-- The elements of a sorted chain are those of the chain. -/
theorem mem_sortBy {x : α} {next : Label} :
    x ∈ ((xs.sortBy cmp).value next).1.toList ↔ x ∈ xs.toList := by
  rw [toList_sortBy]
  exact List.mem_mergeSort

/-- What is made is the chain `xs` sorted by `cmp`, as far as that can be said. -/
structure SortsStably (cmp : α → α → Ordering) (xs : Chain α) (make : Fresh (Chain α)) : Prop where
  /-- Its elements are a stable sort of those of `xs`, and no other row is. -/
  stableSort_iff : ∀ next ys, StableSort cmp xs.toList ys ↔ ys = (make next).1.toList
  /-- It counts as many elements. -/
  length_eq : ∀ next, (make next).1.length = xs.toList.length
  /-- Every element is where it was just if they were in order. -/
  unmoved_iff : ∀ next,
    (make next).1.toList = xs.toList ↔ xs.toList.Pairwise fun a b => (cmp a b).isLE

theorem sortsStably_sortBy (h : TotalPreorder good cmp) (hxs : ∀ x ∈ xs.toList, good x) :
    xs.SortsStably cmp (xs.sortBy cmp).value := by
  have hsorted := stableSort_sortBy h hxs
  refine ⟨fun next ys => ⟨fun hys => hys.eq h hxs (hsorted next), ?_⟩, fun next => ?_,
    fun next => ⟨fun hsame => ?_, fun hordered => ?_⟩⟩
  · rintro rfl
    exact hsorted next
  · rw [length_sortBy, List.length_mergeSort]
  · rw [← hsame]
    exact (hsorted next).ordered
  · exact (hsorted next).eq h hxs (.of_ordered hordered)

/-- A chain that is sorted is sorted already. -/
theorem sortBy_sortBy_alike (h : TotalPreorder good cmp) (hxs : ∀ x ∈ xs.toList, good x) :
    Alike ((xs.sortBy cmp).value >>= fun ys => (ys.sortBy cmp).value) (xs.sortBy cmp).value := by
  intro next next'
  have hys : ∀ y ∈ ((xs.sortBy cmp).value next).1.toList, good y :=
    fun y hy => hxs y (mem_sortBy.mp hy)
  rw [Fresh.bind_apply, ((sortsStably_sortBy h hys).unmoved_iff _).mpr
    (stableSort_sortBy h hxs next).ordered]
  exact (stableSort_sortBy h hxs next).eq h hxs (stableSort_sortBy h hxs next')

/-- **A chain is sorted stably.**  Whatever the comparison, if only it is a total preorder on the
elements, what comes out is the one permutation of them that is in order and keeps elements that
compare as equal in the order in which they were; it is the row as it was just if that was in order,
so that a second sort moves nothing.  To sort by the natural order is one such sort, and to sort by
a comparison with effects is such a sort if its answers are those of one without. -/
theorem sorts_stably [Ord α] (xs : Chain α) (hxs : ∀ x ∈ xs.toList, good x) :
    (∀ cmp, TotalPreorder good cmp → xs.SortsStably cmp (xs.sortBy cmp).value ∧
      Alike ((xs.sortBy cmp).value >>= fun ys => (ys.sortBy cmp).value) (xs.sortBy cmp).value) ∧
    xs.sort = xs.sortBy compare ∧
    ∀ {m : Type → Type} [Monad m] [LawfulMonad m] (ask : α → α → m Ordering)
      (cmp : α → α → Ordering), (∀ x y, Returns (ask x y) (cmp x y)) →
      Returns (xs.sortByM ask) (xs.sortBy cmp) := by
  refine ⟨fun cmp h => ⟨?_, ?_⟩, rfl, fun ask cmp h => xs.sortByM_returns h⟩
  · exact sortsStably_sortBy h hxs
  · exact sortBy_sortBy_alike h hxs

/-- Numbers are sorted by their tens, which some of them share; and so they are where the
comparisons are counted. -/
theorem sorts_stably_by_tens :
    let tens (a b : Nat) : Ordering := compare (a / 10) (b / 10)
    let counted (a b : Nat) : StateM Nat Ordering := do
      modify (· + 1)
      return tens a b
    let xs : Chain Nat := ⟨[⟨3, 35⟩, ⟨2, 12⟩, ⟨1, 30⟩, ⟨0, 11⟩], 4⟩
    TotalPreorder (fun _ => True) tens ∧ StableSort tens xs.toList [12, 11, 35, 30] ∧
      ((xs.sortBy tens).value 4).1.toList = [12, 11, 35, 30] ∧
      ((xs.sortBy tens).value 4).1.toList ≠ xs.toList ∧
      ∀ count, (xs.sortByM counted count).1 = xs.sortBy tens := by
  intro tens counted xs
  have htens : TotalPreorder (fun _ => True) tens := .of_key (· / 10)
  have hrow : StableSort tens xs.toList [12, 11, 35, 30] := ⟨by decide, by decide, by decide⟩
  obtain ⟨hsorts, -, hasks⟩ := sorts_stably xs fun _ _ => trivial
  have hsorted := (hsorts tens htens).1
  refine ⟨htens, hrow, ((hsorted.stableSort_iff 4 _).mp hrow).symm, fun hsame => ?_, ?_⟩
  · exact absurd ((hsorted.unmoved_iff 4).mp hsame) (by decide)
  · exact returns_iff.mp (hasks counted tens fun a b => returns_iff.mpr fun _ => rfl)

/-- **Sorts compose.**  A sort by a second comparison and then by a first one comes to the same as
one sort by the first that decides by the second where the first finds no difference; and it makes no
difference whether elements are kept by a predicate before a sort or after it. -/
theorem sorts_compose (h₁ : TotalPreorder good cmp₁) (h₂ : TotalPreorder good cmp₂)
    (xs : Chain α) (hxs : ∀ x ∈ xs.toList, good x) (p : α → Bool) :
    Alike ((xs.sortBy cmp₂).value >>= fun ys => (ys.sortBy cmp₁).value)
        (xs.sortBy (compareLex cmp₁ cmp₂)).value ∧
      Alike (Id.run (xs.filterM fun x => pure (p x)) >>= fun ys => (ys.sortBy cmp₁).value)
        ((xs.sortBy cmp₁).value >>= fun ys => Id.run (ys.filterM fun x => pure (p x))) := by
  refine ⟨fun next next' => ?_, fun next next' => ?_⟩
  · have hsecond := stableSort_sortBy h₂ hxs next
    have hys : ∀ y ∈ ((xs.sortBy cmp₂).value next).1.toList, good y :=
      fun y hy => hxs y (mem_sortBy.mp hy)
    have hfirst := stableSort_sortBy h₁ hys ((xs.sortBy cmp₂).value next).2
    exact (hsecond.comp h₁ hxs hfirst).eq (h₁.lex h₂) hxs (stableSort_sortBy (h₁.lex h₂) hxs next')
  · have hkept : ∀ x ∈ xs.toList.filter p, good x := fun x hx => hxs x (List.mem_of_mem_filter hx)
    rw [Fresh.bind_apply, Fresh.bind_apply, filterM_pure, filterM_pure, toList_ofList, toList_sortBy,
      toList_ofList]
    exact (h₁.stableSort_mergeSort hkept).eq h₁ hkept ((stableSort_sortBy h₁ hxs next').filter p)

/-- Numbers are sorted by their digits and then by their tens, and the even ones are kept. -/
theorem sorts_compose_by_digits :
    let tens (a b : Nat) : Ordering := compare (a / 10) (b / 10)
    let ones (a b : Nat) : Ordering := compare (a % 10) (b % 10)
    let xs : Chain Nat := ⟨[⟨4, 35⟩, ⟨3, 12⟩, ⟨2, 30⟩, ⟨1, 11⟩, ⟨0, 10⟩], 5⟩
    TotalPreorder (fun _ => True) tens ∧ TotalPreorder (fun _ => True) ones ∧
      (((xs.sortBy ones).value >>= fun ys => (ys.sortBy tens).value) 5).1.toList =
        [10, 11, 12, 30, 35] ∧
      ((Id.run (xs.filterM fun x => pure (x % 2 == 0)) >>= fun ys => (ys.sortBy tens).value)
        5).1.toList = [12, 10, 30] := by
  intro tens ones xs
  have htens : TotalPreorder (fun _ => True) tens := .of_key (· / 10)
  have hones : TotalPreorder (fun _ => True) ones := .of_key (· % 10)
  have hall : ∀ x ∈ xs.toList, True := fun _ _ => trivial
  have hboth : StableSort (compareLex tens ones) xs.toList [10, 11, 12, 30, 35] :=
    ⟨by decide, by decide, by decide⟩
  have hrow : StableSort tens xs.toList [12, 11, 10, 35, 30] := ⟨by decide, by decide, by decide⟩
  obtain ⟨hsorts, hkept⟩ := sorts_compose htens hones xs hall (· % 2 == 0)
  refine ⟨htens, hones, (hsorts 5 5).trans ?_, (hkept 5 5).trans ?_⟩
  · exact (stableSort_sortBy (htens.lex hones) hall 5).eq (htens.lex hones) hall hboth
  · rw [Fresh.bind_apply, filterM_pure, toList_ofList,
      (stableSort_sortBy htens hall 5).eq htens hall hrow]
    rfl

end Chain

end SharedList
