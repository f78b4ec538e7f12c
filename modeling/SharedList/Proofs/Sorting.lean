import Mathlib.Data.List.Perm.Basic
import SharedList.Proofs.Stability
import SharedList.Proofs.TotalOrder

/-!
# Sorting gives a canonical form

Where elements are totally ordered, two chains come to equal chains when they are sorted just when
the elements of the one are a permutation of those of the other.  Elements that are chains count as
the same when they are equal, whatever cells they share, so that a permutation is one up to
equality.

* `PermutedUpTo` — a permutation up to equality; `SameCounts` — of every element equally many.
* `TotalOrder.forall₂_of_sameCounts` — rows in order that hold of every element equally many are
  equal, element by element.
* `TotalOrder.sort_eq_iff` — sorted rows are equal just when the rows are permutations.
* `SortIsCanonical` — what this says of chains, of shuffled, reversed and joined ones, too.
* `sort_canonical` — it holds of chains of elements, of chains of chains, and of values.
-/

set_option autoImplicit false

namespace SharedList

variable {α : Type}

/-- The one row is a permutation of the other if equal elements are taken for one another. -/
def PermutedUpTo (eq : α → α → Bool) (xs ys : List α) : Prop :=
  ∃ zs, List.Forall₂ (fun x z => eq x z = true) xs zs ∧ zs.Perm ys

/-- Of every element both rows hold equally many. -/
def SameCounts (good : α → Prop) (eq : α → α → Bool) (xs ys : List α) : Prop :=
  ∀ c, good c → xs.countP (eq · c) = ys.countP (eq · c)

theorem PermutedUpTo.of_eq_iff {eq : α → α → Bool} (heq : ∀ a b, eq a b = true ↔ a = b)
    {xs ys : List α} : PermutedUpTo eq xs ys ↔ ys.Perm xs := by
  simp only [PermutedUpTo, heq, List.forall₂_eq_eq_eq]
  constructor
  · rintro ⟨zs, rfl, hperm⟩
    exact hperm.symm
  · intro hperm
    exact ⟨xs, rfl, hperm.symm⟩

/-! ## Rows of elements -/

namespace TotalOrder

variable {good : α → Prop} {cmp : α → α → Ordering} {partialCmp : α → α → Option Ordering}
  {eq : α → α → Bool} {a b c : α} {xs ys zs : List α}

theorem eq_self (h : TotalOrder good cmp partialCmp eq) (ha : good a) : eq a a = true :=
  (h.eq_iff a a ha ha).mp (h.refl a ha)

/-- Equal elements are equal to the same elements. -/
theorem eq_congr_left (h : TotalOrder good cmp partialCmp eq) (ha : good a) (hb : good b)
    (hc : good c) (hab : eq a b = true) : eq a c = eq b c := by
  have hcmp := h.congr_left ha hb hc ((h.eq_iff a b ha hb).mpr hab)
  rw [Bool.eq_iff_iff, ← h.eq_iff a c ha hc, ← h.eq_iff b c hb hc, hcmp]

theorem sameCounts_of_forall₂ (h : TotalOrder good cmp partialCmp eq) (hxs : ∀ x ∈ xs, good x)
    (hzs : ∀ z ∈ zs, good z) (hall : List.Forall₂ (fun x z => eq x z = true) xs zs) :
    SameCounts good eq xs zs := by
  intro c hc
  induction hall with
  | nil => rfl
  | @cons x z xs zs hxz _ ih =>
    obtain ⟨hx, hxs⟩ := List.forall_mem_cons.mp hxs
    obtain ⟨hz, hzs⟩ := List.forall_mem_cons.mp hzs
    rw [List.countP_cons, List.countP_cons, ih hxs hzs, h.eq_congr_left hx hz hc hxz]

theorem sameCounts_of_permuted (h : TotalOrder good cmp partialCmp eq) (hxs : ∀ x ∈ xs, good x)
    (hys : ∀ y ∈ ys, good y) (hperm : PermutedUpTo eq xs ys) : SameCounts good eq xs ys := by
  obtain ⟨zs, hall, hzs⟩ := hperm
  intro c hc
  rw [← hzs.countP_eq]
  exact h.sameCounts_of_forall₂ hxs (fun z hz => hys z (hzs.mem_iff.mp hz)) hall c hc

/-- An element of which the other row holds as many occurs there, too, up to equality. -/
theorem exists_mem_of_sameCounts (h : TotalOrder good cmp partialCmp eq) (ha : good a)
    (hcounts : SameCounts good eq (a :: xs) ys) : ∃ y ∈ ys, eq y a = true := by
  have hcount := hcounts a ha
  rw [List.countP_cons, if_pos (h.eq_self ha)] at hcount
  exact List.countP_pos_iff.mp (by omega)

/-- Rows in order that hold of every element equally many are equal, element by element. -/
theorem forall₂_of_sameCounts (h : TotalOrder good cmp partialCmp eq) (hxs : ∀ x ∈ xs, good x)
    (hys : ∀ y ∈ ys, good y) (hsx : xs.Pairwise fun a b => (cmp a b).isLE)
    (hsy : ys.Pairwise fun a b => (cmp a b).isLE) (hcounts : SameCounts good eq xs ys) :
    List.Forall₂ (fun x y => eq x y = true) xs ys := by
  induction xs generalizing ys with
  | nil =>
    cases ys with
    | nil => exact .nil
    | cons y ys =>
      obtain ⟨x, hx, -⟩ := h.exists_mem_of_sameCounts (hys y List.mem_cons_self)
        fun c hc => (hcounts c hc).symm
      cases hx
  | cons x xs ih =>
    have hx := hxs x List.mem_cons_self
    obtain ⟨y₀, hy₀, heq₀⟩ := h.exists_mem_of_sameCounts hx hcounts
    cases ys with
    | nil => cases hy₀
    | cons y ys =>
      have hy := hys y List.mem_cons_self
      obtain ⟨x₀, hx₀, heq₁⟩ := h.exists_mem_of_sameCounts hy fun c hc => (hcounts c hc).symm
      -- Each front element is at most the one of its own row that equals the other front element.
      have hyx : (cmp y x).isLE :=
        h.trans y y₀ x hy (hys y₀ hy₀) hx (h.preorder.head_isLE hy hsy hy₀)
          (by rw [(h.eq_iff y₀ x (hys y₀ hy₀) hx).mpr heq₀]; rfl)
      have hxy : (cmp x y).isLE :=
        h.trans x x₀ y hx (hxs x₀ hx₀) hy (h.preorder.head_isLE hx hsx hx₀)
          (by rw [(h.eq_iff x₀ y (hxs x₀ hx₀) hy).mpr heq₁]; rfl)
      have heq : eq x y = true :=
        (h.eq_iff x y hx hy).mp (h.preorder.eq_of_isLE_of_isLE hx hy hxy hyx)
      have hrest : SameCounts good eq xs ys := by
        intro c hc
        have hcount := hcounts c hc
        rw [List.countP_cons, List.countP_cons, h.eq_congr_left hx hy hc heq] at hcount
        omega
      exact .cons heq (ih (List.forall_mem_cons.mp hxs).2 (List.forall_mem_cons.mp hys).2
        (List.pairwise_cons.mp hsx).2 (List.pairwise_cons.mp hsy).2 hrest)

/-- Sorted rows are equal, element by element, just when the rows are permutations. -/
theorem sort_eq_iff (h : TotalOrder good cmp partialCmp eq) (hxs : ∀ x ∈ xs, good x)
    (hys : ∀ y ∈ ys, good y) :
    List.Forall₂ (fun x y => eq x y = true) (xs.mergeSort (inOrder cmp))
        (ys.mergeSort (inOrder cmp)) ↔ PermutedUpTo eq xs ys := by
  have hpx := List.mergeSort_perm xs (inOrder cmp)
  have hpy := List.mergeSort_perm ys (inOrder cmp)
  constructor
  · intro hall
    obtain ⟨zs, hxz, hzs⟩ := List.perm_comp_forall₂ hpx.symm hall
    exact ⟨zs, hxz, hzs.trans hpy⟩
  · intro hperm
    refine h.forall₂_of_sameCounts (fun x hx => hxs x (hpx.mem_iff.mp hx))
      (fun y hy => hys y (hpy.mem_iff.mp hy)) (h.preorder.pairwise_mergeSort hxs)
      (h.preorder.pairwise_mergeSort hys) fun c hc => ?_
    rw [hpx.countP_eq, hpy.countP_eq]
    exact h.sameCounts_of_permuted hxs hys hperm c hc

end TotalOrder

/-! ## Chains of elements -/

namespace Chain

theorem toList_shuffle_perm (xs : Chain α) (words : WordStream) (next : Label) :
    ((xs.shuffle words).value.chain next).1.toList.Perm xs.toList := by
  rw [shuffle_eq, toList_prepend_empty]
  exact (applySwaps_perm _ xs.toList.toArray).toList

theorem beq_eq [BEq α] (xs ys : Chain α) : (xs == ys) = xs.equal ys (· == ·) := rfl

end Chain

/-- To sort chains of such elements gives a canonical form of them. -/
structure SortIsCanonical [Ord α] [BEq α] (good : α → Prop) : Prop where
  /-- Sorted chains are equal just when the one holds a permutation of the other's elements. -/
  eq_iff : ∀ xs ys : Chain α, (∀ x ∈ xs.toList, good x) → (∀ y ∈ ys.toList, good y) →
    ∀ next next', ((xs.sort.value next).1 == (ys.sort.value next').1) = true ↔
      PermutedUpTo (· == ·) xs.toList ys.toList
  /-- It makes no difference to shuffle first, whatever the words. -/
  shuffle : ∀ xs : Chain α, (∀ x ∈ xs.toList, good x) → ∀ words next next',
    ((((xs.shuffle words).value.chain >>= fun ys => ys.sort.value) next).1 ==
      (xs.sort.value next').1) = true
  /-- Nor to reverse first. -/
  reverse : ∀ xs : Chain α, (∀ x ∈ xs.toList, good x) → ∀ next next',
    (((xs.reverse >>= fun ys => ys.sort.value) next).1 == (xs.sort.value next').1) = true
  /-- Nor in which order two chains are joined first. -/
  append : ∀ xs ys : Chain α, (∀ x ∈ xs.toList, good x) → (∀ y ∈ ys.toList, good y) →
    ∀ next next', (((xs.append ys >>= fun zs => zs.sort.value) next).1 ==
      ((ys.append xs >>= fun zs => zs.sort.value) next').1) = true

theorem SortIsCanonical.of_totalOrder [Ord α] [BEq α] {good : α → Prop}
    {partialCmp : α → α → Option Ordering} (h : TotalOrder good compare partialCmp (· == ·)) :
    SortIsCanonical good := by
  have eq_iff : ∀ xs ys : Chain α, (∀ x ∈ xs.toList, good x) → (∀ y ∈ ys.toList, good y) →
      ∀ next next', ((xs.sort.value next).1 == (ys.sort.value next').1) = true ↔
        PermutedUpTo (· == ·) xs.toList ys.toList := by
    intro xs ys hxs hys next next'
    rw [Chain.beq_eq, Chain.sort, Chain.sort, Chain.equal_eq_true_iff, Chain.length_sortBy,
      Chain.length_sortBy, Chain.toList_sortBy, Chain.toList_sortBy, ← h.sort_eq_iff hxs hys,
      List.forall₂_iff_zip]
    exact and_congr_right fun _ => Prod.forall
  -- A chain made of the same elements sorts to the same.
  have of_perm : ∀ xs ys : Chain α, (∀ x ∈ xs.toList, good x) → xs.toList.Perm ys.toList →
      ∀ next next', ((xs.sort.value next).1 == (ys.sort.value next').1) = true := by
    intro xs ys hxs hperm next next'
    rw [eq_iff xs ys hxs fun y hy => hxs y (hperm.mem_iff.mpr hy)]
    exact ⟨xs.toList, List.forall₂_same.mpr fun x hx => h.eq_self (hxs x hx), hperm⟩
  refine ⟨eq_iff, fun xs hxs words next next' => ?_, fun xs hxs next next' => ?_,
    fun xs ys hxs hys next next' => ?_⟩
  · have hperm := xs.toList_shuffle_perm words next
    exact of_perm _ xs (fun x hx => hxs x (hperm.mem_iff.mp hx)) hperm _ next'
  · have hperm : (xs.reverse next).1.toList.Perm xs.toList := by
      rw [Chain.toList_reverse]
      exact List.reverse_perm _
    exact of_perm _ xs (fun x hx => hxs x (hperm.mem_iff.mp hx)) hperm _ next'
  · rw [Fresh.bind_apply, Fresh.bind_apply]
    refine of_perm _ _ (fun x hx => ?_) ?_ _ _
    · rw [Chain.toList_append, List.mem_append] at hx
      exact hx.elim (hxs x) (hys x)
    · rw [Chain.toList_append, Chain.toList_append]
      exact List.perm_append_comm

/-! ## Chains of chains -/

/-- Chains of chains in the order of chains over the order of chains, and so on. -/
instance Nest.instOrd [Ord α] (depth : Nat) : Ord (Nest α depth) := ⟨Nest.cmp compare depth⟩

instance Nest.instBEq [BEq α] (depth : Nat) : BEq (Nest α depth) := ⟨Nest.eq (· == ·) depth⟩

/-- **Sorting gives a canonical form** of a chain as a collection of its elements.  Where equality
is identity, sorted chains are equal just when the elements are a permutation; the same holds, up to
the equality of chains, where the elements are chains, of any depth, and where they are values. -/
theorem sort_canonical [Ord α] [BEq α] [LawfulBEq α] {partialCmp : α → α → Option Ordering}
    (h : TotalOrder (fun _ : α => True) compare partialCmp (· == ·)) :
    (∀ (xs ys : Chain α) (next next' : Label),
      ((xs.sort.value next).1 == (ys.sort.value next').1) = true ↔ ys.toList.Perm xs.toList) ∧
    (∀ depth, SortIsCanonical (Nest.WellFormed depth : Nest α depth → Prop)) ∧
    SortIsCanonical Value.WellFormed := by
  refine ⟨fun xs ys next next' => ?_, fun depth => .of_totalOrder (h.nest depth),
    .of_totalOrder Value.totalOrder⟩
  rw [(SortIsCanonical.of_totalOrder h).eq_iff xs ys (fun _ _ => trivial) fun _ _ => trivial]
  exact PermutedUpTo.of_eq_iff fun _ _ => beq_iff_eq

/-- Numbers in two orders, one of them twice, sort to the same; and chains of chains of numbers have
a canonical form. -/
theorem sort_canonical_of_numbers :
    let xs : Chain Int64 := ⟨[⟨2, 7⟩, ⟨1, -4⟩, ⟨0, 7⟩], 3⟩
    let ys : Chain Int64 := ⟨[⟨5, -4⟩, ⟨4, 7⟩, ⟨3, 7⟩], 3⟩
    TotalOrder (fun _ : Int64 => True) compare (fun a b => some (compare a b)) (· == ·) ∧
      ys.toList.Perm xs.toList ∧ ((xs.sort.value 6).1 == (ys.sort.value 9).1) = true ∧
      SortIsCanonical (Nest.WellFormed 2 : Nest Int64 2 → Prop) := by
  intro xs ys
  have hperm : ys.toList.Perm xs.toList := .swap 7 (-4) [7]
  obtain ⟨hiff, hnest, -⟩ := sort_canonical (α := Int64) TotalOrder.ofOrd
  exact ⟨TotalOrder.ofOrd, hperm, (hiff xs ys 6 9).mpr hperm, hnest 2⟩

end SharedList
