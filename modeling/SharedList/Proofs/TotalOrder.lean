import SharedList.Proofs.Nesting
import SharedList.Value.Order

/-!
# The total order of chains

Three comparisons are made of chains in three ways: `compareBy` walks both chains, `equal` looks at
the lengths first, and `partialCompare` walks with a comparison that may be undecided.  Where the
elements are totally ordered, all three are one total order of chains, and so again for chains of
chains.

* `TotalOrder` — the laws, for the elements of which a predicate holds.
* `compareBy_eq`, `equal_eq_true_iff`, `partialCompare_eq` — each comparison said of the elements.
* `TotalOrder.chain` — from the elements to the chains; `TotalOrder.nest` — to any depth.
* `Value.totalOrder` — values, whose chains are compared by the order that is being defined.
-/

set_option autoImplicit false

namespace SharedList

variable {α β : Type}

/-- On the elements of which `good` holds, the three comparisons are one total order. -/
structure TotalOrder (good : α → Prop) (cmp : α → α → Ordering)
    (partialCmp : α → α → Option Ordering) (eq : α → α → Bool) : Prop where
  refl : ∀ a, good a → cmp a a = .eq
  swap : ∀ a b, good a → good b → cmp b a = (cmp a b).swap
  trans : ∀ a b c, good a → good b → good c → (cmp a b).isLE → (cmp b c).isLE → (cmp a c).isLE
  total : ∀ a b, good a → good b → (cmp a b).isLE ∨ (cmp b a).isLE
  eq_iff : ∀ a b, good a → good b → (cmp a b = .eq ↔ eq a b = true)
  partialCmp_eq : ∀ a b, good a → good b → partialCmp a b = some (cmp a b)

namespace TotalOrder

variable {good : α → Prop} {cmp : α → α → Ordering} {partialCmp : α → α → Option Ordering}
  {eq : α → α → Bool} {a b c : α}

/-- The laws for fewer elements. -/
theorem mono (h : TotalOrder good cmp partialCmp eq) {good' : α → Prop}
    (hle : ∀ a, good' a → good a) : TotalOrder good' cmp partialCmp eq where
  refl a ha := h.refl a (hle a ha)
  swap a b ha hb := h.swap a b (hle a ha) (hle b hb)
  trans a b c ha hb hc := h.trans a b c (hle a ha) (hle b hb) (hle c hc)
  total a b ha hb := h.total a b (hle a ha) (hle b hb)
  eq_iff a b ha hb := h.eq_iff a b (hle a ha) (hle b hb)
  partialCmp_eq a b ha hb := h.partialCmp_eq a b (hle a ha) (hle b hb)

theorem total_of_swap {a b : α} (h : cmp b a = (cmp a b).swap) :
    (cmp a b).isLE ∨ (cmp b a).isLE := by
  rw [h]
  cases cmp a b <;> simp

/-- The natural order of a type that has a lawful one. -/
theorem ofOrd [Ord α] [BEq α] [Std.TransOrd α] [Std.LawfulEqOrd α] [LawfulBEq α] :
    TotalOrder (fun _ : α => True) compare (fun a b => some (compare a b)) (· == ·) where
  refl _ _ := Std.ReflCmp.compare_self
  swap _ _ _ _ := Std.OrientedCmp.eq_swap
  trans _ _ _ _ _ _ := Std.TransCmp.isLE_trans
  total _ _ _ _ := total_of_swap Std.OrientedCmp.eq_swap
  eq_iff _ _ _ _ := Std.compare_eq_iff_eq.trans beq_iff_eq.symm
  partialCmp_eq _ _ _ _ := rfl

/-- Equal elements compare alike with a third. -/
theorem congr_left (h : TotalOrder good cmp partialCmp eq) (ha : good a) (hb : good b)
    (hc : good c) (hab : cmp a b = .eq) : cmp a c = cmp b c := by
  have hba : cmp b a = .eq := by rw [h.swap a b ha hb, hab]; rfl
  have hle : (cmp a c).isLE ↔ (cmp b c).isLE :=
    ⟨h.trans b a c hb ha hc (by rw [hba]; rfl), h.trans a b c ha hb hc (by rw [hab]; rfl)⟩
  have hge : (cmp c a).isLE ↔ (cmp c b).isLE :=
    ⟨fun hca => h.trans c a b hc ha hb hca (by rw [hab]; rfl),
      fun hcb => h.trans c b a hc hb ha hcb (by rw [hba]; rfl)⟩
  rw [h.swap a c ha hc, h.swap b c hb hc] at hge
  revert hle hge
  cases cmp a c <;> cases cmp b c <;> simp

theorem lt_of_lt_of_isLE (h : TotalOrder good cmp partialCmp eq) (ha : good a) (hb : good b)
    (hc : good c) (hab : cmp a b = .lt) (hbc : (cmp b c).isLE) : cmp a c = .lt := by
  cases hac : cmp a c with
  | lt => rfl
  | eq =>
    -- Then `c` would lie below `b`, which lies below `c`.
    rw [h.congr_left ha hc hb hac, h.swap b c hb hc] at hab
    revert hbc hab
    cases cmp b c <;> simp
  | gt =>
    have := h.trans a b c ha hb hc (by rw [hab]; rfl) hbc
    rw [hac] at this
    cases this

end TotalOrder

/-! ## What the comparisons say of the elements -/

namespace Chain

theorem decideFirst_eq (cmp : α → α → Ordering) (xs ys : List α) :
    compareM.decideFirst (m := Id) (fun x y => pure (cmp x y)) xs ys = xs.compareLex cmp ys := by
  induction xs generalizing ys with
  | nil => cases ys <;> rfl
  | cons x xs ih =>
    cases ys with
    | nil => rfl
    | cons y ys =>
      rw [List.compareLex_cons_cons, ← ih ys, compareM.decideFirst]
      cases h : cmp x y <;> simp [pure, bind]

theorem compareBy_eq (xs ys : Chain α) (cmp : α → α → Ordering) :
    xs.compareBy ys cmp = xs.toList.compareLex cmp ys.toList :=
  decideFirst_eq cmp xs.toList ys.toList

theorem ask_eq_true_iff (eq : α → β → Bool) (xs : List α) (ys : List β) :
    allM₂.ask (m := Id) (fun x y => pure (eq x y)) xs ys = true ↔
      ∀ p ∈ xs.zip ys, eq p.1 p.2 = true := by
  induction xs generalizing ys with
  | nil => cases ys <;> simp [allM₂.ask, pure]
  | cons x xs ih =>
    cases ys with
    | nil => simp [allM₂.ask, pure]
    | cons y ys =>
      rw [List.zip_cons_cons, List.forall_mem_cons, ← ih ys, allM₂.ask]
      cases h : eq x y <;> simp [pure, bind]

theorem equal_eq_true_iff (xs : Chain α) (ys : Chain β) (eq : α → β → Bool) :
    xs.equal ys eq = true ↔
      xs.length = ys.length ∧ ∀ p ∈ xs.toList.zip ys.toList, eq p.1 p.2 = true := by
  rw [equal, equalM, ← ask_eq_true_iff eq]
  split
  · rename_i h
    exact ⟨fun hask => ⟨h, hask⟩, fun hask => hask.2⟩
  · rename_i h
    exact ⟨fun hfalse => (Bool.false_ne_true hfalse).elim, fun hask => absurd hask.1 h⟩

end Chain

namespace TotalOrder

variable {good : α → Prop} {cmp : α → α → Ordering} {partialCmp : α → α → Option Ordering}
  {eq : α → α → Bool}

/-! ## Lists of elements -/

theorem lex_refl (h : TotalOrder good cmp partialCmp eq) {xs : List α} (hxs : ∀ x ∈ xs, good x) :
    xs.compareLex cmp xs = .eq := by
  induction xs with
  | nil => rfl
  | cons x xs ih =>
    obtain ⟨hx, hxs⟩ := List.forall_mem_cons.mp hxs
    rw [List.compareLex_cons_cons, h.refl x hx, ih hxs]
    rfl

theorem lex_swap (h : TotalOrder good cmp partialCmp eq) {xs ys : List α}
    (hxs : ∀ x ∈ xs, good x) (hys : ∀ y ∈ ys, good y) :
    ys.compareLex cmp xs = (xs.compareLex cmp ys).swap := by
  induction xs generalizing ys with
  | nil => cases ys <;> rfl
  | cons x xs ih =>
    cases ys with
    | nil => rfl
    | cons y ys =>
      obtain ⟨hx, hxs⟩ := List.forall_mem_cons.mp hxs
      obtain ⟨hy, hys⟩ := List.forall_mem_cons.mp hys
      rw [List.compareLex_cons_cons, List.compareLex_cons_cons, Ordering.swap_then,
        h.swap x y hx hy, ih hxs hys]

theorem lex_trans (h : TotalOrder good cmp partialCmp eq) {xs ys zs : List α}
    (hxs : ∀ x ∈ xs, good x) (hys : ∀ y ∈ ys, good y) (hzs : ∀ z ∈ zs, good z)
    (hxy : (xs.compareLex cmp ys).isLE) (hyz : (ys.compareLex cmp zs).isLE) :
    (xs.compareLex cmp zs).isLE := by
  -- The first of the three lists to end, or the first position where two of them differ, decides.
  induction xs generalizing ys zs with
  | nil => exact List.isLE_compareLex_nil_left
  | cons x xs ih =>
    cases ys with
    | nil => cases hxy
    | cons y ys =>
      cases zs with
      | nil => cases hyz
      | cons z zs =>
        obtain ⟨hx, hxs⟩ := List.forall_mem_cons.mp hxs
        obtain ⟨hy, hys⟩ := List.forall_mem_cons.mp hys
        obtain ⟨hz, hzs⟩ := List.forall_mem_cons.mp hzs
        rw [List.compareLex_cons_cons, Ordering.isLE_then_iff_or] at hxy hyz ⊢
        rcases hxy with hlt | ⟨heq, hrest⟩
        · refine .inl (h.lt_of_lt_of_isLE hx hy hz hlt ?_)
          rcases hyz with hlt' | ⟨heq', -⟩
          · rw [hlt']; rfl
          · rw [heq']; rfl
        · rw [h.congr_left hx hy hz heq]
          rcases hyz with hlt' | ⟨heq', hrest'⟩
          · exact .inl hlt'
          · exact .inr ⟨heq', ih hxs hys hzs hrest hrest'⟩

theorem lex_eq_iff (h : TotalOrder good cmp partialCmp eq) {xs ys : List α}
    (hxs : ∀ x ∈ xs, good x) (hys : ∀ y ∈ ys, good y) :
    xs.compareLex cmp ys = .eq ↔
      xs.length = ys.length ∧ ∀ p ∈ xs.zip ys, eq p.1 p.2 = true := by
  induction xs generalizing ys with
  | nil => cases ys <;> simp [List.compareLex_nil_left_eq_eq]
  | cons x xs ih =>
    cases ys with
    | nil => simp [List.compareLex_nil_right_eq_eq]
    | cons y ys =>
      obtain ⟨hx, hxs⟩ := List.forall_mem_cons.mp hxs
      obtain ⟨hy, hys⟩ := List.forall_mem_cons.mp hys
      rw [List.compareLex_cons_cons, Ordering.then_eq_eq, h.eq_iff x y hx hy, ih hxs hys,
        List.zip_cons_cons, List.forall_mem_cons, List.length_cons, List.length_cons,
        Nat.add_right_cancel_iff]
      exact and_left_comm

theorem partialCompare_eq (h : TotalOrder good cmp partialCmp eq) {xs ys : Chain α}
    (hxs : ∀ x ∈ xs.toList, good x) (hys : ∀ y ∈ ys.toList, good y) :
    xs.partialCompare ys partialCmp = some (xs.toList.compareLex cmp ys.toList) := by
  unfold Chain.partialCompare
  generalize xs.toList = xs at hxs ⊢
  generalize ys.toList = ys at hys ⊢
  induction xs generalizing ys with
  | nil => cases ys <;> rfl
  | cons x xs ih =>
    cases ys with
    | nil => rfl
    | cons y ys =>
      obtain ⟨hx, hxs⟩ := List.forall_mem_cons.mp hxs
      obtain ⟨hy, hys⟩ := List.forall_mem_cons.mp hys
      rw [List.compareLex_cons_cons, Chain.partialCompare.decideFirst,
        h.partialCmp_eq x y hx hy]
      cases cmp x y with
      | lt => rfl
      | eq => exact ih hxs ys hys
      | gt => rfl

/-! ## Chains of elements -/

theorem compareBy_swap (h : TotalOrder good cmp partialCmp eq) {xs ys : Chain α}
    (hxs : ∀ x ∈ xs.toList, good x) (hys : ∀ y ∈ ys.toList, good y) :
    ys.compareBy xs cmp = (xs.compareBy ys cmp).swap := by
  rw [Chain.compareBy_eq, Chain.compareBy_eq]
  exact h.lex_swap hxs hys

/-- A total order of the elements makes one of the well-formed chains. -/
theorem chain (h : TotalOrder good cmp partialCmp eq) :
    TotalOrder (fun xs : Chain α => xs.WellFormed ∧ ∀ x ∈ xs.toList, good x)
      (fun xs ys => xs.compareBy ys cmp) (fun xs ys => xs.partialCompare ys partialCmp)
      (fun xs ys => xs.equal ys eq) where
  refl xs hxs := by
    rw [Chain.compareBy_eq]
    exact h.lex_refl hxs.2
  swap xs ys hxs hys := h.compareBy_swap hxs.2 hys.2
  trans xs ys zs hxs hys hzs := by
    rw [Chain.compareBy_eq, Chain.compareBy_eq, Chain.compareBy_eq]
    exact h.lex_trans hxs.2 hys.2 hzs.2
  total xs ys hxs hys := by
    rw [h.compareBy_swap hxs.2 hys.2]
    cases xs.compareBy ys cmp <;> simp
  eq_iff xs ys hxs hys := by
    -- The cached lengths agree exactly when the numbers of elements do.
    rw [Chain.compareBy_eq, h.lex_eq_iff hxs.2 hys.2, Chain.equal_eq_true_iff,
      hxs.1.toList_length, hys.1.toList_length]
  partialCmp_eq xs ys hxs hys := by
    rw [Chain.compareBy_eq]
    exact h.partialCompare_eq hxs.2 hys.2

end TotalOrder

/-! ## Chains of chains -/

/-- Chains of chains, `depth` chains deep, of elements of `α`. -/
def Nest (α : Type) : Nat → Type
  | 0 => α
  | depth + 1 => Chain (Nest α depth)

namespace Nest

/-- Every chain at every depth is well formed. -/
def WellFormed : (depth : Nat) → Nest α depth → Prop
  | 0, _ => True
  | depth + 1, (xs : Chain (Nest α depth)) => xs.WellFormed ∧ ∀ x ∈ xs.toList, WellFormed depth x

/-- The order of chains over the order of chains, and so on down to the elements. -/
def cmp (elem : α → α → Ordering) : (depth : Nat) → Nest α depth → Nest α depth → Ordering
  | 0 => elem
  | depth + 1 => fun xs ys => Chain.compareBy xs ys (cmp elem depth)

/-- The partial order of chains over that of chains, and so on down to the elements. -/
def partialCmp (elem : α → α → Option Ordering) :
    (depth : Nat) → Nest α depth → Nest α depth → Option Ordering
  | 0 => elem
  | depth + 1 => fun xs ys => Chain.partialCompare xs ys (partialCmp elem depth)

/-- The equality of chains over that of chains, and so on down to the elements. -/
def eq (elem : α → α → Bool) : (depth : Nat) → Nest α depth → Nest α depth → Bool
  | 0 => elem
  | depth + 1 => fun xs ys => Chain.equal xs ys (eq elem depth)

end Nest

/-- A total order of the elements makes one of the chains of any depth. -/
theorem TotalOrder.nest {elemCmp : α → α → Ordering} {elemPartial : α → α → Option Ordering}
    {elemEq : α → α → Bool} (h : TotalOrder (fun _ => True) elemCmp elemPartial elemEq)
    (depth : Nat) :
    TotalOrder (Nest.WellFormed depth) (Nest.cmp elemCmp depth)
      (Nest.partialCmp elemPartial depth) (Nest.eq elemEq depth) := by
  induction depth with
  | zero => exact h
  | succ depth ih => exact ih.chain

/-! ## Values -/

namespace Value

theorem cmp_of_rank_ne {a b : Value} (h : a.rank ≠ b.rank) : cmp a b = compare a.rank b.rank := by
  cases a <;> cases b <;> first | exact absurd rfl h | rfl

theorem rank_le_of_isLE {a b : Value} (h : (cmp a b).isLE) : a.rank ≤ b.rank := by
  by_cases hrank : a.rank = b.rank
  · exact Nat.le_of_eq hrank
  · rw [cmp_of_rank_ne hrank, Nat.isLE_compare] at h
    exact h

theorem isLE_of_rank_lt {a b : Value} (h : a.rank < b.rank) : (cmp a b).isLE := by
  rw [cmp_of_rank_ne (Nat.ne_of_lt h), Nat.isLE_compare]
  exact Nat.le_of_lt h

/-- A chain's elements are smaller than a value that is the chain. -/
theorem sizeOf_lt_of_mem {xs : Chain Value} {x : Value} (h : x ∈ xs.toList) :
    sizeOf x < sizeOf (list xs) := by
  obtain ⟨cell, hcell, rfl⟩ := List.mem_map.mp h
  have := List.sizeOf_lt_of_mem hcell
  cases xs
  cases cell
  simp at this ⊢
  omega

theorem partialCmp_of_rank_ne {a b : Value} (h : a.rank ≠ b.rank) :
    partialCmp a b = some (compare a.rank b.rank) := by
  cases a <;> cases b <;> first | exact absurd rfl h | rfl

theorem eq_of_rank_ne {a b : Value} (h : a.rank ≠ b.rank) : eq a b = false := by
  cases a <;> cases b <;> first | exact absurd rfl h | rfl

variable {n : Nat}

theorem elements_below {xs : Chain Value} (h : (list xs).WellFormed ∧ sizeOf (list xs) < n + 1) :
    xs.WellFormed ∧ ∀ x ∈ xs.toList, x.WellFormed ∧ sizeOf x < n := by
  obtain ⟨hwf, hsize⟩ := h
  obtain ⟨hself, helems⟩ := wellFormed_list_iff.mp hwf
  refine ⟨hself, fun x hx => ⟨helems x hx, ?_⟩⟩
  have := sizeOf_lt_of_mem hx
  omega

/-- Values of bounded size are totally ordered.  The elements of a chain are smaller than it, so
that the order of chains over values of smaller size is at hand. -/
theorem totalOrder_below (n : Nat) :
    TotalOrder (fun v : Value => v.WellFormed ∧ sizeOf v < n) cmp partialCmp eq := by
  induction n with
  | zero => constructor <;> intro a <;> intros <;> omega
  | succ n ih =>
    have chain := ih.chain
    have hswap : ∀ a b : Value, (a.WellFormed ∧ sizeOf a < n + 1) →
        (b.WellFormed ∧ sizeOf b < n + 1) → cmp b a = (cmp a b).swap := by
      intro a b ha hb
      by_cases hrank : a.rank = b.rank
      · match a, b, hrank with
        | bool a, bool b, _ => exact TotalOrder.ofOrd.swap a b trivial trivial
        | int a, int b, _ => exact TotalOrder.ofOrd.swap a b trivial trivial
        | str a, str b, _ => exact TotalOrder.ofOrd.swap a b trivial trivial
        | list xs, list ys, _ =>
          rw [cmp_list, cmp_list]
          exact chain.swap xs ys (elements_below ha) (elements_below hb)
      · rw [cmp_of_rank_ne hrank, cmp_of_rank_ne (Ne.symm hrank)]
        exact TotalOrder.ofOrd.swap a.rank b.rank trivial trivial
    refine ⟨?_, hswap, ?_, fun a b ha hb => TotalOrder.total_of_swap (hswap a b ha hb), ?_, ?_⟩
    · intro a ha
      cases a with
      | bool a => exact TotalOrder.ofOrd.refl a trivial
      | int a => exact TotalOrder.ofOrd.refl a trivial
      | str a => exact TotalOrder.ofOrd.refl a trivial
      | list xs =>
        rw [cmp_list]
        exact chain.refl xs (elements_below ha)
    · intro a b c ha hb hc hab hbc
      by_cases hlt : a.rank < c.rank
      · exact isLE_of_rank_lt hlt
      · have hle := rank_le_of_isLE hab
        have hle' := rank_le_of_isLE hbc
        have hrank : a.rank = b.rank := by omega
        have hrank' : b.rank = c.rank := by omega
        match a, b, c, hrank, hrank' with
        | bool a, bool b, bool c, _, _ =>
          exact TotalOrder.ofOrd.trans a b c trivial trivial trivial hab hbc
        | int a, int b, int c, _, _ =>
          exact TotalOrder.ofOrd.trans a b c trivial trivial trivial hab hbc
        | str a, str b, str c, _, _ =>
          exact TotalOrder.ofOrd.trans a b c trivial trivial trivial hab hbc
        | list xs, list ys, list zs, _, _ =>
          rw [cmp_list] at hab hbc ⊢
          exact chain.trans xs ys zs (elements_below ha) (elements_below hb) (elements_below hc)
            hab hbc
    · intro a b ha hb
      by_cases hrank : a.rank = b.rank
      · match a, b, hrank with
        | bool a, bool b, _ => exact TotalOrder.ofOrd.eq_iff a b trivial trivial
        | int a, int b, _ => exact TotalOrder.ofOrd.eq_iff a b trivial trivial
        | str a, str b, _ => exact TotalOrder.ofOrd.eq_iff a b trivial trivial
        | list xs, list ys, _ =>
          rw [cmp_list, eq_list]
          exact chain.eq_iff xs ys (elements_below ha) (elements_below hb)
      · rw [cmp_of_rank_ne hrank, eq_of_rank_ne hrank, Nat.compare_eq_eq]
        simp [hrank]
    · intro a b ha hb
      by_cases hrank : a.rank = b.rank
      · match a, b, hrank with
        | bool _, bool _, _ => rfl
        | int _, int _, _ => rfl
        | str _, str _, _ => rfl
        | list xs, list ys, _ =>
          rw [cmp_list, partialCmp_list]
          exact chain.partialCmp_eq xs ys (elements_below ha) (elements_below hb)
      · rw [cmp_of_rank_ne hrank, partialCmp_of_rank_ne hrank]

/-- Well-formed values are totally ordered. -/
theorem totalOrder : TotalOrder WellFormed cmp partialCmp eq where
  refl a ha := (totalOrder_below (sizeOf a + 1)).refl a ⟨ha, by omega⟩
  swap a b ha hb :=
    (totalOrder_below (sizeOf a + sizeOf b + 1)).swap a b ⟨ha, by omega⟩ ⟨hb, by omega⟩
  trans a b c ha hb hc :=
    (totalOrder_below (sizeOf a + sizeOf b + sizeOf c + 1)).trans a b c ⟨ha, by omega⟩
      ⟨hb, by omega⟩ ⟨hc, by omega⟩
  total a b ha hb :=
    (totalOrder_below (sizeOf a + sizeOf b + 1)).total a b ⟨ha, by omega⟩ ⟨hb, by omega⟩
  eq_iff a b ha hb :=
    (totalOrder_below (sizeOf a + sizeOf b + 1)).eq_iff a b ⟨ha, by omega⟩ ⟨hb, by omega⟩
  partialCmp_eq a b ha hb :=
    (totalOrder_below (sizeOf a + sizeOf b + 1)).partialCmp_eq a b ⟨ha, by omega⟩ ⟨hb, by omega⟩

end Value

/-- **The comparisons of chains are one total order.**  From a total order of the elements it
reaches chains of any depth; values, whose chains are compared by the order of values itself, and
chains of values have it outright. -/
theorem chains_totally_ordered {elemCmp : α → α → Ordering} {elemPartial : α → α → Option Ordering}
    {elemEq : α → α → Bool} (h : TotalOrder (fun _ => True) elemCmp elemPartial elemEq) :
    (∀ depth, TotalOrder (Nest.WellFormed depth) (Nest.cmp elemCmp depth)
      (Nest.partialCmp elemPartial depth) (Nest.eq elemEq depth)) ∧
    TotalOrder Value.WellFormed Value.cmp Value.partialCmp Value.eq ∧
    TotalOrder (fun xs : Chain Value => xs.WellFormed ∧ ∀ x ∈ xs.toList, x.WellFormed)
      (fun xs ys => xs.compareBy ys Value.cmp)
      (fun xs ys => xs.partialCompare ys Value.partialCmp)
      (fun xs ys => xs.equal ys Value.eq) :=
  ⟨h.nest, Value.totalOrder, Value.totalOrder.chain⟩

/-- Chains of numbers, chains of those, and so on. -/
theorem chains_of_numbers_totally_ordered :
    TotalOrder (fun _ : Int64 => True) compare (fun a b => some (compare a b)) (· == ·) ∧
      ∀ depth, TotalOrder (Nest.WellFormed depth)
        (Nest.cmp (compare : Int64 → Int64 → Ordering) depth)
        (Nest.partialCmp (fun a b => some (compare a b)) depth) (Nest.eq (· == ·) depth) :=
  ⟨TotalOrder.ofOrd, (chains_totally_ordered TotalOrder.ofOrd).1⟩

end SharedList
