import SharedList.Double
import SharedList.Proofs.TotalOrder

/-!
# The partial order of chains

Elements may be incomparable, even with themselves: a double that is no number is.  A chain that
holds one is not equal to itself, so that neither equality nor order may go by the cells that chains
share.  This file shows that `equal`, which looks at the lengths first, and `partialCompare`, which
walks along both chains, agree all the same, and that the chains keep the laws that their elements
keep.

* `PartiallyOrdered` — the laws, for the elements of which a predicate holds;
  `PartiallyOrdered.trans` has all of its transitive laws in one.
* `FirstDifference` — the first position at which two rows of elements are not equal.
* `PartiallyOrdered.lex_eq_iff`, `lex_swap`, `lex_trans`, `lex_eq_none_iff` — row by row.
* `PartiallyOrdered.chain` — from the elements to the chains.
* `Double.partiallyOrdered` — doubles keep the laws.
-/

set_option autoImplicit false

namespace SharedList

open Chain.partialCompare (decideFirst)

variable {α : Type}

/-- On the elements of which `good` holds, the two comparisons are one partial order, in which
elements may be incomparable. -/
structure PartiallyOrdered (good : α → Prop) (partialCmp : α → α → Option Ordering)
    (eq : α → α → Bool) : Prop where
  eq_iff : ∀ a b, good a → good b → (partialCmp a b = some .eq ↔ eq a b = true)
  swap : ∀ a b, good a → good b → partialCmp b a = (partialCmp a b).map .swap
  eq_trans : ∀ a b c, good a → good b → good c →
    eq a b = true → eq b c = true → eq a c = true
  lt_trans : ∀ a b c, good a → good b → good c →
    partialCmp a b = some .lt → partialCmp b c = some .lt → partialCmp a c = some .lt
  lt_of_eq_of_lt : ∀ a b c, good a → good b → good c →
    eq a b = true → partialCmp b c = some .lt → partialCmp a c = some .lt
  lt_of_lt_of_eq : ∀ a b c, good a → good b → good c →
    partialCmp a b = some .lt → eq b c = true → partialCmp a c = some .lt

/-- Position `index` is the first at which the rows are not equal; they hold `x` and `y` there. -/
structure FirstDifference (eq : α → α → Bool) (xs ys : List α) (index : Nat) (x y : α) : Prop where
  left : xs[index]? = some x
  right : ys[index]? = some y
  differ : eq x y = false
  before : ∀ i < index, ∃ a b, xs[i]? = some a ∧ ys[i]? = some b ∧ eq a b = true

namespace FirstDifference

variable {eq : α → α → Bool} {xs ys : List α} {index : Nat} {x y a b : α}

theorem zero (h : eq x y = false) : FirstDifference eq (x :: xs) (y :: ys) 0 x y :=
  ⟨rfl, rfl, h, nofun⟩

/-- The first difference comes one position later behind equal elements. -/
theorem succ_iff (hab : eq a b = true) :
    FirstDifference eq (a :: xs) (b :: ys) (index + 1) x y ↔
      FirstDifference eq xs ys index x y := by
  constructor
  · intro h
    refine ⟨by simpa using h.left, by simpa using h.right, h.differ, fun i hi => ?_⟩
    simpa using h.before (i + 1) (Nat.succ_lt_succ hi)
  · intro h
    refine ⟨by simpa using h.left, by simpa using h.right, h.differ, fun i hi => ?_⟩
    cases i with
    | zero => exact ⟨a, b, rfl, rfl, hab⟩
    | succ i => simpa using h.before i (Nat.lt_of_succ_lt_succ hi)

/-- It comes at once where the foremost elements are not equal. -/
theorem index_eq_zero (h : FirstDifference eq (a :: xs) (b :: ys) index x y)
    (hab : eq a b = false) : index = 0 ∧ a = x ∧ b = y := by
  have hindex : index = 0 := by
    refine Nat.eq_zero_of_not_pos fun hpos => ?_
    obtain ⟨a', b', ha, hb, heq⟩ := h.before 0 hpos
    cases ha
    cases hb
    rw [hab] at heq
    cases heq
  subst hindex
  exact ⟨rfl, Option.some.inj h.left, Option.some.inj h.right⟩

end FirstDifference

/-! ## Comparing row by row -/

section Rows

variable {cmp : α → α → Option Ordering} {x y : α} (xs ys : List α)

theorem decideFirst_of_eq (h : cmp x y = some .eq) :
    decideFirst cmp (x :: xs) (y :: ys) = decideFirst cmp xs ys := by
  simp [decideFirst, h]

theorem decideFirst_of_ne (h : cmp x y ≠ some .eq) :
    decideFirst cmp (x :: xs) (y :: ys) = cmp x y := by
  rw [decideFirst]
  split
  · rename_i heq
    exact absurd heq h
  · rfl

/-- Rows are decided by their foremost elements, or, when these are equal, behind them. -/
theorem decideFirst_eq_some_iff {o : Ordering} :
    decideFirst cmp (x :: xs) (y :: ys) = some o ↔
      cmp x y = some .eq ∧ decideFirst cmp xs ys = some o ∨ cmp x y = some o ∧ o ≠ .eq := by
  by_cases h : cmp x y = some .eq
  · rw [decideFirst_of_eq xs ys h]
    simp [h, eq_comm]
  · rw [decideFirst_of_ne xs ys h]
    constructor
    · intro ho
      exact .inr ⟨ho, fun heq => h (heq ▸ ho)⟩
    · rintro (⟨heq, -⟩ | ⟨ho, -⟩)
      · exact absurd heq h
      · exact ho

end Rows

namespace PartiallyOrdered

variable {good : α → Prop} {partialCmp : α → α → Option Ordering} {eq : α → α → Bool}

/-- The transitive laws follow from one: where `a` is at most `b` and `b` at most `c`, the stricter
of the two comparisons is that of `a` and `c`. -/
theorem of_trans
    (eq_iff : ∀ a b, good a → good b → (partialCmp a b = some .eq ↔ eq a b = true))
    (swap : ∀ a b, good a → good b → partialCmp b a = (partialCmp a b).map .swap)
    (trans : ∀ a b c o o', good a → good b → good c → partialCmp a b = some o →
      partialCmp b c = some o' → o.isLE → o'.isLE → partialCmp a c = some (o.then o')) :
    PartiallyOrdered good partialCmp eq where
  eq_iff := eq_iff
  swap := swap
  eq_trans a b c ha hb hc hab hbc :=
    (eq_iff a c ha hc).mp <| trans a b c .eq .eq ha hb hc ((eq_iff a b ha hb).mpr hab)
      ((eq_iff b c hb hc).mpr hbc) rfl rfl
  lt_trans a b c ha hb hc hab hbc := trans a b c .lt .lt ha hb hc hab hbc rfl rfl
  lt_of_eq_of_lt a b c ha hb hc hab hbc :=
    trans a b c .eq .lt ha hb hc ((eq_iff a b ha hb).mpr hab) hbc rfl rfl
  lt_of_lt_of_eq a b c ha hb hc hab hbc :=
    trans a b c .lt .eq ha hb hc hab ((eq_iff b c hb hc).mpr hbc) rfl rfl

theorem trans (h : PartiallyOrdered good partialCmp eq) {a b c : α} {o o' : Ordering}
    (ha : good a) (hb : good b) (hc : good c) (hab : partialCmp a b = some o)
    (hbc : partialCmp b c = some o') (ho : o.isLE) (ho' : o'.isLE) :
    partialCmp a c = some (o.then o') := by
  cases o with
  | lt =>
    cases o' with
    | lt => exact h.lt_trans a b c ha hb hc hab hbc
    | eq => exact h.lt_of_lt_of_eq a b c ha hb hc hab ((h.eq_iff b c hb hc).mp hbc)
    | gt => cases ho'
  | eq =>
    have hab := (h.eq_iff a b ha hb).mp hab
    cases o' with
    | lt => exact h.lt_of_eq_of_lt a b c ha hb hc hab hbc
    | eq =>
      have hbc := (h.eq_iff b c hb hc).mp hbc
      exact (h.eq_iff a c ha hc).mpr (h.eq_trans a b c ha hb hc hab hbc)
    | gt => cases ho'
  | gt => cases ho

theorem eq_eq_false (h : PartiallyOrdered good partialCmp eq) {a b : α} (ha : good a) (hb : good b)
    (hab : partialCmp a b ≠ some .eq) : eq a b = false :=
  Bool.eq_false_iff.mpr fun heq => hab ((h.eq_iff a b ha hb).mpr heq)

theorem lt_irrefl (h : PartiallyOrdered good partialCmp eq) {a : α} (ha : good a) :
    partialCmp a a ≠ some .lt := by
  intro hlt
  have hswap := h.swap a a ha ha
  rw [hlt] at hswap
  cases hswap

/-! ## Rows of elements -/

theorem lex_eq_iff (h : PartiallyOrdered good partialCmp eq) {xs ys : List α}
    (hxs : ∀ x ∈ xs, good x) (hys : ∀ y ∈ ys, good y) :
    decideFirst partialCmp xs ys = some .eq ↔
      xs.length = ys.length ∧ ∀ p ∈ xs.zip ys, eq p.1 p.2 = true := by
  induction xs generalizing ys with
  | nil => cases ys <;> simp [decideFirst]
  | cons x xs ih =>
    cases ys with
    | nil => simp [decideFirst]
    | cons y ys =>
      obtain ⟨hx, hxs⟩ := List.forall_mem_cons.mp hxs
      obtain ⟨hy, hys⟩ := List.forall_mem_cons.mp hys
      rw [List.zip_cons_cons, List.forall_mem_cons, List.length_cons, List.length_cons,
        Nat.add_right_cancel_iff, ← h.eq_iff x y hx hy]
      by_cases hxy : partialCmp x y = some .eq
      · rw [decideFirst_of_eq xs ys hxy, ih hxs hys]
        simp [hxy]
      · rw [decideFirst_of_ne xs ys hxy]
        simp [hxy]

theorem lex_swap (h : PartiallyOrdered good partialCmp eq) {xs ys : List α}
    (hxs : ∀ x ∈ xs, good x) (hys : ∀ y ∈ ys, good y) :
    decideFirst partialCmp ys xs = (decideFirst partialCmp xs ys).map .swap := by
  induction xs generalizing ys with
  | nil => cases ys <;> rfl
  | cons x xs ih =>
    cases ys with
    | nil => rfl
    | cons y ys =>
      obtain ⟨hx, hxs⟩ := List.forall_mem_cons.mp hxs
      obtain ⟨hy, hys⟩ := List.forall_mem_cons.mp hys
      have hswap := h.swap x y hx hy
      by_cases hxy : partialCmp x y = some .eq
      · rw [hxy] at hswap
        rw [decideFirst_of_eq ys xs hswap, decideFirst_of_eq xs ys hxy, ih hxs hys]
      · have hyx : partialCmp y x ≠ some .eq := fun heq =>
          hxy (by rw [h.swap y x hy hx, heq]; rfl)
        rw [decideFirst_of_ne ys xs hyx, decideFirst_of_ne xs ys hxy, hswap]

theorem lex_trans (h : PartiallyOrdered good partialCmp eq) {xs ys zs : List α} {o o' : Ordering}
    (hxs : ∀ x ∈ xs, good x) (hys : ∀ y ∈ ys, good y) (hzs : ∀ z ∈ zs, good z)
    (hxy : decideFirst partialCmp xs ys = some o) (hyz : decideFirst partialCmp ys zs = some o')
    (ho : o.isLE) (ho' : o'.isLE) : decideFirst partialCmp xs zs = some (o.then o') := by
  -- The first of the three rows to end, or the first position where two of them differ, decides.
  induction xs generalizing ys zs with
  | nil =>
    cases ys with
    | nil =>
      cases hxy
      rw [hyz]
      rfl
    | cons y ys =>
      cases hxy
      cases zs with
      | nil => cases hyz; cases ho'
      | cons z zs => rfl
  | cons x xs ih =>
    cases ys with
    | nil => cases hxy; cases ho
    | cons y ys =>
      cases zs with
      | nil => cases hyz; cases ho'
      | cons z zs =>
        obtain ⟨hx, hxs⟩ := List.forall_mem_cons.mp hxs
        obtain ⟨hy, hys⟩ := List.forall_mem_cons.mp hys
        obtain ⟨hz, hzs⟩ := List.forall_mem_cons.mp hzs
        rw [decideFirst_eq_some_iff] at hxy hyz ⊢
        rcases hxy with ⟨hxy₀, hxy⟩ | ⟨hxy, hne⟩
        · rcases hyz with ⟨hyz₀, hyz⟩ | ⟨hyz, hne'⟩
          · exact .inl ⟨h.trans hx hy hz hxy₀ hyz₀ rfl rfl, ih hxs hys hzs hxy hyz⟩
          · obtain rfl := (Ordering.isLE_iff_eq_lt_or_eq_eq.mp ho').resolve_right hne'
            have hxz := h.trans hx hy hz hxy₀ hyz rfl rfl
            cases o with
            | lt => exact .inr ⟨hxz, nofun⟩
            | eq => exact .inr ⟨hxz, nofun⟩
            | gt => cases ho
        · obtain rfl := (Ordering.isLE_iff_eq_lt_or_eq_eq.mp ho).resolve_right hne
          rcases hyz with ⟨hyz₀, -⟩ | ⟨hyz, -⟩
          · have hxz := h.trans hx hy hz hxy hyz₀ rfl rfl
            exact .inr ⟨hxz, nofun⟩
          · have hxz := h.trans hx hy hz hxy hyz rfl ho'
            exact .inr ⟨hxz, nofun⟩

/-- Rows are incomparable just when the elements at their first difference are. -/
theorem lex_eq_none_iff (h : PartiallyOrdered good partialCmp eq) {xs ys : List α}
    (hxs : ∀ x ∈ xs, good x) (hys : ∀ y ∈ ys, good y) :
    decideFirst partialCmp xs ys = none ↔
      ∃ index x y, FirstDifference eq xs ys index x y ∧ partialCmp x y = none := by
  induction xs generalizing ys with
  | nil =>
    refine ⟨fun hnone => ?_, fun ⟨index, x, y, hdiff, _⟩ => ?_⟩
    · cases ys <;> cases hnone
    · cases hdiff.left
  | cons x xs ih =>
    cases ys with
    | nil =>
      refine ⟨nofun, fun ⟨index, x, y, hdiff, _⟩ => ?_⟩
      cases hdiff.right
    | cons y ys =>
      obtain ⟨hx, hxs⟩ := List.forall_mem_cons.mp hxs
      obtain ⟨hy, hys⟩ := List.forall_mem_cons.mp hys
      by_cases hxy : partialCmp x y = some .eq
      · have heq := (h.eq_iff x y hx hy).mp hxy
        rw [decideFirst_of_eq xs ys hxy, ih hxs hys]
        constructor
        · rintro ⟨index, a, b, hdiff, hnone⟩
          exact ⟨index + 1, a, b, (FirstDifference.succ_iff heq).mpr hdiff, hnone⟩
        · rintro ⟨index, a, b, hdiff, hnone⟩
          cases index with
          | zero =>
            cases hdiff.left
            cases hdiff.right
            rw [hxy] at hnone
            cases hnone
          | succ index => exact ⟨index, a, b, (FirstDifference.succ_iff heq).mp hdiff, hnone⟩
      · have hne := h.eq_eq_false hx hy hxy
        rw [decideFirst_of_ne xs ys hxy]
        constructor
        · intro hnone
          exact ⟨0, x, y, .zero hne, hnone⟩
        · rintro ⟨index, a, b, hdiff, hnone⟩
          obtain ⟨-, rfl, rfl⟩ := hdiff.index_eq_zero hne
          exact hnone

/-! ## Chains of elements -/

/-- A partial order of the elements makes one of the well-formed chains. -/
theorem chain (h : PartiallyOrdered good partialCmp eq) :
    PartiallyOrdered (fun xs : Chain α => xs.WellFormed ∧ ∀ x ∈ xs.toList, good x)
      (fun xs ys => xs.partialCompare ys partialCmp) (fun xs ys => xs.equal ys eq) := by
  refine of_trans ?_ ?_ ?_
  · intro xs ys hxs hys
    -- The cached lengths agree exactly when the numbers of elements do.
    rw [Chain.equal_eq_true_iff, ← hxs.1.toList_length, ← hys.1.toList_length]
    exact h.lex_eq_iff hxs.2 hys.2
  · intro xs ys hxs hys
    exact h.lex_swap hxs.2 hys.2
  · intro xs ys zs o o' hxs hys hzs hxy hyz ho ho'
    exact h.lex_trans hxs.2 hys.2 hzs.2 hxy hyz ho ho'

end PartiallyOrdered

namespace Chain

/-! ## Shared cells make no difference -/

section Sharing

variable {xs xs' ys ys' : Chain α} {partialCmp : α → α → Option Ordering} {eq : α → α → Bool}

theorem WellFormed.length_congr (hxs : xs.WellFormed) (hxs' : xs'.WellFormed)
    (h : xs'.toList = xs.toList) : xs'.length = xs.length := by
  rw [← hxs.toList_length, ← hxs'.toList_length, h]

theorem partialCompare_congr (hx : xs'.toList = xs.toList) (hy : ys'.toList = ys.toList) :
    xs'.partialCompare ys' partialCmp = xs.partialCompare ys partialCmp := by
  rw [partialCompare, partialCompare, hx, hy]

theorem equal_congr (hlx : xs'.length = xs.length) (hx : xs'.toList = xs.toList)
    (hly : ys'.length = ys.length) (hy : ys'.toList = ys.toList) :
    xs'.equal ys' eq = xs.equal ys eq := by
  rw [Bool.eq_iff_iff, equal_eq_true_iff, equal_eq_true_iff, hlx, hx, hly, hy]

/-- A chain equals itself just when each of its elements does. -/
theorem equal_self_iff : xs.equal xs eq = true ↔ ∀ x ∈ xs.toList, eq x x = true := by
  rw [equal_eq_true_iff, and_iff_right rfl]
  induction xs.toList with
  | nil => simp
  | cons x xs ih => rw [List.zip_cons_cons, List.forall_mem_cons, List.forall_mem_cons, ih]

end Sharing

end Chain

/-! ## Doubles -/

namespace Double

theorem partialCmp_eq_some_iff {a b : Double} {o : Ordering} :
    partialCmp a b = some o ↔
      a.isNaN = false ∧ b.isNaN = false ∧ compare a.key b.key = o := by
  unfold partialCmp
  cases a.isNaN <;> cases b.isNaN <;> simp

theorem eq_eq_true_iff {a b : Double} :
    eq a b = true ↔ a.isNaN = false ∧ b.isNaN = false ∧ a.key = b.key := by
  simp [eq, and_assoc]

/-- Doubles are partially ordered; what is no number is comparable with nothing. -/
theorem partiallyOrdered : PartiallyOrdered (fun _ : Double => True) partialCmp eq where
  eq_iff a b _ _ := by
    rw [partialCmp_eq_some_iff, eq_eq_true_iff, Int.compare_eq_eq]
  swap a b _ _ := by
    have hswap : compare b.key a.key = (compare a.key b.key).swap := Std.OrientedCmp.eq_swap
    unfold partialCmp
    rw [Bool.or_comm, hswap]
    split <;> rfl
  eq_trans a b c _ _ _ hab hbc := by
    rw [eq_eq_true_iff] at *
    exact ⟨hab.1, hbc.2.1, hab.2.2.trans hbc.2.2⟩
  lt_trans a b c _ _ _ hab hbc := by
    rw [partialCmp_eq_some_iff, Int.compare_eq_lt] at *
    exact ⟨hab.1, hbc.2.1, Int.lt_trans hab.2.2 hbc.2.2⟩
  lt_of_eq_of_lt a b c _ _ _ hab hbc := by
    rw [eq_eq_true_iff] at hab
    rw [partialCmp_eq_some_iff, Int.compare_eq_lt] at *
    exact ⟨hab.1, hbc.2.1, hab.2.2 ▸ hbc.2.2⟩
  lt_of_lt_of_eq a b c _ _ _ hab hbc := by
    rw [eq_eq_true_iff] at hbc
    rw [partialCmp_eq_some_iff, Int.compare_eq_lt] at *
    exact ⟨hab.1, hbc.2.1, hbc.2.2 ▸ hab.2.2⟩

end Double

/-- **The comparisons of chains are one partial order** if those of the elements are.  Equality and
order agree and keep the laws; chains are incomparable just when the elements at their first
difference are; no chain is less than itself; and a chain equals itself, as it does any other chain
of the same elements, just when each element equals itself, for it makes no difference to equality
or order which cells the chains share. -/
theorem chains_partially_ordered {good : α → Prop} {partialCmp : α → α → Option Ordering}
    {eq : α → α → Bool} (h : PartiallyOrdered good partialCmp eq) :
    PartiallyOrdered (fun xs : Chain α => xs.WellFormed ∧ ∀ x ∈ xs.toList, good x)
      (fun xs ys => xs.partialCompare ys partialCmp) (fun xs ys => xs.equal ys eq) ∧
    (∀ xs ys : Chain α, (∀ x ∈ xs.toList, good x) → (∀ y ∈ ys.toList, good y) →
      (xs.partialCompare ys partialCmp = none ↔ ∃ index x y,
        FirstDifference eq xs.toList ys.toList index x y ∧ partialCmp x y = none)) ∧
    (∀ xs : Chain α, xs.WellFormed → (∀ x ∈ xs.toList, good x) →
      xs.partialCompare xs partialCmp ≠ some .lt) ∧
    (∀ xs copy : Chain α, xs.WellFormed → copy.WellFormed → copy.toList = xs.toList →
      ((xs.equal xs eq = true ↔ ∀ x ∈ xs.toList, eq x x = true) ∧
        (xs.equal copy eq = true ↔ ∀ x ∈ xs.toList, eq x x = true))) ∧
    (∀ xs xs' ys ys' : Chain α, xs.WellFormed → xs'.WellFormed → ys.WellFormed → ys'.WellFormed →
      xs'.toList = xs.toList → ys'.toList = ys.toList →
        xs'.equal ys' eq = xs.equal ys eq ∧
          xs'.partialCompare ys' partialCmp = xs.partialCompare ys partialCmp) := by
  refine ⟨h.chain, fun xs ys hxs hys => h.lex_eq_none_iff hxs hys,
    fun xs wf hxs => h.chain.lt_irrefl ⟨wf, hxs⟩, ?_, ?_⟩
  · intro xs copy wf wfc hcopy
    refine ⟨Chain.equal_self_iff, ?_⟩
    rw [Chain.equal_congr rfl rfl (wf.length_congr wfc hcopy) hcopy]
    exact Chain.equal_self_iff
  · intro xs xs' ys ys' wfx wfx' wfy wfy' hx hy
    exact ⟨Chain.equal_congr (wfx.length_congr wfx' hx) hx (wfy.length_congr wfy' hy) hy,
      Chain.partialCompare_congr hx hy⟩

/-- A number and a double that is none, the same in other cells, and two numbers: the first two
chains differ from themselves and from each other, and neither compares with the third. -/
theorem chains_of_doubles_partially_ordered :
    let xs : Chain Double := ⟨[⟨1, .inf⟩, ⟨0, .nan⟩], 2⟩
    let copy : Chain Double := ⟨[⟨3, .inf⟩, ⟨2, .nan⟩], 2⟩
    let ys : Chain Double := ⟨[⟨5, .inf⟩, ⟨4, .inf⟩], 2⟩
    PartiallyOrdered (fun _ : Double => True) Double.partialCmp Double.eq ∧
      xs.WellFormed ∧ copy.WellFormed ∧ copy.toList = xs.toList ∧
      xs.partialCompare ys Double.partialCmp = none ∧ xs.equal xs Double.eq = false ∧
      xs.equal copy Double.eq = false := by
  intro xs copy ys
  have wf : xs.WellFormed := ⟨rfl, by decide⟩
  have wfc : copy.WellFormed := ⟨rfl, by decide⟩
  obtain ⟨-, hnone, -, hself, -⟩ := chains_partially_ordered Double.partiallyOrdered
  obtain ⟨hxs, hcopy⟩ := hself xs copy wf wfc rfl
  have hnan : ¬ ∀ x ∈ xs.toList, Double.eq x x = true := by decide
  refine ⟨Double.partiallyOrdered, wf, wfc, rfl, ?_, ?_, ?_⟩
  · refine (hnone xs ys (fun _ _ => trivial) fun _ _ => trivial).mpr
      ⟨1, .nan, .inf, ⟨rfl, rfl, by decide, fun i hi => ?_⟩, by decide⟩
    obtain rfl : i = 0 := by omega
    exact ⟨.inf, .inf, rfl, rfl, by decide⟩
  · exact Bool.eq_false_iff.mpr fun heq => hnan (hxs.mp heq)
  · exact Bool.eq_false_iff.mpr fun heq => hnan (hcopy.mp heq)

end SharedList
