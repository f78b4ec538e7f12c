import SharedList.Value.Basic
import SharedList.Chain.Order

/-!
# Equality and order of values

Truth values come before numbers, numbers before texts and texts before chains.  Within a kind the
order is the usual one, that of texts by their characters, and that of chains the order of chains
over this very order of their elements.

* `Value.cmp`, `Value.partialCmp`, `Value.eq` — the order, the order that may be undecided, and
  equality.
* `Value.cmp_list`, `Value.partialCmp_list`, `Value.eq_list` — chains of values are compared as
  chains are.
-/

set_option autoImplicit false

namespace SharedList.Value

/-- The place of a value's kind among the kinds. -/
def rank : Value → Nat
  | bool _ => 0
  | int _ => 1
  | str _ => 2
  | list _ => 3

mutual

/-- The total order of values. -/
def cmp : Value → Value → Ordering
  | bool a, bool b => compare a b
  | int a, int b => compare a b
  | str a, str b => compare a b
  | list ⟨xs, _⟩, list ⟨ys, _⟩ => cmpCells xs ys
  | a, b => compare a.rank b.rank

/-- The lexicographic order of cells over the order of their values. -/
def cmpCells : List (Cell Value) → List (Cell Value) → Ordering
  | [], [] => .eq
  | [], _ :: _ => .lt
  | _ :: _, [] => .gt
  | ⟨_, x⟩ :: xs, ⟨_, y⟩ :: ys =>
    match cmp x y with
    | .eq => cmpCells xs ys
    | decided => decided

end

mutual

/-- The order of values that the order of chains with incomparable elements is made of. -/
def partialCmp : Value → Value → Option Ordering
  | bool a, bool b => some (compare a b)
  | int a, int b => some (compare a b)
  | str a, str b => some (compare a b)
  | list ⟨xs, _⟩, list ⟨ys, _⟩ => partialCmpCells xs ys
  | a, b => some (compare a.rank b.rank)

/-- The lexicographic order of cells; a first deciding pair without an order leaves them without
one. -/
def partialCmpCells : List (Cell Value) → List (Cell Value) → Option Ordering
  | [], [] => some .eq
  | [], _ :: _ => some .lt
  | _ :: _, [] => some .gt
  | ⟨_, x⟩ :: xs, ⟨_, y⟩ :: ys =>
    match partialCmp x y with
    | some .eq => partialCmpCells xs ys
    | decided => decided

end

mutual

/-- Equality of values, whatever cells they share. -/
def eq : Value → Value → Bool
  | bool a, bool b => a == b
  | int a, int b => a == b
  | str a, str b => a == b
  | list ⟨xs, m⟩, list ⟨ys, n⟩ => m == n && eqCells xs ys
  | _, _ => false

/-- Whether the values of cells at equal positions are equal, up to the end of the shorter. -/
def eqCells : List (Cell Value) → List (Cell Value) → Bool
  | ⟨_, x⟩ :: xs, ⟨_, y⟩ :: ys => if eq x y then eqCells xs ys else false
  | _, _ => true

end

instance : Ord Value := ⟨cmp⟩
instance : BEq Value := ⟨eq⟩

/-! ## Chains of values compare as chains do -/

theorem cmpCells_eq_decideFirst (xs ys : List (Cell Value)) :
    cmpCells xs ys =
      Chain.compareM.decideFirst (m := Id) (fun x y => pure (cmp x y)) (xs.map (·.value))
        (ys.map (·.value)) := by
  induction xs generalizing ys with
  | nil => cases ys <;> rfl
  | cons x xs ih =>
    cases ys with
    | nil => rfl
    | cons y ys =>
      simp only [cmpCells, List.map_cons, Chain.compareM.decideFirst]
      cases h : cmp x.value y.value <;> simp [ih, pure, bind]

/-- Two chains of values compare as chains do over the order of values. -/
theorem cmp_list (xs ys : Chain Value) : cmp (list xs) (list ys) = xs.compareBy ys cmp := by
  simp only [cmp, Chain.compareBy, Chain.compareM, Chain.toList, cmpCells_eq_decideFirst, Id.run]

theorem partialCmpCells_eq_decideFirst (xs ys : List (Cell Value)) :
    partialCmpCells xs ys =
      Chain.partialCompare.decideFirst partialCmp (xs.map (·.value)) (ys.map (·.value)) := by
  induction xs generalizing ys with
  | nil => cases ys <;> rfl
  | cons x xs ih =>
    cases ys with
    | nil => rfl
    | cons y ys =>
      rw [partialCmpCells, ih]
      rfl

/-- Two chains of values compare as chains do over the order of values that may be undecided. -/
theorem partialCmp_list (xs ys : Chain Value) :
    partialCmp (list xs) (list ys) = xs.partialCompare ys partialCmp :=
  partialCmpCells_eq_decideFirst xs.cells ys.cells

theorem eqCells_eq_ask (xs ys : List (Cell Value)) :
    eqCells xs ys =
      Chain.allM₂.ask (m := Id) (fun x y => pure (eq x y)) (xs.map (·.value))
        (ys.map (·.value)) := by
  induction xs generalizing ys with
  | nil => cases ys <;> rfl
  | cons x xs ih =>
    cases ys with
    | nil => rfl
    | cons y ys =>
      simp only [eqCells, List.map_cons, Chain.allM₂.ask]
      cases h : eq x.value y.value <;> simp [ih, pure, bind]

/-- Two chains of values are equal as chains are over the equality of values. -/
theorem eq_list (xs ys : Chain Value) : eq (list xs) (list ys) = xs.equal ys eq := by
  simp only [eq, Chain.equal, Chain.equalM, Chain.allM₂, Chain.toList, eqCells_eq_ask, Id.run]
  by_cases h : xs.length = ys.length <;> simp [h, pure]

end SharedList.Value
