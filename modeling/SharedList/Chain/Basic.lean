import SharedList.Label

/-!
# Chains: immutable lists that share their tails

A chain is a sequence of labelled cells together with its length, which is **cached**: it is
computed beside the cells by every operation and never counted again.  A chain never changes;
operations return new chains, and a new chain may continue with the very cells of an old one.

* `Chain.toList` is the one view of a chain: its elements, front to back.  Each operation has a
  lemma that says what it does to the view.
* `Chain.same` tells whether two chains start at the very same cell.
* `Chain.cons`, `Chain.tail?`, `Chain.suffix` share the cells they do not add or remove.
* `Chain.ofList`, `Chain.ofArray`, `Chain.consAll` make every cell new.

Making a cell draws a label, so whatever makes cells is a `Fresh` computation.
-/

set_option autoImplicit false

namespace SharedList

/-- An element together with the identity of the cell that holds it. -/
structure Cell (α : Type) where
  label : Label
  value : α

/-- Cells linked front to back, and how many they are said to be. -/
structure Chain (α : Type) where
  cells : List (Cell α)
  length : Nat

/-- Links new cells for `xs` in front of `rest`, the last of them first. -/
def Cell.link {α : Type} (xs : List α) (rest : List (Cell α)) : Fresh (List (Cell α)) :=
  xs.foldrM (fun x cells => return ⟨← Fresh.label, x⟩ :: cells) rest

/-- The cell of the first element is made last. -/
theorem Cell.link_cons {α : Type} (x : α) (xs : List α) (rest : List (Cell α)) (next : Label) :
    Cell.link (x :: xs) rest next =
      (⟨(Cell.link xs rest next).2, x⟩ :: (Cell.link xs rest next).1,
        (Cell.link xs rest next).2 + 1) := by
  simp only [Cell.link, List.foldrM_cons]
  rfl

theorem Cell.map_value_link {α : Type} (xs : List α) (rest : List (Cell α)) (next : Label) :
    (Cell.link xs rest next).1.map (·.value) = xs ++ rest.map (·.value) := by
  induction xs with
  | nil => rfl
  | cons x xs ih => simp [Cell.link_cons, ih]

namespace Chain

variable {α : Type}

/-- The chain without cells. -/
def empty : Chain α := ⟨[], 0⟩

instance : Inhabited (Chain α) := ⟨empty⟩

/-- The elements, front to back. -/
def toList (xs : Chain α) : List α := xs.cells.map (·.value)

/-- A chain is empty when it starts at no cell; the cached length is not consulted. -/
def isEmpty (xs : Chain α) : Bool := xs.cells.isEmpty

@[simp] theorem toList_empty : (empty : Chain α).toList = [] := rfl

theorem isEmpty_iff {xs : Chain α} : xs.isEmpty = true ↔ xs.toList = [] := by
  simp [isEmpty, toList]

/-- Both chains start at the very same cell, or neither starts at any. -/
def same (xs ys : Chain α) : Bool :=
  match xs.cells, ys.cells with
  | [], [] => true
  | x :: _, y :: _ => x.label == y.label
  | _, _ => false

/-! ## Growing at the front -/

/-- Puts `x` into a new cell in front of all cells of `xs`. -/
def cons (x : α) (xs : Chain α) : Fresh (Chain α) :=
  return ⟨⟨← Fresh.label, x⟩ :: xs.cells, xs.length + 1⟩

/-- The chain of one element. -/
def singleton (x : α) : Fresh (Chain α) := empty.cons x

/-- The chain that holds `xs`, with the length of the list as its length. -/
def ofList (xs : List α) : Fresh (Chain α) :=
  return ⟨← Cell.link xs [], xs.length⟩

/-- The chain that holds `xs`, taking the elements off the back of the array one by one. -/
def ofArray (xs : Array α) : Fresh (Chain α) :=
  return ⟨← xs.foldrM (fun x cells => return ⟨← Fresh.label, x⟩ :: cells) [], xs.size⟩

/-- The chain that holds `xs`, by putting them in front of the empty chain from the back. -/
def consAll (xs : List α) : Fresh (Chain α) := xs.foldrM cons empty

@[simp] theorem toList_cons (x : α) (xs : Chain α) (next : Label) :
    (xs.cons x next).1.toList = x :: xs.toList := rfl

@[simp] theorem toList_ofList (xs : List α) (next : Label) : (ofList xs next).1.toList = xs := by
  show (Cell.link xs [] next).1.map (·.value) = xs
  simp [Cell.map_value_link]

theorem ofArray_eq_ofList (xs : Array α) : ofArray xs = ofList xs.toList := by
  simp only [ofArray, ofList, Cell.link, ← Array.foldrM_toList, Array.length_toList]

/-! ## Reading at the front -/

/-- The first element. -/
def head? (xs : Chain α) : Option α :=
  match xs.cells with
  | [] => none
  | cell :: _ => some cell.value

/-- All cells but the first. -/
def tail? (xs : Chain α) : Option (Chain α) :=
  match xs.cells with
  | [] => none
  | _ :: rest => some ⟨rest, xs.length - 1⟩

/-- The first element and all cells but the first. -/
def uncons? (xs : Chain α) : Option (α × Chain α) :=
  match xs.cells with
  | [] => none
  | cell :: rest => some (cell.value, ⟨rest, xs.length - 1⟩)

theorem head?_eq (xs : Chain α) : xs.head? = xs.toList.head? := by
  unfold head? toList
  split <;> simp_all

theorem toList_tail? (xs : Chain α) : xs.tail?.map toList = xs.toList.tail? := by
  unfold tail? toList
  split <;> simp_all

/-! ## Reading further in -/

/-- The element at `index`, found by walking along the cells while counting down. -/
def get? (xs : Chain α) (index : Nat) : Option α :=
  walk xs.cells index
where
  /-- Walks to the cell that lies `remaining` steps ahead. -/
  walk : List (Cell α) → Nat → Option α
    | [], _ => none
    | cell :: _, 0 => some cell.value
    | _ :: rest, remaining + 1 => walk rest remaining

/-- What is left after `count` cells; meant for `count` up to the length. -/
def suffix (xs : Chain α) (count : Nat) : Chain α :=
  ⟨xs.cells.drop count, xs.length - count⟩

theorem walk_eq (cells : List (Cell α)) (index : Nat) :
    get?.walk cells index = (cells.map (·.value))[index]? := by
  induction cells generalizing index with
  | nil => cases index <;> rfl
  | cons cell rest ih =>
    cases index with
    | zero => rfl
    | succ index => simp [get?.walk, ih]

theorem get?_eq (xs : Chain α) (index : Nat) : xs.get? index = xs.toList[index]? :=
  walk_eq xs.cells index

@[simp] theorem toList_suffix (xs : Chain α) (count : Nat) :
    (xs.suffix count).toList = xs.toList.drop count := by
  simp [suffix, toList, List.map_drop]

end Chain

end SharedList
