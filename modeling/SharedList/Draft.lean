import SharedList.Chain.Basic

/-!
# Drafts: the buffers in which chains are built

Whatever builds a chain front to back appends its elements to a **draft** and freezes the draft
once the last element is in.  Freezing takes the elements off the back and puts each into a new
cell, so no chain is seen half built.

* `Draft.room` — for how many elements room was asked for when the draft was made.
* `Draft.freeze` — the chain of the drafted elements.
* `Draft.freezeOnto` — the same in front of an existing chain, whose cells are kept.
* `Chain.draft` — a draft that starts with the elements of a chain.
-/

set_option autoImplicit false

namespace SharedList

/-- Elements waiting to be put into cells, in their order. -/
structure Draft (α : Type) where
  items : Array α
  /-- For how many elements room was asked for when the draft was made. -/
  room : Nat

namespace Draft

variable {α : Type}

/-- The draft without elements. -/
def empty : Draft α := ⟨#[], 0⟩

/-- The draft without elements that has room for `capacity` of them. -/
def withCapacity (capacity : Nat) : Draft α := ⟨Array.emptyWithCapacity capacity, capacity⟩

/-- How many elements are drafted. -/
def size (d : Draft α) : Nat := d.items.size

/-- Whether nothing is drafted yet. -/
def isEmpty (d : Draft α) : Bool := d.items.isEmpty

/-- The drafted elements in their order. -/
def toList (d : Draft α) : List α := d.items.toList

/-- Appends one element. -/
def push (d : Draft α) (x : α) : Draft α := { d with items := d.items.push x }

/-- Appends the elements of a list. -/
def extend (d : Draft α) (xs : List α) : Draft α := xs.foldl push d

/-- Freezes the draft in front of `tail`, whose cells are kept and whose length is counted on. -/
def freezeOnto (d : Draft α) (tail : Chain α) : Fresh (Chain α) := d.items.foldrM Chain.cons tail

/-- Freezes the draft into a chain of its own. -/
def freeze (d : Draft α) : Fresh (Chain α) := d.freezeOnto .empty

@[simp] theorem toList_empty : (empty : Draft α).toList = [] := rfl

@[simp] theorem toList_withCapacity (capacity : Nat) :
    (withCapacity capacity : Draft α).toList = [] := rfl

@[simp] theorem toList_push (d : Draft α) (x : α) : (d.push x).toList = d.toList ++ [x] := by
  simp [push, toList]

@[simp] theorem toList_extend (d : Draft α) (xs : List α) :
    (d.extend xs).toList = d.toList ++ xs := by
  induction xs generalizing d with
  | nil => simp [extend]
  | cons x xs ih =>
    have step : d.extend (x :: xs) = (d.push x).extend xs := rfl
    rw [step, ih]
    simp

@[simp] theorem room_withCapacity (capacity : Nat) :
    (withCapacity capacity : Draft α).room = capacity := rfl

/-- Whatever is appended, the room asked for stays what it was. -/
@[simp] theorem room_extend (d : Draft α) (xs : List α) : (d.extend xs).room = d.room := by
  induction xs generalizing d with
  | nil => rfl
  | cons x xs ih => exact ih (d.push x)

theorem size_eq (d : Draft α) : d.size = d.toList.length := by simp [size, toList]

theorem foldrM_cons_apply (xs : List α) (tail : Chain α) (next : Label) :
    xs.foldrM Chain.cons tail next =
      (⟨(Cell.link xs tail.cells next).1, tail.length + xs.length⟩,
        (Cell.link xs tail.cells next).2) := by
  induction xs with
  | nil => rfl
  | cons x xs ih =>
    rw [List.foldrM_cons, Fresh.bind_apply, ih, Cell.link_cons]
    rfl

/-- Freezing links the drafted elements in front of the cells of the tail and counts them on. -/
theorem freezeOnto_apply (d : Draft α) (tail : Chain α) (next : Label) :
    d.freezeOnto tail next =
      (⟨(Cell.link d.toList tail.cells next).1, tail.length + d.size⟩,
        (Cell.link d.toList tail.cells next).2) := by
  rw [freezeOnto, ← Array.foldrM_toList, foldrM_cons_apply, size_eq]
  rfl

@[simp] theorem toList_freezeOnto (d : Draft α) (tail : Chain α) (next : Label) :
    (d.freezeOnto tail next).1.toList = d.toList ++ tail.toList := by
  simp [freezeOnto_apply, Chain.toList, Cell.map_value_link]

end Draft

namespace Chain

variable {α : Type}

/-- A draft that starts with the elements of `xs`. -/
def draft (xs : Chain α) : Draft α := (Draft.withCapacity xs.length).extend xs.toList

@[simp] theorem toList_draft (xs : Chain α) : xs.draft.toList = xs.toList := by
  simp [draft]

/-- The chain that holds `xs`, by way of a draft. -/
def collect (xs : List α) : Fresh (Chain α) := (Draft.empty.extend xs).freeze

/-- The chain that holds `count` times the element `x`. -/
def replicate (count : Nat) (x : α) : Fresh (Chain α) := collect (List.replicate count x)

/-- The chain of the values of `f` at the indices below `count`, which are visited in order. -/
@[specialize] def tabulateM {m : Type → Type} [Monad m] (count : Nat) (f : Nat → m α) :
    m (Fresh (Chain α)) := do
  let d ← (List.range count).foldlM (fun (d : Draft α) index => return d.push (← f index)) .empty
  return d.freeze

end Chain

end SharedList
