/-!
# Labels and their supply

Every cell of a chain carries a **label**, which is its identity: two chains share a cell exactly
when they hold a cell of the same label.  Labels are handed out by a supply that only counts up,
so a label drawn now differs from every label drawn before.

* `Label` — an identity.
* `Fresh` — a computation that may make cells: it is given the next unused label and hands on the
  one that is unused when it is done.
* `Fresh.label` — draws one label.
-/

set_option autoImplicit false

namespace SharedList

/-- The identity of a cell. -/
abbrev Label := Nat

/-- A computation that draws labels from a supply that only counts up. -/
abbrev Fresh := StateM Label

namespace Fresh

/-- Draws the next unused label. -/
def label : Fresh Label := fun next => (next, next + 1)

/-- One computation after the other: the second draws from where the first has come to. -/
theorem bind_apply {α β : Type} (first : Fresh α) (second : α → Fresh β) (next : Label) :
    (first >>= second) next = second (first next).1 (first next).2 := rfl

end Fresh

end SharedList
