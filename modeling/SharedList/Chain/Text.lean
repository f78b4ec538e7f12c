import SharedList.Chain.Basic
import SharedList.Text.Style

/-!
# Written chains

A chain is written as its elements in brackets, separated by a comma and a blank.

* `Chain.display` — plainly, with the elements written plainly.
* `Chain.debug` — precisely, the flags being those of the elements, too.
-/

set_option autoImplicit false

namespace SharedList.Chain

variable {α : Type}

/-- The chain written plainly. -/
def display (xs : Chain α) (element : α → String) : String :=
  "[" ++ ", ".intercalate (xs.toList.map element) ++ "]"

/-- The chain written precisely at a depth; elements are written at the next. -/
def debug (xs : Chain α) (style : Text.Style) (depth : Nat) (element : Nat → α → String) : String :=
  style.sequence "[" "]" depth (xs.toList.map (element (depth + 1)))

end SharedList.Chain
