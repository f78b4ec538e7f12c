import SharedList.Value.Basic
import SharedList.Chain.Hash
import SharedList.Chain.Text
import SharedList.Serial.Codec

/-!
# Values as text, as writes to a hasher, and as serial forms

Each of these treats a chain of values as chains are treated, given how its elements are.

* `Value.display`, `Value.debug` — the text of a value.
* `Value.writes` — what a value feeds to a hasher.
* `Value.encode` — the serial form of a value; `Value.toJson` — its JSON.
-/

set_option autoImplicit false

namespace SharedList.Value

/-- The plain text of a truth value. -/
def boolText (b : Bool) : String := if b then "true" else "false"

/-- The plain text of a value. -/
def display : Value → String
  | bool b => boolText b
  | int n => toString n.toInt
  | str s => s
  | list xs => "[" ++ ", ".intercalate (xs.cells.map fun cell => display cell.value) ++ "]"
decreasing_by
  rename_i h
  have := List.sizeOf_lt_of_mem h
  cases xs; cases cell
  simp at this ⊢
  omega

/-- The precise text of a value at a depth. -/
def debug (style : Text.Style) (depth : Nat) : Value → String
  | bool b => style.bool b
  | int n => style.int n
  | str s => Text.quoted s
  | list xs =>
    style.sequence "[" "]" depth (xs.cells.map fun cell => debug style (depth + 1) cell.value)
termination_by v => sizeOf v
decreasing_by
  rename_i h
  have := List.sizeOf_lt_of_mem h
  cases xs; cases cell
  simp at this ⊢
  omega

/-- What a value feeds to a hasher. -/
def writes : Value → List Write
  | bool b => Write.ofBool b
  | int n => Write.ofInt n
  | str s => Write.ofString s
  | list xs => .usize xs.length :: (xs.cells.map fun cell => writes cell.value).flatten
decreasing_by
  rename_i h
  have := List.sizeOf_lt_of_mem h
  cases xs; cases cell
  simp at this ⊢
  omega

/-- The serial form of a value. -/
def encode : Value → Serial
  | bool b => .bool b
  | int n => .int n.toInt
  | str s => .str s
  | list xs => .seq (some xs.length) (xs.cells.map fun cell => encode cell.value)
decreasing_by
  rename_i h
  have := List.sizeOf_lt_of_mem h
  cases xs; cases cell
  simp at this ⊢
  omega

/-- The JSON of a value. -/
def toJson (v : Value) : Json := v.encode.toJson

/-! ## Chains of values are treated as chains are -/

theorem display_list (xs : Chain Value) : (list xs).display = xs.display display := by
  simp [display, Chain.display, Chain.toList, Function.comp_def]

theorem debug_list (style : Text.Style) (depth : Nat) (xs : Chain Value) :
    (list xs).debug style depth = xs.debug style depth (debug style) := by
  simp [debug, Chain.debug, Chain.toList, Function.comp_def]

theorem writes_list (xs : Chain Value) : (list xs).writes = xs.writes writes := by
  simp [writes, Chain.writes, Chain.toList, List.flatMap, Function.comp_def]

theorem encode_list (xs : Chain Value) : (list xs).encode = xs.encode encode := by
  simp [encode, Chain.encode, Chain.toList, Function.comp_def]

end SharedList.Value
