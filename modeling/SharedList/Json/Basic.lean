import SharedList.Double

/-!
# JSON values

A JSON value keeps whole numbers and floating-point numbers apart, because a list of whole numbers
takes the one and refuses the other.

* `Json.field?` — the value of a member; the last one, where a name occurs more than once.
* `Json.str?`, `Json.nat?`, … — a value read as one of a kind.
-/

set_option autoImplicit false

namespace SharedList

/-- A JSON value. -/
inductive Json where
  | null
  | bool (b : Bool)
  | int (n : Int)
  | float (x : Double)
  | str (s : String)
  | arr (items : List Json)
  | obj (members : List (String × Json))
  deriving Inhabited

namespace Json

/-- The value of the member `name` of an object. -/
def field? (j : Json) (name : String) : Option Json :=
  match j with
  | obj members => (members.reverse.find? (·.1 == name)).map (·.2)
  | _ => none

/-- The text of a JSON string. -/
def str? : Json → Option String
  | str s => some s
  | _ => none

/-- The truth value of a JSON boolean. -/
def bool? : Json → Option Bool
  | bool b => some b
  | _ => none

/-- The items of a JSON array. -/
def arr? : Json → Option (List Json)
  | arr items => some items
  | _ => none

/-- A whole number from zero to below `bound`. -/
def natBelow? (bound : Nat) : Json → Option Nat
  | int n => if 0 ≤ n ∧ n < bound then some n.toNat else none
  | _ => none

/-- A whole number that fits 64 bits without a sign. -/
def nat? (j : Json) : Option Nat := j.natBelow? UInt64.size

/-- A whole number that fits 64 bits with a sign. -/
def int64? : Json → Option Int64
  | int n =>
    if Int64.minValue.toInt ≤ n ∧ n ≤ Int64.maxValue.toInt then some (Int64.ofInt n) else none
  | _ => none

/-- A JSON number from a natural number. -/
def nat (n : Nat) : Json := int n

end Json

end SharedList
