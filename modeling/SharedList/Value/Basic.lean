import SharedList.Chain.Basic

/-!
# Values: the elements of the chains of a session

A value is a truth value, a signed number of 64 bits, a text, or a chain of values.  Its content
without the identities of cells is a **datum**; that is how a value is written in a program.

* `Value.ofDatum` makes the value of a datum, all of its cells new.
* `Value.number` is a value read as a number, and `Value.isTrue` read as a truth value.
-/

set_option autoImplicit false

namespace SharedList

/-- The content of a value. -/
inductive Datum where
  | bool (b : Bool)
  | int (n : Int64)
  | str (s : String)
  | list (items : List Datum)
  deriving Inhabited

/-- An element: a scalar or a chain of elements. -/
inductive Value where
  | bool (b : Bool)
  | int (n : Int64)
  | str (s : String)
  | list (xs : Chain Value)

instance : Inhabited Value := ⟨.int 0⟩

namespace Value

mutual

/-- Makes the value of a datum. -/
def ofDatum : Datum → Fresh Value
  | .bool b => return .bool b
  | .int n => return .int n
  | .str s => return .str s
  | .list items => return .list (← Chain.ofList (← ofData [] items))

/-- Makes the values of data, front to back, after those made so far. -/
def ofData (made : List Value) : List Datum → Fresh (List Value)
  | [] => return made.reverse
  | d :: ds => do ofData ((← ofDatum d) :: made) ds

end

/-- A value read as a number: a truth value as 0 or 1, a text as the number of its characters, a
chain as its length. -/
def number : Value → Int64
  | bool b => if b then 1 else 0
  | int n => n
  | str s => Int64.ofNat s.length
  | list xs => Int64.ofNat xs.length

/-- A value read as a truth value. -/
def isTrue (v : Value) : Bool := v.number != 0

/-- A value read as a comparison: below zero, zero, or above. -/
def ordering (v : Value) : Ordering := compare v.number 0

/-- The value of a comparison. -/
def ofOrdering : Ordering → Value
  | .lt => int (-1)
  | .eq => int 0
  | .gt => int 1

end Value

end SharedList
