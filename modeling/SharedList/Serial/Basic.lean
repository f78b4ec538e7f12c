import SharedList.Json.Basic

/-!
# The data model of serialised values

Between a value and the text that carries it stands its **serial form**: a tree of scalars,
sequences and maps.  A sequence says beforehand how many items it has, if that is known.

* `Serial.toJson`, `Serial.ofJson` — the serial form as JSON, and JSON as a serial form.
-/

set_option autoImplicit false

namespace SharedList

/-- The serial form of a value. -/
inductive Serial where
  | null
  | bool (b : Bool)
  | int (n : Int)
  | float (x : Double)
  | str (s : String)
  /-- A sequence: how many items it announces, and its items. -/
  | seq (announced : Option Nat) (items : List Serial)
  | map (members : List (String × Serial))
  deriving Inhabited

namespace Serial

/-- The JSON value of a serial form; what a sequence announces does not show. -/
def toJson : Serial → Json
  | null => .null
  | bool b => .bool b
  | int n => .int n
  | float x => .float x
  | str s => .str s
  | seq _ items => .arr (items.map toJson)
  | map members => .obj (members.map fun member => (member.1, toJson member.2))
decreasing_by
  · decreasing_tactic
  · rename_i h
    have := List.sizeOf_lt_of_mem h
    cases member
    simp only [Prod.mk.sizeOf_spec, map.sizeOf_spec] at this ⊢
    omega

/-- The serial form of a JSON value, whose arrays announce how many items they have. -/
def ofJson : Json → Serial
  | .null => null
  | .bool b => bool b
  | .int n => int n
  | .float x => float x
  | .str s => str s
  | .arr items => seq (some items.length) (items.map ofJson)
  | .obj members => map (members.map fun member => (member.1, ofJson member.2))
decreasing_by
  · decreasing_tactic
  · rename_i h
    have := List.sizeOf_lt_of_mem h
    cases member
    simp only [Prod.mk.sizeOf_spec, Json.obj.sizeOf_spec] at this ⊢
    omega

end Serial

end SharedList
