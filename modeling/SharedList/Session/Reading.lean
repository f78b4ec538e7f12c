import SharedList.Chain.Cursor
import SharedList.Chain.Order
import SharedList.Session.Outcome

/-!
# Commands that read chains

* The front of a chain and the element at an index, leniently and strictly.
* The length, all elements, and readers that go step by step.
* Whether two chains start at the same cell, and how they compare.
-/

set_option autoImplicit false

namespace SharedList

/-- The commands that read chains. -/
inductive Reading where
  | head (source : String)
  | tryHead (source : String)
  | tail (source : String)
  | tryTail (source : String)
  | uncons (source : String)
  | get (source : String) (index : Nat)
  | tryGet (source : String) (index : Nat)
  | length (source : String)
  | elements (source : String)
  | cursor (source : String) (script : List Request)
  | drain (source : String) (script : List Request)
  | same (source other : String)
  | compare (source other : String)
  | compareLength (source other : String)

namespace Reading

/-- The JSON of an element that may be missing. -/
def element? (k : Kind) : Option k.Elem → Json
  | some x => k.toJson x
  | none => .null

/-- The JSON of a reader's reply. -/
def reply (k : Kind) : Reply k.Elem → Json
  | .item x => element? k x
  | .length n => .nat n
  | .sizeHint low high => .arr [.nat low, (high.map Json.nat).getD .null]
  | .items xs => .arr (xs.map k.toJson)

/-- All ways to compare two chains of one kind. -/
def comparison (k : Kind) (xs ys : Chain k.Elem) : Json :=
  let equal := xs.equal ys k.eq
  let order := xs.partialCompare ys k.partialCmp
  let total :=
    match k.cmp? with
    | some cmp => [("cmp", reportOrdering (xs.compareBy ys cmp))]
    | none => []
  .obj ([("eq", .bool equal), ("ne", .bool !equal), ("lt", .bool (order == some .lt)),
    ("le", .bool (order == some .lt || order == some .eq)), ("gt", .bool (order == some .gt)),
    ("ge", .bool (order == some .gt || order == some .eq)),
    ("partial_cmp", (order.map reportOrdering).getD .null)] ++ total)

/-- Runs a command that reads chains. -/
def run (rs : Registers) : Reading → Except Fault Outcome
  | head source => do
    let ⟨k, xs⟩ ← rs.chain source
    return .only (element? k xs.head?)
  | tryHead source => do
    let ⟨k, xs⟩ ← rs.chain source
    return .only (k.toJson (← xs.tryHead.mapError .access))
  | tail source => do
    let ⟨k, xs⟩ ← rs.chain source
    return .chain? k xs.tail?
  | tryTail source => do
    let ⟨k, xs⟩ ← rs.chain source
    return .chain k (← xs.tryTail.mapError .access)
  | uncons source => do
    let ⟨k, xs⟩ ← rs.chain source
    match xs.uncons? with
    | none => return .only .null
    | some (x, rest) =>
      return .register (.obj [("head", k.toJson x), ("tail", reportChain k rest)]) (.chain k rest)
  | get source index => do
    let ⟨k, xs⟩ ← rs.chain source
    return .only (element? k (xs.get? index))
  | tryGet source index => do
    let ⟨k, xs⟩ ← rs.chain source
    return .only (k.toJson (← (xs.tryGet index).mapError .access))
  | length source => do
    let (size, isEmpty) :=
      match ← rs.get source with
      | .chain _ xs => (xs.length, xs.isEmpty)
      | .draft d => (d.size, d.isEmpty)
    return .only (.obj [("len", .nat size), ("is_empty", .bool isEmpty)])
  | elements source => do
    let ⟨k, xs⟩ ← rs.chain source
    return .only (.arr (xs.toList.map k.toJson))
  | cursor source script => do
    let ⟨k, xs⟩ ← rs.chain source
    return .only (.arr ((xs.cursor.run script).map (reply k)))
  | drain source script => do
    let ⟨k, xs⟩ ← rs.chain source
    return .only (.arr ((xs.drain.run script).map (reply k)))
  | same source other => do
    let ⟨k, xs⟩ ← rs.chain source
    return .bool (xs.same (← rs.ofKind k other))
  | compare source other => do
    let ⟨k, xs⟩ ← rs.chain source
    return .only (comparison k xs (← rs.ofKind k other))
  | compareLength source other => do
    let ⟨_, xs⟩ ← rs.chain source
    let ⟨_, ys⟩ ← rs.chain other
    return .only (reportOrdering (xs.compareLength ys))

end Reading

end SharedList
