import SharedList.Chain.Basic

/-!
# Strict access

The strict accessors fail where the lenient ones of `SharedList.Chain.Basic` answer `none`.
A failure names the access and, for an index, the index asked for and the length of the chain.

* `AccessError.message` — the text of a failure.
* `AccessError.isNotFound` — every failure says that there is no such element.
-/

set_option autoImplicit false

namespace SharedList

/-- The strict accesses. -/
inductive Access where
  | head
  | tail
  | get
  deriving DecidableEq, Repr

/-- The name by which a failure reports an access. -/
def Access.name : Access → String
  | .head => "try_head"
  | .tail => "try_tail"
  | .get => "try_get"

/-- Why a strict access found no element. -/
inductive AccessError where
  /-- The chain holds no element at all. -/
  | emptyChain (access : Access)
  /-- The index lies at or past the end of a chain of the given length. -/
  | indexOutOfBounds (access : Access) (index length : Nat)
  deriving DecidableEq, Repr

namespace AccessError

/-- The access that failed. -/
def access : AccessError → Access
  | emptyChain access => access
  | indexOutOfBounds access _ _ => access

/-- Whether the failure says that an element is missing, as every one does. -/
def isNotFound : AccessError → Bool
  | emptyChain _ => true
  | indexOutOfBounds _ _ _ => true

/-- The text of a failure. -/
def message : AccessError → String
  | emptyChain access => s!"{access.name}: the list is empty"
  | indexOutOfBounds access index length =>
    s!"{access.name}: index {index} is out of bounds for a list of length {length}"

end AccessError

namespace Chain

variable {α : Type}

/-- The first element, or the failure that there is none. -/
def tryHead (xs : Chain α) : Except AccessError α :=
  match xs.head? with
  | some x => .ok x
  | none => .error (.emptyChain .head)

/-- All cells but the first, or the failure that there is no first. -/
def tryTail (xs : Chain α) : Except AccessError (Chain α) :=
  match xs.tail? with
  | some rest => .ok rest
  | none => .error (.emptyChain .tail)

/-- The element at `index`, or the failure that the chain ends before it. -/
def tryGet (xs : Chain α) (index : Nat) : Except AccessError α :=
  match xs.get? index with
  | some x => .ok x
  | none => .error (.indexOutOfBounds .get index xs.length)

end Chain

end SharedList
