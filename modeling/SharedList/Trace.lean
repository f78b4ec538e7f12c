/-!
# Trace events

A few operations report how they went about their work.  A report is an **event**: which work it
was and over how many elements.  An operation that reports returns its value together with its
events, in the order in which they were emitted.

* `Event.message`, `Event.quantity`, `Event.amount` — how an event is written down.
* `Traced` — a value and the events on the way to it.
-/

set_option autoImplicit false

namespace SharedList

/-- What an operation reports about its work. -/
inductive Event where
  /-- A right fold took its elements from a buffer instead of by recursion. -/
  | foldBuffered (length : Nat)
  /-- A right fold over pairs took them from a buffer instead of by recursion. -/
  | pairsBuffered (pairs : Nat)
  /-- A buffer of elements is about to be sorted. -/
  | sorting (length : Nat)
  /-- A buffer of elements is about to be shuffled. -/
  | shuffling (length : Nat)
  deriving DecidableEq, Repr

namespace Event

/-- The text of an event. -/
def message : Event → String
  | foldBuffered _ => "reduce_reverse: folding through a buffer"
  | pairsBuffered _ => "reduce_reverse2: folding through a buffer"
  | sorting _ => "sort_by: sorting buffered elements"
  | shuffling _ => "shuffle_with: shuffling buffered elements"

/-- The name under which an event gives its amount. -/
def quantity : Event → String
  | pairsBuffered _ => "pairs"
  | _ => "length"

/-- Over how many elements, or pairs, the work goes. -/
def amount : Event → Nat
  | foldBuffered n => n
  | pairsBuffered n => n
  | sorting n => n
  | shuffling n => n

end Event

/-- A value and the events emitted on the way to it. -/
structure Traced (α : Type) where
  value : α
  events : List Event

end SharedList
