import SharedList.Draft

/-!
# Reading a sequence into a chain

A sequence is read from a **source**, which delivers its elements one by one, may fail, and may
claim beforehand how many it will deliver.  The claim is a hint for making room and nothing more.

* `Source.next` — asks for one delivery.
* `Source.reserve` — how much room is made for a hint, at most `Source.maxReserve`.
* `Draft.readOn` — asks until the end or the first failure; `Source.intake` does so from the start.
-/

set_option autoImplicit false

namespace SharedList

/-- What a sequence claims about its length, and its deliveries in order; after the last of them it
has come to its end. -/
structure Source (ε α : Type) where
  hint : Option Nat
  deliveries : List (Except ε α)

namespace Source

variable {ε α : Type}

/-- Asks for the next delivery: an element, the end, or a failure. -/
def next (s : Source ε α) : Except ε (Option α) × Source ε α :=
  match s.deliveries with
  | [] => (.ok none, s)
  | .ok x :: later => (.ok (some x), { s with deliveries := later })
  | .error e :: later => (.error e, { s with deliveries := later })

/-- An element delivered is a delivery less to come. -/
theorem length_next {s later : Source ε α} {x : α} (h : s.next = (.ok (some x), later)) :
    later.deliveries.length < s.deliveries.length := by
  rcases s with ⟨hint, _ | ⟨_ | y, rest⟩⟩ <;> simp only [next, Prod.mk.injEq, reduceCtorEq,
    false_and, Except.ok.injEq, Option.some.injEq] at h
  obtain ⟨-, rfl⟩ := h
  simp

/-- The most elements for which room is made beforehand. -/
def maxReserve : Nat := 4096

/-- For how many elements room is made beforehand. -/
def reserve (hint : Option Nat) : Nat := min (hint.getD 0) maxReserve

/-- What asking a source has come to. -/
structure Intake (ε α : Type) where
  /-- What was delivered; if the source failed, nobody sees it. -/
  draft : Draft α
  /-- Whether the source came to its end or failed. -/
  stop : Except ε Unit
  /-- What is left of the source. -/
  rest : Source ε α

/-- The draft, or the failure. -/
def Intake.result {ε α : Type} (i : Intake ε α) : Except ε (Draft α) := i.stop.map fun _ => i.draft

end Source

/-- Asks a source until it ends or fails, and appends all that it delivers. -/
def Draft.readOn {ε α : Type} (d : Draft α) (s : Source ε α) : Source.Intake ε α :=
  match _h : s.next with
  | (.ok none, later) => ⟨d, .ok (), later⟩
  | (.ok (some x), later) => (d.push x).readOn later
  | (.error e, later) => ⟨d, .error e, later⟩
termination_by s.deliveries.length
decreasing_by exact Source.length_next _h

/-- Asks the source until it ends or fails, with room made for as many elements as it claims, or
for fewer. -/
def Source.intake {ε α : Type} (s : Source ε α) : Source.Intake ε α :=
  (Draft.withCapacity (Source.reserve s.hint)).readOn s

/-- Makes drafted elements that are yet to be made, front to back. -/
def Draft.make {α : Type} (d : Draft (Fresh α)) : Fresh (Draft α) :=
  return { items := ← d.items.mapM id, room := d.room }

/-- The chain of all elements of a source, or its failure. -/
def Chain.ofSource {ε α : Type} (s : Source ε α) : Except ε (Fresh (Chain α)) :=
  s.intake.result.map Draft.freeze

end SharedList
