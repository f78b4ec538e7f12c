import SharedList.Draft
import SharedList.Session.Outcome

/-!
# Commands that create chains

* Chains from written items, by any of four routes, and chains of equal or computed elements.
* Chains of chains that share the cells of registers.
* Further handles on a chain, and one more element in front of it.
-/

set_option autoImplicit false

namespace SharedList

/-- The routes by which a chain is made from its elements. -/
inductive Route where
  /-- From a list, linked from its back. -/
  | list
  /-- From an array, whose elements are taken off its back. -/
  | array
  /-- By way of a draft. -/
  | draft
  /-- By putting one element after the other in front. -/
  | front
  deriving DecidableEq, Repr

/-- Makes a chain by a route. -/
def Route.make {α : Type} (route : Route) (xs : List α) : Fresh (Chain α) :=
  match route with
  | list => Chain.ofList xs
  | array => Chain.ofArray xs.toArray
  | draft => Chain.collect xs
  | front => Chain.consAll xs

/-- The commands that create chains. -/
inductive Creation (σ : Type) where
  | items (kind : Kind) (route : Route) (data : List Datum)
  | empty (kind : Kind)
  | singleton (d : Datum)
  | replicate (count : Nat) (d : Datum)
  | tabulate (count : Nat) (f : Closure σ)
  | replicateChain (source : String) (count : Nat)
  | nest (sources : List String)
  | share (source : String)
  | discard (source : String)
  | cons (source : String) (d : Datum)

namespace Creation

variable {σ : Type}

/-- The element of a kind that a datum writes. -/
def element (k : Kind) (d : Datum) : Attempt σ k.Elem := do
  match k.ofDatum? d with
  | some make => Attempt.act (Act.alloc make)
  | none => throw .badInput

/-- Runs a command that creates chains. -/
def run (rs : Registers) : Creation σ → Attempt σ Outcome
  | items k route data => do
    let xs ← data.mapM (element k)
    return .chain k (← Attempt.act (Act.alloc (route.make xs)))
  | empty k => return .chain k Chain.empty
  | singleton d => do
    let x ← element .vals d
    return .vals (← Attempt.act (Act.alloc (Chain.singleton x)))
  | replicate count d => do
    let x ← element .vals d
    return .vals (← Attempt.act (Act.alloc (Chain.replicate count x)))
  | tabulate count f => do
    let made := Chain.tabulateM count fun index => f.call [(.i, .int (Int64.ofNat index))]
    return .vals (← Attempt.act (Act.build made))
  | replicateChain source count => do
    let xs ← Attempt.read (rs.ofKind .vals source)
    return .chain .nested (← Attempt.act (Act.alloc (Chain.replicate count xs)))
  | nest sources => do
    let chains ← Attempt.read (sources.mapM (rs.ofKind .vals))
    return .chain .nested (← Attempt.act (Act.alloc (Chain.ofList chains)))
  | share source => do
    let ⟨k, xs⟩ ← Attempt.read (rs.chain source)
    return .chain k xs
  | discard source => do
    let _ ← Attempt.read (rs.get source)
    return (Outcome.only .null).changing [(source, none)]
  | cons source d => do
    let ⟨k, xs⟩ ← Attempt.read (rs.chain source)
    let x ← element k d
    return .chain k (← Attempt.act (Act.alloc (xs.cons x)))

end Creation

end SharedList
