import SharedList.Session.Creation

/-!
# Commands on drafts

A draft is filled in its register and is gone from it once it is frozen.
-/

set_option autoImplicit false

namespace SharedList

/-- The commands on drafts. -/
inductive Drafting where
  | empty (capacity : Option Nat)
  | ofChain (source : String)
  | push (source : String) (d : Datum)
  | extend (source : String) (data : List Datum)
  | freeze (source : String)
  | freezeOnto (source other : String)

namespace Drafting

variable {σ : Type}

/-- The outcome of a draft, of which the size is shown. -/
def outcome (d : Draft Value) : Outcome := .register (.nat d.size) (.draft d)

/-- The outcome of a draft that stays in its register, of which the size is shown. -/
def kept (source : String) (d : Draft Value) : Outcome :=
  (Outcome.only (.nat d.size)).changing [(source, some (.draft d))]

/-- Runs a command on drafts. -/
def run (rs : Registers) : Drafting → Attempt σ Outcome
  | empty none => return outcome .empty
  | empty (some capacity) => return outcome (.withCapacity capacity)
  | ofChain source => do
    let xs ← Attempt.read (rs.ofKind .vals source)
    return outcome xs.draft
  | push source datum => do
    let d ← Attempt.read (rs.draft source)
    let x ← Creation.element .vals datum
    return kept source (d.push x)
  | extend source data => do
    let d ← Attempt.read (rs.draft source)
    let xs ← data.mapM (Creation.element .vals)
    return kept source (d.extend xs)
  | freeze source => do
    let d ← Attempt.read (rs.draft source)
    let xs ← Attempt.act (Act.alloc d.freeze)
    return (Outcome.vals xs).changing [(source, none)]
  | freezeOnto source other => do
    let tail ← Attempt.read (rs.ofKind .vals other)
    let d ← Attempt.read (rs.draft source)
    let xs ← Attempt.act (Act.alloc (d.freezeOnto tail))
    return (Outcome.vals xs).changing [(source, none)]

end Drafting

end SharedList
