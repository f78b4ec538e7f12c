import SharedList.Chain.Assoc
import SharedList.Session.Creation

/-!
# Commands on association lists

Every command here searches a chain of pairs for a key, calling its closure with the stored key as
`x` and the searched key as `y`.
-/

set_option autoImplicit false

namespace SharedList

/-- The commands on association lists. -/
inductive Association where
  | lookup
  | hasKey
  | eraseKey
  | setKey (value : Datum)

namespace Association

variable {σ : Type}

/-- Runs a command on the association list in a register. -/
def run (rs : Registers) (source : String) (key : Datum) (eq : Closure σ) :
    Association → Attempt σ Outcome
  | lookup => do
    let xs ← Attempt.read (rs.ofKind .pairs source)
    let key ← Creation.element .vals key
    Attempt.act do
      return .only (((← xs.lookupM key matching).map Value.toJson).getD .null)
  | hasKey => do
    let xs ← Attempt.read (rs.ofKind .pairs source)
    let key ← Creation.element .vals key
    Attempt.act do return .bool (← xs.hasKeyM key matching)
  | eraseKey => do
    let xs ← Attempt.read (rs.ofKind .pairs source)
    let key ← Creation.element .vals key
    Attempt.act do return .chain .pairs (← Act.build (xs.eraseKeyM key matching))
  | setKey value => do
    let xs ← Attempt.read (rs.ofKind .pairs source)
    let key ← Creation.element .vals key
    let value ← Creation.element .vals value
    Attempt.act do return .chain .pairs (← Act.build (xs.setKeyM key value matching))
where
  /-- Whether a stored key matches the searched one. -/
  matching (stored searched : Value) : Act σ Bool := eq.test [(.x, stored), (.y, searched)]

end Association

end SharedList
