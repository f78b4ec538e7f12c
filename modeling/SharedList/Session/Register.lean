import SharedList.Chain.Access
import SharedList.Draft
import SharedList.Session.Kind

/-!
# Registers

A session keeps its chains and drafts in named registers.  Reading a register that is not there,
or one of a kind that an operation does not take, is a **fault**; a fault ends the step, not the
session.
-/

set_option autoImplicit false

namespace SharedList

/-- Why a step fails. -/
inductive Fault where
  /-- The step is not written as it should be. -/
  | badInput
  /-- There is no register of the name. -/
  | noRegister
  /-- A register is of a kind that the operation does not take. -/
  | wrongKind
  /-- A strict access found no element. -/
  | access (e : AccessError)
  /-- Data could not be decoded. -/
  | data (message : String)
  /-- A source failed with a text of its own. -/
  | custom (message : String)

/-- What a register holds. -/
inductive Register where
  | chain (kind : Kind) (xs : Chain kind.Elem)
  | draft (d : Draft Value)

/-- Named registers, each name at most once. -/
structure Registers where
  entries : List (String × Register)

namespace Registers

/-- No registers. -/
def empty : Registers := ⟨[]⟩

/-- The register of a name. -/
def find? (rs : Registers) (name : String) : Option Register := rs.entries.lookup name

/-- The registers without the one of a name. -/
def erase (rs : Registers) (name : String) : Registers := ⟨rs.entries.filter (·.1 != name)⟩

/-- The registers with another content for a name. -/
def put (rs : Registers) (name : String) (r : Register) : Registers :=
  ⟨(name, r) :: (rs.erase name).entries⟩

/-! ## Reading -/

/-- The register of a name, which must be there. -/
def get (rs : Registers) (name : String) : Except Fault Register :=
  match rs.find? name with
  | some r => .ok r
  | none => .error .noRegister

/-- The chain in a register, of whatever kind. -/
def chain (rs : Registers) (name : String) : Except Fault ((k : Kind) × Chain k.Elem) := do
  match ← rs.get name with
  | .chain k xs => return ⟨k, xs⟩
  | .draft _ => throw .wrongKind

/-- The chain in a register, of a kind whose elements closures take. -/
def closable (rs : Registers) (name : String) : Except Fault ((k : Kind) × Chain k.Elem) := do
  let ⟨k, xs⟩ ← rs.chain name
  if k.takesClosures then return ⟨k, xs⟩ else throw .wrongKind

/-- The chain in a register, of a given kind. -/
def ofKind (rs : Registers) (k : Kind) (name : String) : Except Fault (Chain k.Elem) := do
  let ⟨k', xs⟩ ← rs.chain name
  if h : k' = k then return h ▸ xs else throw .wrongKind

/-- The draft in a register. -/
def draft (rs : Registers) (name : String) : Except Fault (Draft Value) := do
  match ← rs.get name with
  | .draft d => return d
  | .chain _ _ => throw .wrongKind

end Registers

end SharedList
