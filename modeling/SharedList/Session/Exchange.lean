import SharedList.Chain.Fold
import SharedList.Session.Outcome

/-!
# Commands that turn chains into text or data, and data into chains

* The text of a chain, what it feeds to a hasher, and its JSON.
* Chains decoded from JSON or read from a source.
-/

set_option autoImplicit false

namespace SharedList

/-- What JSON is decoded as. -/
inductive Shape where
  | ints
  | strings
  | pairs
  | nested
  deriving DecidableEq, Repr

/-- The kind of chain that a shape decodes to. -/
def Shape.kind : Shape → Kind
  | ints => .vals
  | strings => .vals
  | pairs => .pairs
  | nested => .nested

/-- Decodes what a decoder decodes, as a value. -/
def Decoder.asValue {α : Type} (decode : Decoder α) (value : α → Value) : Decoder Value :=
  fun s => (decode s).map fun make => return value (← make)

/-- Decodes the elements of a shape. -/
def Shape.element : (shape : Shape) → Decoder shape.kind.Elem
  | ints => Decoder.asValue Serial.decodeInt .int
  | strings => Decoder.asValue Serial.decodeString .str
  | pairs =>
    Serial.decodePair (Decoder.asValue Serial.decodeString .str)
      (Decoder.asValue Serial.decodeInt .int)
  | nested => Chain.decode (Decoder.asValue Serial.decodeInt .int)

/-- The commands that exchange chains with the outside. -/
inductive Exchange where
  | text (source : String) (form : Text.Form)
  | writes (source : String)
  | encode (source : String)
  | decode (shape : Shape) (j : Json)
  | ofSource (source : Source String Value)
  | limit

namespace Exchange

variable {σ : Type}

/-- The text of a chain in a form, unless its elements cannot be written so. -/
def written (k : Kind) (xs : Chain k.Elem) : Text.Form → Except Fault String
  | .plain =>
    match k.display? with
    | some display => .ok (xs.display display)
    | none => .error .badInput
  | .precise style => .ok (xs.debug style 0 fun depth x => k.debug style depth x)

/-- Runs a command that exchanges chains with the outside. -/
def run (rs : Registers) : Exchange → Attempt σ Outcome
  | text source form => do
    let ⟨k, xs⟩ ← Attempt.read (rs.chain source)
    return .only (.str (← Attempt.read (written k xs form)))
  | writes source => do
    let ⟨k, xs⟩ ← Attempt.read (rs.chain source)
    match k.writes? with
    | some element => return .only (.arr ((xs.writes element).map (.str ·.text)))
    | none => throw .wrongKind
  | encode source => do
    let ⟨k, xs⟩ ← Attempt.read (rs.closable source)
    return .only (xs.encode k.encode).toJson
  | decode shape j => do
    match Chain.decode shape.element (.ofJson j) with
    | .ok make => return .chain shape.kind (← Attempt.act (Act.alloc make))
    | .error e => throw (.data e.message)
  | ofSource source => do
    match Chain.ofSource source with
    | .ok make => return .vals (← Attempt.act (Act.alloc make))
    | .error message => throw (.custom message)
  | limit => return .only (.nat Chain.recursionLimit)

end Exchange

end SharedList
