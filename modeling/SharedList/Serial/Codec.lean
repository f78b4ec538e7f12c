import SharedList.Serial.Basic
import SharedList.Serial.Source
import SharedList.Text.Decimal
import SharedList.Text.Quoted

/-!
# Encoding chains and decoding them

A chain is encoded as a sequence that announces its length.  Decoding reads a sequence front to
back and fails with the first element that cannot be decoded.

* `Chain.encode`, `Chain.decode` — chains, given how elements are encoded or decoded.
* `Serial.decodeInt`, `Serial.decodeString`, `Serial.decodePair` — elements.
* `DecodeError.message` — what was found and what was expected in its place.
-/

set_option autoImplicit false

namespace SharedList

/-- What a decoder expects. -/
inductive Expected where
  | sequence
  | integer
  | text
  | pair
  deriving DecidableEq, Repr

/-- How an expectation is put. -/
def Expected.phrase : Expected → String
  | .sequence => "a sequence"
  | .integer => "i64"
  | .text => "a string"
  | .pair => "a tuple of size 2"

/-- How a serial form that was found instead is put. -/
def Serial.phrase : Serial → String
  | null => "null"
  | bool true => "boolean `true`"
  | bool false => "boolean `false`"
  | int n => s!"integer `{n}`"
  | float x => s!"floating point `{Text.dataNotation.text x}`"
  | str s => "string " ++ Text.quoted s
  | seq _ _ => "sequence"
  | map _ => "map"

/-- Why a serial form could not be decoded. -/
inductive DecodeError where
  /-- Something of another type was found. -/
  | invalidType (found : Serial) (expected : Expected)
  /-- A number was found that is out of range. -/
  | invalidValue (found : Int) (expected : Expected)
  /-- There are fewer items than expected. -/
  | tooShort (length : Nat) (expected : Expected)
  /-- There are more items than expected. -/
  | tooLong (length : Nat)

/-- The text of a failure. -/
def DecodeError.message : DecodeError → String
  | invalidType found expected => s!"invalid type: {found.phrase}, expected {expected.phrase}"
  | invalidValue found expected =>
    s!"invalid value: integer `{found}`, expected {expected.phrase}"
  | tooShort length expected => s!"invalid length {length}, expected {expected.phrase}"
  | tooLong length => s!"invalid length {length}, expected fewer elements in array"

/-- Decodes a serial form; decoding may make cells. -/
abbrev Decoder (α : Type) := Serial → Except DecodeError (Fresh α)

namespace Serial

/-- Decodes a signed number of 64 bits. -/
def decodeInt : Decoder Int64
  | int n =>
    if Int64.minValue.toInt ≤ n ∧ n ≤ Int64.maxValue.toInt then .ok (pure (Int64.ofInt n))
    else .error (.invalidValue n .integer)
  | found => .error (.invalidType found .integer)

/-- Decodes a text. -/
def decodeString : Decoder String
  | str s => .ok (pure s)
  | found => .error (.invalidType found .text)

/-- Decodes a pair, written as a sequence of two.  Both items are read before their number is
judged. -/
def decodePair {α β : Type} (first : Decoder α) (second : Decoder β) : Decoder (α × β)
  | seq _ items =>
    match items with
    | [] => .error (.tooShort 0 .pair)
    | a :: rest => do
      let a ← first a
      match rest with
      | [] => .error (.tooShort 1 .pair)
      | b :: rest =>
        let b ← second b
        if rest.isEmpty then .ok (return (← a, ← b)) else .error (.tooLong (rest.length + 2))
  | found => .error (.invalidType found .pair)

end Serial

namespace Chain

variable {α : Type}

/-- The serial form of a chain: a sequence that announces its length. -/
def encode (xs : Chain α) (element : α → Serial) : Serial :=
  .seq (some xs.length) (xs.toList.map element)

/-- Decodes a chain from a sequence of elements. -/
def decode (element : Decoder α) : Decoder (Chain α)
  | .seq announced items =>
    (Source.intake ⟨announced, items.map element⟩).result.map fun d =>
      return ← (← d.make).freeze
  | found => .error (.invalidType found .sequence)

end Chain

end SharedList
