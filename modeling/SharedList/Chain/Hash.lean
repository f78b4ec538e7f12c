import SharedList.Chain.Basic

/-!
# What a chain feeds to a hasher

A hasher is fed a sequence of **writes**.  A chain writes its length and then what each of its
elements writes, so that chains of chains that differ only in where the inner ones begin and end
write different sequences.

* `Write` — one write; `Write.text` — how it is written down.
* `Chain.writes` — the writes of a chain, given those of its elements.
-/

set_option autoImplicit false

namespace SharedList

/-- One thing fed to a hasher. -/
inductive Write where
  /-- A size. -/
  | usize (n : Nat)
  /-- A signed number of 64 bits. -/
  | i64 (n : Int64)
  /-- A single byte. -/
  | u8 (n : UInt8)
  /-- A run of bytes. -/
  | bytes (bs : List UInt8)
  deriving DecidableEq, Repr

namespace Write

/-- The writes of a truth value. -/
def ofBool (b : Bool) : List Write := [.u8 (if b then 1 else 0)]

/-- The writes of a number. -/
def ofInt (n : Int64) : List Write := [.i64 n]

/-- The writes of a text: its bytes and an end mark that is no part of any text. -/
def ofString (s : String) : List Write := [.bytes s.toUTF8.toList, .u8 255]

/-- A digit of a hexadecimal number. -/
def hexDigit (n : Nat) : Char := Nat.digitChar n

/-- The text of a write. -/
def text : Write → String
  | usize n => s!"usize:{n}"
  | i64 n => s!"i64:{n.toInt}"
  | u8 n => s!"u8:{n.toNat}"
  | bytes bs =>
    "bytes:" ++ String.ofList (bs.flatMap fun b =>
      [hexDigit (b.toNat / 16), hexDigit (b.toNat % 16)])

end Write

namespace Chain

variable {α : Type}

/-- The writes of a chain whose elements write `element`. -/
def writes (xs : Chain α) (element : α → List Write) : List Write :=
  .usize xs.length :: xs.toList.flatMap element

end Chain

end SharedList
