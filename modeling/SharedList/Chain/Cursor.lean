import SharedList.Chain.Basic

/-!
# Cursors: reading a chain step by step

Two kinds of reader give out a chain's elements one at a time and know at every point how many are
still to come.

* `Cursor` borrows the chain: it stands at a cell and counts down what remains.
* `Drain` owns a chain and shrinks it as it goes; the chain it was made from is a value of its own
  and stays as it was.
* `Cell.readAll` — what both do to read all that is left.
* `Request.reply`, `Script.replies` — the reply to one request, and the replies to a script.
* `Cursor.run`, `Drain.run` — the replies of both kinds of reader.
-/

set_option autoImplicit false

namespace SharedList

variable {α : Type}

/-- A reader that borrows the cells of a chain. -/
structure Cursor (α : Type) where
  ahead : List (Cell α)
  remaining : Nat

/-- A reader that owns a chain of its own. -/
structure Drain (α : Type) where
  chain : Chain α

/-- Starts reading at the first cell. -/
def Chain.cursor (xs : Chain α) : Cursor α := ⟨xs.cells, xs.length⟩

/-- Starts taking the elements off the front. -/
def Chain.drain (xs : Chain α) : Drain α := ⟨xs⟩

/-! ## Single steps -/

/-- Reads on along the cells to their end, counting down beside them: what was read, and what the
counter says then. -/
def Cell.readAll : List (Cell α) → Nat → List α → List α × Nat
  | [], remaining, read => (read.reverse, remaining)
  | cell :: rest, remaining, read => readAll rest (remaining - 1) (cell.value :: read)

namespace Cursor

/-- The next element, and the reader after it. -/
def next? (c : Cursor α) : Option (α × Cursor α) :=
  match c.ahead with
  | [] => none
  | cell :: rest => some (cell.value, ⟨rest, c.remaining - 1⟩)

/-- Least and greatest number of elements to come. -/
def sizeHint (c : Cursor α) : Nat × Option Nat := (c.remaining, some c.remaining)

/-- Reads all that is left, and the reader after that. -/
def exhaust (c : Cursor α) : List α × Cursor α :=
  let (read, remaining) := Cell.readAll c.ahead c.remaining []
  (read, ⟨[], remaining⟩)

end Cursor

namespace Drain

/-- The next element, and the reader after it. -/
def next? (d : Drain α) : Option (α × Drain α) :=
  match d.chain.cells with
  | [] => none
  | cell :: rest => some (cell.value, ⟨⟨rest, d.chain.length - 1⟩⟩)

/-- Least and greatest number of elements to come. -/
def sizeHint (d : Drain α) : Nat × Option Nat := (d.chain.length, some d.chain.length)

/-- Takes all that is left, and the reader after that. -/
def exhaust (d : Drain α) : List α × Drain α :=
  let (taken, length) := Cell.readAll d.chain.cells d.chain.length []
  (taken, ⟨⟨[], length⟩⟩)

end Drain

/-! ## Scripts -/

/-- What a reader can be asked. -/
inductive Request where
  /-- The next element. -/
  | next
  /-- How many elements are to come. -/
  | length
  /-- Least and greatest number of elements to come. -/
  | sizeHint
  /-- What a copy of the reader reads to its end, while the reader stays where it is. -/
  | peekRest
  /-- All that is left. -/
  | rest
  deriving DecidableEq, Repr

/-- What a reader replies. -/
inductive Reply (α : Type) where
  | item (x : Option α)
  | length (n : Nat)
  | sizeHint (low : Nat) (high : Option Nat)
  | items (xs : List α)

/-- The reply to one request, and the reader after it, of a reader that does the three things. -/
@[specialize] def Request.reply {ρ : Type} (next? : ρ → Option (α × ρ))
    (sizeHint : ρ → Nat × Option Nat) (exhaust : ρ → List α × ρ) (r : ρ) : Request → Reply α × ρ
  | .next =>
    match next? r with
    | none => (.item none, r)
    | some (x, r) => (.item (some x), r)
  | .length => (.length (sizeHint r).1, r)
  | .sizeHint => (.sizeHint (sizeHint r).1 (sizeHint r).2, r)
  | .peekRest => (.items (exhaust r).1, r)
  | .rest => (.items (exhaust r).1, (exhaust r).2)

/-- The reply to one request, and the reader after it. -/
def Cursor.reply : Cursor α → Request → Reply α × Cursor α := Request.reply next? sizeHint exhaust

/-- The reply to one request, and the reader after it. -/
def Drain.reply : Drain α → Request → Reply α × Drain α := Request.reply next? sizeHint exhaust

/-- The replies to a script of what replies to one request after the other. -/
@[specialize] def Script.replies {ρ : Type} (reply : ρ → Request → Reply α × ρ) :
    ρ → List Request → List (Reply α)
  | _, [] => []
  | r, request :: script => (reply r request).1 :: replies reply (reply r request).2 script

/-- The replies to a script of requests. -/
def Cursor.run (c : Cursor α) (script : List Request) : List (Reply α) :=
  Script.replies Cursor.reply c script

/-- The replies to a script of requests. -/
def Drain.run (d : Drain α) (script : List Request) : List (Reply α) :=
  Script.replies Drain.reply d script

end SharedList
