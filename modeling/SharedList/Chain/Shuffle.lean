import SharedList.Chain.Basic
import SharedList.Trace

/-!
# Shuffling

A shuffle exchanges, for each position in turn, the element there with one at a position not
after it.  The positions come from a stream of random words, and from nothing else.

One word serves for several positions: it is scaled to a **chunk** below a product of consecutive
bounds that fits 32 bits, and the chunk is taken apart by remainder and quotient.

* `Dice` — what is left of the current chunk; `Dice.roll` takes the next position out of it.
* `swapIndices` — for each position the one it is exchanged with, and how many words were drawn.
* `shuffle` — the shuffled chain and how many words were drawn.
-/

set_option autoImplicit false

namespace SharedList

/-- The random words, by the order in which they are drawn. -/
abbrev WordStream := Nat → UInt32

/-- The stream that replays `words`, starting over at their end. -/
def WordStream.cycle (words : Array UInt32) : WordStream := fun i => words.getD (i % words.size) 0

/-- How many values a word takes. -/
def wordRange : Nat := UInt32.size

/-- What is left of the current chunk, for how many positions it still serves, and how many words
have been drawn. -/
structure Dice where
  chunk : Nat
  remaining : Nat
  drawn : Nat
  deriving DecidableEq, Repr

namespace Dice

/-- Before any word is drawn a chunk of zero serves for the first position. -/
def start : Dice := ⟨0, 1, 0⟩

/-- Extends a product of consecutive bounds, the next of which is `next`, while it stays below
`wordRange`.  A product of zero, which no bounds have, would stay below it for ever and is left as
it is. -/
def widen (bound next : Nat) : Nat × Nat :=
  if 0 < bound ∧ bound * next < wordRange then widen (bound * next) (next + 1)
  else (bound, next)
termination_by wordRange - next
decreasing_by
  rename_i h
  have := Nat.mul_le_mul_right next h.1
  omega

/-- Draws a new chunk, which serves for the position with bound `m` and those after it.  The first
word is scaled to the product of their bounds; only where that could favour a value does a second
word correct it. -/
def refill (words : WordStream) (m : Nat) (d : Dice) : Dice :=
  let (bound, next) := widen m (m + 1)
  let scaled := (words d.drawn).toNat * bound
  let chunk := scaled / wordRange
  let low := scaled % wordRange
  if low > wordRange - bound then
    let high := (words (d.drawn + 1)).toNat * bound / wordRange
    ⟨if low + high ≥ wordRange then chunk + 1 else chunk, next - m, d.drawn + 2⟩
  else ⟨chunk, next - m, d.drawn + 1⟩

/-- Takes the exchange position for position `i` out of the chunk. -/
def roll (words : WordStream) (d : Dice) (i : Nat) : Nat × Dice :=
  let bound := i + 1
  let d := if d.remaining = 0 then d.refill words bound else d
  if d.remaining = 1 then (d.chunk, { d with remaining := 0 })
  else (d.chunk % bound, { d with chunk := d.chunk / bound, remaining := d.remaining - 1 })

/-- Takes the exchange positions for `count` positions from `i` on. -/
def rolls (words : WordStream) : Nat → Nat → Dice → List Nat → List Nat × Dice
  | 0, _, d, indices => (indices.reverse, d)
  | count + 1, i, d, indices =>
    let (index, d) := d.roll words i
    rolls words count (i + 1) d (index :: indices)

end Dice

/-- For each of `n` positions the one it is exchanged with, and how many words were drawn.  Up to
one position nothing is drawn and nothing moves. -/
def swapIndices (words : WordStream) (n : Nat) : List Nat × Nat :=
  if n ≤ 1 then ([], 0)
  else
    let (indices, d) := Dice.rolls words n 0 .start []
    (indices, d.drawn)

/-- Exchanges the element at each position with the one at the position given for it. -/
def applySwaps {α : Type} (indices : List Nat) (xs : Array α) : Array α :=
  indices.zipIdx.foldl (fun xs (j, i) => xs.swapIfInBounds i j) xs

namespace Chain

variable {α : Type}

/-- A shuffled chain, all cells new, and how many words it took. -/
structure Shuffled (α : Type) where
  chain : Fresh (Chain α)
  drawn : Nat

/-- Shuffles by the words of a stream. -/
def shuffle (xs : Chain α) (words : WordStream) : Traced (Shuffled α) :=
  let elements := xs.toList.toArray
  let (indices, drawn) := swapIndices words elements.size
  ⟨⟨ofArray (applySwaps indices elements), drawn⟩, [.shuffling elements.size]⟩

end Chain

end SharedList
