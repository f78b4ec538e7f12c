import SharedList.Json.Writer
import SharedList.Session.Closure
import SharedList.Text.Digest
import SharedList.Trace

/-!
# Outcomes of commands

A command that ends in no fault has an **outcome**: what its answer shows, what it leaves to be
stored, how it changed registers by itself, and the events it emitted.

* `Outcome.only`, `Outcome.chain`, `Outcome.chain?`, `Outcome.value`, `Outcome.chains` — the usual
  outcomes.
* `reportChain`, `reportCalls` — long chains and long lists of calls are abridged.
-/

set_option autoImplicit false

namespace SharedList

/-! ## Reports -/

/-- The JSON of a comparison. -/
def reportOrdering : Ordering → Json
  | .lt => .str "Less"
  | .eq => .str "Equal"
  | .gt => .str "Greater"

/-- How many elements or calls are reported one by one. -/
def reportLimit : Nat := 100

/-- A chain as its length and its items, or, if there are many of them, the first and the last five
and the digest of all. -/
def reportChain (k : Kind) (xs : Chain k.Elem) : Json :=
  let items := xs.toList.map k.toJson
  if items.length > reportLimit then
    .obj [("len", .nat xs.length), ("first", .arr (items.take 5)),
      ("last", .arr (items.drop (items.length - 5))),
      ("fnv", .str (Text.digest (Json.arr items).compact))]
  else .obj [("len", .nat xs.length), ("items", .arr items)]

/-- Calls as the lists of their arguments, or, if there are many, their number and the first and
the last three. -/
def reportCalls (calls : Array Args) : Json :=
  let report (args : Args) : Json := .arr (args.map (·.2.toJson))
  if calls.size > reportLimit then
    .obj [("n", .nat calls.size), ("first", .arr ((calls.toList.take 3).map report)),
      ("last", .arr ((calls.toList.drop (calls.size - 3)).map report))]
  else .arr (calls.toList.map report)

/-- The JSON of an event. -/
def reportEvent (e : Event) : Json :=
  .obj [("level", .str "TRACE"), ("message", .str e.message), (e.quantity, .nat e.amount)]

/-- The JSON of a fault. -/
def reportFault : Fault → Json
  | .badInput => .obj [("error", .str "bad_input")]
  | .noRegister => .obj [("error", .str "no_register")]
  | .wrongKind => .obj [("error", .str "wrong_kind")]
  | .data message => .obj [("error", .str "Data"), ("message", .str message)]
  | .custom message => .obj [("error", .str "Custom"), ("message", .str message)]
  | .access e =>
    let common := [("message", .str e.message), ("operation", .str e.access.name),
      ("not_found", .bool e.isNotFound)]
    match e with
    | .emptyChain _ => .obj (("error", .str "EmptyList") :: common)
    | .indexOutOfBounds _ index length =>
      .obj (("error", .str "IndexOutOfBounds") :: common ++
        [("index", .nat index), ("length", .nat length)])

/-! ## Outcomes -/

/-- What a command comes to. -/
structure Outcome where
  /-- What the answer shows. -/
  shown : Json
  /-- What is stored under the first name that the step gives. -/
  first : Option Register
  /-- What is stored under the second name that the step gives. -/
  second : Option Register
  /-- Registers that the command itself fills anew, or empties, before anything is stored. -/
  changes : List (String × Option Register)
  /-- The events emitted, in order. -/
  events : List Event

namespace Outcome

/-- An outcome that is only shown. -/
def only (shown : Json) : Outcome := ⟨shown, none, none, [], []⟩

/-- The outcome of a truth value. -/
def bool (b : Bool) : Outcome := only (.bool b)

/-- The outcome of a register, shown as given. -/
def register (shown : Json) (r : Register) : Outcome := ⟨shown, some r, none, [], []⟩

/-- The outcome of a chain. -/
def chain (k : Kind) (xs : Chain k.Elem) : Outcome := register (reportChain k xs) (.chain k xs)

/-- The outcome of a chain of values. -/
def vals (xs : Chain Value) : Outcome := chain .vals xs

/-- The outcome of a chain that may be missing; then nothing is stored. -/
def chain? (k : Kind) : Option (Chain k.Elem) → Outcome
  | some xs => chain k xs
  | none => only .null

/-- The outcome of a value; if it is a chain, that is stored. -/
def value : Value → Outcome
  | .list xs => register (Value.list xs).toJson (.chain .vals xs)
  | v => only v.toJson

/-- The outcome of two chains. -/
def chains (k₁ k₂ : Kind) (xs : Chain k₁.Elem) (ys : Chain k₂.Elem) : Outcome :=
  ⟨.arr [reportChain k₁ xs, reportChain k₂ ys], some (.chain k₁ xs), some (.chain k₂ ys), [], []⟩

/-- The outcome with events. -/
def traced (o : Outcome) (events : List Event) : Outcome := { o with events }

/-- The outcome with changes of registers. -/
def changing (o : Outcome) (changes : List (String × Option Register)) : Outcome :=
  { o with changes }

end Outcome

end SharedList
