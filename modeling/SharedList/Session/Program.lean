import SharedList.Json.Reader
import SharedList.Session.Run

/-!
# Programs

A program is written in JSON: an object whose member `ops` is an array of steps.  A step is an
object that names its operation and gives the fields that the operation needs; other fields are
ignored.  A step that is not written so is a fault of that step alone.

* `Expr.ofJson?` — the expression that JSON writes.
* `Program.step` — the step that JSON writes.
* `Program.answer` — runs a program: the answers of its steps and the registers at its end.
-/

set_option autoImplicit false

namespace SharedList

/-! ## Expressions -/

/-- The variable of a name. -/
def Var.ofName? : String → Option Var
  | "x" => some x
  | "y" => some y
  | "acc" => some acc
  | "i" => some i
  | _ => none

/-- The operator of one operand of a name. -/
def UnaryOp.ofName? : String → Option UnaryOp
  | "not" => some not
  | "lower" => some lower
  | "int" => some int
  | _ => none

/-- The operator of two operands of a name. -/
def BinaryOp.ofName? : String → Option BinaryOp
  | "+" => some add
  | "-" => some sub
  | "*" => some mul
  | "%" => some rem
  | "==" => some eq
  | "<" => some lt
  | "<=" => some le
  | "cmp" => some cmp
  | "and" => some and
  | "or" => some or
  | "cat" => some cat
  | "at" => some get
  | "cons" => some cons
  | _ => none

namespace Expr

/-- Applies what a name stands for to operands. -/
def ofApplication? (name : String) (operands : List Expr) : Option Expr :=
  match name, operands with
  | "list", items => some (.list items)
  | "if", [test, yes, no] => some (.cond test yes no)
  | name, [a] => (UnaryOp.ofName? name).map (.unary · a)
  | name, [a, b] => (BinaryOp.ofName? name).map (.binary · a b)
  | _, _ => none

mutual

/-- The expression that JSON writes. -/
def ofJson? : Json → Option Expr
  | .bool b => some (.lit (.bool b))
  | .int n => (Datum.ofJson? (.int n)).map .lit
  | .str name => (Var.ofName? name).map .var
  | .arr [.str "lit", j] => (Datum.ofJson? j).map .lit
  | .arr (.str name :: operands) => do ofApplication? name (← ofJsonAll? operands)
  | _ => none

/-- The expressions that JSON values write. -/
def ofJsonAll? : List Json → Option (List Expr)
  | [] => some []
  | j :: js => do return (← ofJson? j) :: (← ofJsonAll? js)

end

end Expr

/-! ## Fields -/

namespace Program

variable {σ α : Type}

/-- What a field writes; it must be there and be written as it should. -/
def field (j : Json) (name : String) (read : Json → Option α) : Except Fault α :=
  match (j.field? name).bind read with
  | some a => .ok a
  | none => .error .badInput

/-- What a field writes, or a default if it is not there. -/
def fieldD (j : Json) (name : String) (read : Json → Option α) (default : α) : Except Fault α :=
  match j.field? name with
  | some _ => field j name read
  | none => .ok default

/-- All items of an array, each read alike. -/
def all? (read : Json → Option α) (j : Json) : Option (List α) := do (← j.arr?).mapM read

/-- The closure that JSON writes. -/
def closure? (j : Json) : Option (Closure σ) := (Expr.ofJson? j).map Expr.closure

/-- A closure that does nothing. -/
def idle : Closure σ := Expr.closure (.lit (.int 0))

/-- A word of 32 bits. -/
def word? (j : Json) : Option UInt32 := (j.natBelow? UInt32.size).map Nat.toUInt32

/-- At least one word. -/
def words? (j : Json) : Option (Array UInt32) := do
  let words ← all? word? j
  if words.isEmpty then none else some words.toArray

/-- The kind that JSON names. -/
def kind? (j : Json) : Option Kind := do Kind.ofName? (← j.str?)

/-- The route that JSON names. -/
def route? : Json → Option Route
  | .str "slice" => some .list
  | .str "vec" => some .array
  | .str "iter" => some .draft
  | .str "cons" => some .front
  | _ => none

/-- The request to a reader that JSON names. -/
def request? : Json → Option Request
  | .str "next" => some .next
  | .str "len" => some .length
  | .str "size_hint" => some .sizeHint
  | .str "rest" => some .rest
  | _ => none

/-- The request that JSON names, to a reader that can be copied. -/
def copyRequest? : Json → Option Request
  | .str "peek_rest" => some .peekRest
  | j => request? j

/-- The shape that JSON names. -/
def shape? : Json → Option Shape
  | .str "ints" => some .ints
  | .str "strings" => some .strings
  | .str "pairs" => some .pairs
  | .str "nested" => some .nested
  | _ => none

/-- A delivery of a source: a number, or a failure with its text. -/
def delivery? (j : Json) : Option (Except String Value) :=
  match j with
  | .obj _ => do return .error (← (← j.field? "fail").str?)
  | j => j.int64?.map fun n => .ok (.int n)

/-- A claim about a length, which may be missing. -/
def hint? : Json → Option (Option Nat)
  | .null => some none
  | j => j.nat?.map some

/-! ## Steps -/

/-- The command of an operation, with the fields it needs. -/
def command (j : Json) (op : String) : Except Fault (Command σ) := do
  let source := field j "of" Json.str?
  let other := field j "with" Json.str?
  let sources := field j "of" (all? Json.str?)
  let count := field j "count" Json.nat?
  let index := field j "index" Json.nat?
  let value := field j "value" Datum.ofJson?
  let data := field j "items" (all? Datum.ofJson?)
  let init := field j "init" Datum.ofJson?
  let key := field j "key" Datum.ofJson?
  let fn : Except Fault (Closure σ) := field j "fn" closure?
  let eq : Except Fault (Closure σ) := field j "eq" closure?
  let kind := fieldD j "kind" kind? .vals
  let traversal (t : Traversal σ) : Except Fault (Command σ) := return .traversal (← source) t
  let pairing (p : Pairing σ) : Except Fault (Command σ) := return .pairing (← source) (← other) p
  let association (a : Association) : Except Fault (Command σ) :=
    return .association (← source) (← key) (← eq) a
  match op with
  -- Creation
  | "from" => return .creation (.items (← kind) (← fieldD j "via" route? .list) (← data))
  | "new" => return .creation (.empty (← field j "kind" kind?))
  | "default" => return .creation (.empty .vals)
  | "singleton" => return .creation (.singleton (← value))
  | "make" => return .creation (.replicate (← count) (← value))
  | "make_by" => return .creation (.tabulate (← count) (← fn))
  | "make_nested" => return .creation (.replicateChain (← source) (← count))
  | "nest" => return .creation (.nest (← sources))
  | "clone" => return .creation (.share (← source))
  | "drop" => return .creation (.discard (← source))
  | "cons" => return .creation (.cons (← source) (← value))
  -- Reading
  | "head" => return .reading (.head (← source))
  | "try_head" => return .reading (.tryHead (← source))
  | "tail" => return .reading (.tail (← source))
  | "try_tail" => return .reading (.tryTail (← source))
  | "uncons" => return .reading (.uncons (← source))
  | "get" => return .reading (.get (← source) (← index))
  | "try_get" => return .reading (.tryGet (← source) (← index))
  | "len" => return .reading (.length (← source))
  | "ptr_eq" => return .reading (.same (← source) (← other))
  | "to_vec" => return .reading (.elements (← source))
  | "iter" => return .reading (.cursor (← source) (← field j "steps" (all? copyRequest?)))
  | "into_iter" => return .reading (.drain (← source) (← field j "steps" (all? request?)))
  | "compare" => return .reading (.compare (← source) (← other))
  | "compare_length" => return .reading (.compareLength (← source) (← other))
  -- One chain and a closure
  | "every" => traversal (.all (← fn))
  | "some" => traversal (.any (← fn))
  | "find_index" => traversal (.findIdx (← fn))
  | "get_by" => traversal (.find (← fn))
  | "has" => traversal (.contains (← value) (← eq))
  | "keep" => traversal (.filter (← fn))
  | "filter" => traversal (.filter (← fn))
  | "keep_with_index" => traversal (.filterIdx (← fn))
  | "filter_with_index" => traversal (.filterIdx (← fn))
  | "keep_map" => traversal (.filterMap (← field j "when" closure?) (← fn))
  | "partition" => traversal (.partition (← fn))
  | "map" => traversal (.map (← fn))
  | "map_with_index" => traversal (.mapIdx (← fn))
  | "map_reverse" => traversal (.mapReverse (← fn))
  | "for_each" => traversal (.visit idle)
  | "for_each_with_index" => traversal (.visitIdx idle)
  | "reduce" => traversal (.foldl (← init) (← fn))
  | "reduce_with_index" => traversal (.foldlIdx (← init) (← fn))
  | "reduce_reverse" => traversal (.foldr (← init) (← fn))
  -- Two chains and a closure
  | "zip_by" => pairing (.zipWith (← fn))
  | "map_reverse2" => pairing (.zipWithReverse (← fn))
  | "every2" => pairing (.all (← fn))
  | "some2" => pairing (.any (← fn))
  | "eq_by" => pairing (.equal (← fn))
  | "compare_by" => pairing (.compare (← fn))
  | "for_each2" => pairing (.visit idle)
  | "reduce2" => pairing (.foldl (← init) (← fn))
  | "reduce_reverse2" => pairing (.foldr (← init) (← fn))
  -- Rearranging
  | "take" => return .reshaping (.take (← source) (← count))
  | "drop_first" => return .reshaping (.drop (← source) (← count))
  | "split_at" => return .reshaping (.splitAt (← source) (← index))
  | "reverse" => return .reshaping (.reverse (← source))
  | "reverse_concat" => return .reshaping (.reverseAppend (← source) (← other))
  | "concat" => return .reshaping (.append (← source) (← other))
  | "concat_many" => return .reshaping (.appendAll (← sources))
  | "flatten" => return .reshaping (.flatten (← source))
  | "zip" => return .reshaping (.zip (← source) (← other))
  | "unzip" => return .reshaping (.unzip (← source))
  | "sort" => return .reshaping (.sort (← source))
  | "sort_by" => return .reshaping (.sortBy (← source) (← fn))
  | "sort_total" => return .reshaping (.sortTotal (← source))
  | "shuffle_with" => return .reshaping (.shuffleWith (← source) (← field j "rng" words?))
  | "shuffle" => return .reshaping (.shuffleSort (← source))
  -- Association lists
  | "get_assoc" => association .lookup
  | "has_assoc" => association .hasKey
  | "remove_assoc" => association .eraseKey
  | "set_assoc" => association (.setKey (← value))
  -- Drafts
  | "t_new" => return .drafting (.empty none)
  | "t_default" => return .drafting (.empty none)
  | "t_with_capacity" => return .drafting (.empty (some (← field j "capacity" Json.nat?)))
  | "transient" => return .drafting (.ofChain (← source))
  | "t_push" => return .drafting (.push (← source) (← value))
  | "t_extend" => return .drafting (.extend (← source) (← data))
  | "t_persistent" => return .drafting (.freeze (← source))
  | "t_persistent_onto" => return .drafting (.freezeOnto (← source) (← other))
  -- Text and data
  | "format" =>
    return .exchange (.text (← source)
      (← field j "style" fun style => do Text.Form.parse? (← style.str?)))
  | "hash" => return .exchange (.writes (← source))
  | "to_json" => return .exchange (.encode (← source))
  | "from_json" =>
    return .exchange (.decode (← field j "as" shape?) (← field j "value" some))
  | "from_seq" =>
    return .exchange (.ofSource
      ⟨← fieldD j "hint" hint? none, ← field j "items" (all? delivery?)⟩)
  | "limit" => return .exchange .limit
  | _ => throw .badInput

/-- The operations whose results are only shown, whatever names the step gives. -/
def onlyShown : List String :=
  ["reduce", "reduce_with_index", "reduce_reverse", "reduce2", "reduce_reverse2"]

/-- The step that JSON writes. -/
def step (j : Json) : Except Fault (Step σ) := do
  let op ← field j "op" Json.str?
  let first ← fieldD j "to" (fun name => name.str?.map some) none
  return {
    command := ← command j op
    first := if op ∈ onlyShown then none else first
    second := ← fieldD j "to2" (fun name => name.str?.map some) none
    showCalls := ← fieldD j "calls" Json.bool? false
    showEvents := ← fieldD j "log" Json.bool? false }

/-! ## Whole programs -/

/-- The answer to a program: the answers of its steps and the registers at its end. -/
def answer (program : Option Json) : Json :=
  match do (← (← program).field? "ops").arr? with
  | none => reportFault .badInput
  | some steps =>
    let (answers, s) := (Session.start ()).run (steps.map step)
    .obj [("steps", .arr answers), ("regs", Session.reportRegisters s.registers)]

/-- The answer to the text of a program, as compact text. -/
def answerText (text : String) : String := (answer (Json.read? text)).compact

end Program

end SharedList
