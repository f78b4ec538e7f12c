import SharedList.Value.Order
import SharedList.Value.Text

/-!
# Expressions: the closures of a session

A closure is written as an expression over the variables `x`, `y`, `acc` and `i`.  All operands are
evaluated before the operator is applied; a variable that a call does not supply is the number 0.
Arithmetic wraps around at 64 bits.  Evaluation may make cells, never change any.

* `Expr.eval` — the value of an expression under the arguments of a call.
-/

set_option autoImplicit false

namespace SharedList

/-- The variables of closures. -/
inductive Var where
  | x
  | y
  | acc
  | i
  deriving DecidableEq, Repr

/-- The arguments of a call, in their order. -/
abbrev Args := List (Var × Value)

/-- The operators of one operand. -/
inductive UnaryOp where
  /-- The negation of a truth value. -/
  | not
  /-- The plain text with its ASCII letters in lower case. -/
  | lower
  /-- The value read as a number. -/
  | int

/-- The operators of two operands. -/
inductive BinaryOp where
  | add
  | sub
  | mul
  /-- The remainder of a division that rounds towards zero; zero when dividing by zero. -/
  | rem
  | eq
  | lt
  | le
  /-- The comparison as -1, 0 or 1. -/
  | cmp
  | and
  | or
  /-- The plain texts, one after the other. -/
  | cat
  /-- The element of a chain at a position, or the number 0. -/
  | get
  /-- An element in front of a chain, or alone where there is no chain. -/
  | cons

/-- An expression. -/
inductive Expr where
  | lit (d : Datum)
  | var (v : Var)
  | unary (op : UnaryOp) (a : Expr)
  | binary (op : BinaryOp) (a b : Expr)
  | cond (test yes no : Expr)
  | list (items : List Expr)

/-- Applies an operator to the value of its operand. -/
def UnaryOp.apply : UnaryOp → Value → Value
  | not, v => .bool !v.isTrue
  | lower, v => .str (v.display.map Char.toLower)
  | int, v => .int v.number

/-- The element of a chain at a position, or the number 0. -/
def Value.elementAt (v : Value) (position : Int64) : Value :=
  match v with
  | list xs => if position < 0 then int 0 else (xs.get? position.toInt.toNat).getD (int 0)
  | _ => int 0

/-- Applies an operator to the values of its operands. -/
def BinaryOp.apply (op : BinaryOp) (a b : Value) : Fresh Value :=
  match op with
  | add => return .int (a.number + b.number)
  | sub => return .int (a.number - b.number)
  | mul => return .int (a.number * b.number)
  | rem => return .int (if b.number == 0 then 0 else a.number % b.number)
  | eq => return .bool (a == b)
  | lt => return .bool (compare a b == .lt)
  | le => return .bool (compare a b != .gt)
  | cmp => return .ofOrdering (compare a b)
  | and => return .bool (a.isTrue && b.isTrue)
  | or => return .bool (a.isTrue || b.isTrue)
  | cat => return .str (a.display ++ b.display)
  | get => return a.elementAt b.number
  | cons =>
    match b with
    | .list xs => return .list (← xs.cons a)
    | _ => return .list (← Chain.ofList [a])

namespace Expr

mutual

/-- The value of an expression under the arguments of a call. -/
def eval (args : Args) : Expr → Fresh Value
  | lit d => Value.ofDatum d
  | var v => return (args.lookup v).getD (.int 0)
  | unary op a => return op.apply (← eval args a)
  | binary op a b => do op.apply (← eval args a) (← eval args b)
  | cond test yes no => do
    let test ← eval args test
    let yes ← eval args yes
    let no ← eval args no
    return if test.isTrue then yes else no
  | list items => return .list (← Chain.ofList (← evalAll args [] items))

/-- The values of expressions, in order, after those already found. -/
def evalAll (args : Args) (values : List Value) : List Expr → Fresh (List Value)
  | [] => return values.reverse
  | e :: es => do evalAll args ((← eval args e) :: values) es

end

end Expr

end SharedList
