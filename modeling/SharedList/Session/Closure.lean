import SharedList.Expr
import SharedList.Session.Register

/-!
# Closures at work

A closure is any function of the arguments of a call that may change a **memory** of its own and
may make cells.  While a step runs, its **scratch** holds the supply of labels, the memory of the
closures, and the calls made so far.

* `Act` — an action on the scratch; `Act.alloc` makes cells from its supply.
* `Closure.call` — a call, which is noted; `Closure.run` — one that is not.
* `Attempt` — an action that may end in a fault.
-/

set_option autoImplicit false

namespace SharedList

/-- A function of a call's arguments with a memory of type `σ`. -/
abbrev Closure (σ : Type) := Args → StateT σ Fresh Value

/-- The closure that an expression writes. -/
def Expr.closure {σ : Type} (e : Expr) : Closure σ := fun args memory => do
  return (← e.eval args, memory)

/-- What a step works on: the supply of labels, the memory of the closures, and the calls made. -/
structure Scratch (σ : Type) where
  supply : Label
  memory : σ
  calls : Array Args

/-- An action on the scratch. -/
abbrev Act (σ : Type) := StateM (Scratch σ)

/-- An action on the scratch that may end in a fault. -/
abbrev Attempt (σ : Type) := ExceptT Fault (Act σ)

variable {σ α : Type}

namespace Act

/-- Makes cells from the supply. -/
def alloc (make : Fresh α) : Act σ α := fun s =>
  let (a, supply) := make s.supply
  (a, { s with supply })

/-- Makes what an action leaves to be made. -/
def build (a : Act σ (Fresh α)) : Act σ α := do alloc (← a)

/-- Notes a call. -/
def note (args : Args) : Act σ Unit := fun s => ((), { s with calls := s.calls.push args })

/-- The value as which a closure sees an element. -/
def view (k : Kind) (x : k.Elem) : Act σ Value := alloc (k.view x)

end Act

namespace Closure

/-- Runs the closure without noting the call. -/
def run (f : Closure σ) (args : Args) : Act σ Value := fun s =>
  let ((v, memory), supply) := f args s.memory s.supply
  (v, { s with memory, supply })

/-- Calls the closure. -/
def call (f : Closure σ) (args : Args) : Act σ Value := do
  Act.note args
  f.run args

/-- Calls the closure for a truth value. -/
def test (f : Closure σ) (args : Args) : Act σ Bool := return (← f.call args).isTrue

/-- Calls the closure for a comparison. -/
def order (f : Closure σ) (args : Args) : Act σ Ordering := return (← f.call args).ordering

/-- Calls the closure for what it does. -/
def tell (f : Closure σ) (args : Args) : Act σ Unit := do discard (f.call args)

/-- Runs the closure for a comparison of two elements.  What a sort asks is not noted. -/
def comparator (f : Closure σ) (k : Kind) (a b : k.Elem) : Act σ Ordering := do
  return (← f.run [(.x, ← Act.view k a), (.y, ← Act.view k b)]).ordering

end Closure

/-- An action that ends in no fault. -/
def Attempt.act (a : Act σ α) : Attempt σ α := ExceptT.lift a

/-- Reads, or ends in the fault. -/
def Attempt.read (r : Except Fault α) : Attempt σ α := ExceptT.mk (pure r)

end SharedList
