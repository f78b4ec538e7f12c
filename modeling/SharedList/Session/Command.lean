import SharedList.Session.Association
import SharedList.Session.Creation
import SharedList.Session.Drafting
import SharedList.Session.Exchange
import SharedList.Session.Pairing
import SharedList.Session.Reading
import SharedList.Session.Reshaping
import SharedList.Session.Traversal

/-!
# Commands

* `Command` — everything a step can ask for; `Command.run` runs it on the registers.
* `Step` — a command, where its results go, and what else its answer shows.
-/

set_option autoImplicit false

namespace SharedList

variable {σ : Type}

/-- What a step can ask for. -/
inductive Command (σ : Type) where
  | creation (c : Creation σ)
  | reading (c : Reading)
  | traversal (source : String) (c : Traversal σ)
  | pairing (source other : String) (c : Pairing σ)
  | reshaping (c : Reshaping σ)
  | association (source : String) (key : Datum) (eq : Closure σ) (c : Association)
  | drafting (c : Drafting)
  | exchange (c : Exchange)

/-- Runs a command on the registers. -/
def Command.run (rs : Registers) : Command σ → Attempt σ Outcome
  | creation c => c.run rs
  | reading c => Attempt.read (c.run rs)
  | traversal source c => c.run rs source
  | pairing source other c => c.run rs source other
  | reshaping c => c.run rs
  | association source key eq c => c.run rs source key eq
  | drafting c => c.run rs
  | exchange c => c.run rs

/-- A command, the names under which its results are stored, and whether its answer shows the calls
of closures and the events. -/
structure Step (σ : Type) where
  command : Command σ
  first : Option String
  second : Option String
  showCalls : Bool
  showEvents : Bool

end SharedList
