import SharedList.Session.Command

/-!
# Sessions

A session runs steps one after the other.  A step reads the registers as they are before it; what
it changes and stores is there for the steps after it.  A step that ends in a fault answers so and
leaves the registers as they were.

* `Session.step` — one step and its answer.
* `Session.run` — all steps and their answers.
-/

set_option autoImplicit false

namespace SharedList

variable {σ : Type}

/-- The supply of labels, the memory of the closures, and the registers. -/
structure Session (σ : Type) where
  supply : Label
  memory : σ
  registers : Registers

namespace Registers

/-- Fills a register anew, or empties it. -/
def change (rs : Registers) (name : String) : Option Register → Registers
  | some r => rs.put name r
  | none => rs.erase name

/-- Stores a result under a name, if there are both. -/
def store (rs : Registers) : Option String → Option Register → Registers
  | some name, some r => rs.put name r
  | _, _ => rs

/-- The registers after a step: first the command's own changes, then the results in order. -/
def after (rs : Registers) (step : Step σ) (o : Outcome) : Registers :=
  let rs := o.changes.foldl (fun rs (name, r) => rs.change name r) rs
  (rs.store step.first o.first).store step.second o.second

end Registers

namespace Session

/-- A session without registers. -/
def start (memory : σ) : Session σ := ⟨0, memory, .empty⟩

/-- The answer of a step that ends in no fault. -/
def answer (step : Step σ) (o : Outcome) (calls : Array Args) : Json :=
  .obj ([("r", o.shown)]
    ++ (if step.showCalls then [("calls", reportCalls calls)] else [])
    ++ (if step.showEvents then [("events", .arr (o.events.map reportEvent))] else []))

/-- Runs one step. -/
def step (s : Session σ) (st : Step σ) : Json × Session σ :=
  let (result, scratch) := (st.command.run s.registers).run ⟨s.supply, s.memory, #[]⟩
  let s := { s with supply := scratch.supply, memory := scratch.memory }
  match result with
  | .ok o => (answer st o scratch.calls, { s with registers := s.registers.after st o })
  | .error fault => (reportFault fault, s)

/-- Runs steps, some of which could not be read, and collects their answers. -/
def run (s : Session σ) (steps : List (Except Fault (Step σ))) : List Json × Session σ :=
  let (answers, s) := steps.foldl
    (fun ((answers, s) : List Json × Session σ) st =>
      match st with
      | .ok st =>
        let (answer, s) := s.step st
        (answer :: answers, s)
      | .error fault => (reportFault fault :: answers, s))
    ([], s)
  (answers.reverse, s)

/-- The JSON of a register. -/
def reportRegister : Register → Json
  | .chain k xs => reportChain k xs
  | .draft d => .obj [("transient", .nat d.size)]

/-- The JSON of all registers. -/
def reportRegisters (rs : Registers) : Json :=
  .obj (rs.entries.map fun (name, r) => (name, reportRegister r))

end Session

end SharedList
