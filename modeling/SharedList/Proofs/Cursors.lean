import SharedList.Proofs.Workspace

/-!
# Readers are exact cursors

A session opens a reader of a chain, asks it a script of requests and shows the replies; a workspace
keeps readers open while other things happen.  In both a reader is a cursor over the row of the
chain's elements, and nothing moves it but what it is asked.

* `Session.step_shown` — a step that only shows something of a chain changes nothing.
* `Workspace.move_reader`, `Workspace.run_reader` — whatever else happens, a reader goes where its
  own requests take it.
* `Chain.readers_exact` — every script, every interleaving and every session.
-/

set_option autoImplicit false

namespace SharedList

variable {α σ : Type}

/-! ## Readers among other things -/

theorem Registers.after_only (rs : Registers) (st : Step σ) (shown : Json) :
    rs.after st (.only shown) = rs := by
  have hstore : ∀ (rs : Registers) (name? : Option String), rs.store name? none = rs := by
    intro rs name?
    cases name? <;> rfl
  show (rs.store st.first none).store st.second none = rs
  rw [hstore, hstore]

theorem Reading.run_cursor (rs : Registers) (source : String) (script : List Request) :
    Reading.run rs (.cursor source script) = (rs.chain source).map fun entry =>
      .only (.arr ((entry.2.cursor.run script).map (Reading.reply entry.1))) := by
  show (rs.chain source >>= fun entry => _) = _
  cases rs.chain source <;> rfl

theorem Reading.run_drain (rs : Registers) (source : String) (script : List Request) :
    Reading.run rs (.drain source script) = (rs.chain source).map fun entry =>
      .only (.arr ((entry.2.drain.run script).map (Reading.reply entry.1))) := by
  show (rs.chain source >>= fun entry => _) = _
  cases rs.chain source <;> rfl

/-- A step whose answer only shows something of a chain leaves the session as it is. -/
theorem Session.step_shown {s : Session σ} {st : Step σ} {c : Reading} {source : String}
    {shown : (k : Kind) × Chain k.Elem → Json} (hst : st.command = .reading c)
    (hc : c.run s.registers = (s.registers.chain source).map fun entry => .only (shown entry)) :
    (s.step st).2 = s := by
  have hran : (st.command.run s.registers).run ⟨s.supply, s.memory, #[]⟩ =
      (c.run s.registers, ⟨s.supply, s.memory, #[]⟩) := by
    rw [hst]
    rfl
  unfold Session.step
  rw [hran, hc]
  cases s.registers.chain source with
  | error fault => rfl
  | ok entry =>
    show { s with registers := s.registers.after st (.only (shown entry)) } = s
    rw [Registers.after_only]

/-- What a move asks of a reader. -/
def Move.asks (name : String) : Move σ → List Request
  | .ask other request => if other = name then [request] else []
  | _ => []

/-- The move neither opens another reader under the name nor closes the one of the name. -/
def Move.Spares (name : String) : Move σ → Prop
  | .drain other _ _ | .close other => other ≠ name
  | _ => True

namespace Workspace

/-- **One move** leaves a reader where what is asked of it takes it. -/
theorem move_reader {w : Workspace σ} {m : Move σ} {name : String} {k : Kind} {d : Drain k.Elem}
    (hd : w.readers name = some ⟨k, d⟩) (hm : m.Spares name) :
    (w.move m).readers name = some ⟨k, Script.after Drain.reply d (m.asks name)⟩ := by
  cases m with
  | step st => exact hd
  | keep other k' xs => exact hd
  | cons other k' x xs => exact hd
  | drain other k' xs =>
    show Function.update w.readers other _ name = _
    rw [Function.update_of_ne fun heq => hm heq.symm, hd]
    rfl
  | close other =>
    show Function.update w.readers other _ name = _
    rw [Function.update_of_ne fun heq => hm heq.symm, hd]
    rfl
  | ask other request =>
    show (w.ask other request).readers name = _
    by_cases h : other = name
    · have hasks : (Move.ask other request : Move σ).asks name = [request] := if_pos h
      subst h
      unfold ask
      rw [hd, hasks]
      exact Function.update_self _ _ _
    · have hasks : (Move.ask other request : Move σ).asks name = [] := if_neg h
      unfold ask
      rw [hasks]
      split
      · exact hd
      · show Function.update w.readers other _ name = _
        rw [Function.update_of_ne fun heq => h heq.symm, hd]
        rfl

/-- **A run** does the same: whatever else happens, a reader moves only as it is asked. -/
theorem run_reader {w : Workspace σ} {moves : List (Move σ)} {name : String} {k : Kind}
    {d : Drain k.Elem} (hd : w.readers name = some ⟨k, d⟩)
    (hmoves : ∀ m ∈ moves, m.Spares name) :
    (w.run moves).readers name =
      some ⟨k, Script.after Drain.reply d (moves.flatMap (Move.asks name))⟩ := by
  induction moves generalizing w d with
  | nil => exact hd
  | cons m moves ih =>
    obtain ⟨hm, hrest⟩ := List.forall_mem_cons.mp hmoves
    have hmoved := move_reader hd hm
    rw [List.flatMap_cons, Script.after, List.foldl_append]
    exact ih hmoved hrest

end Workspace

/-! ## All readers -/

namespace Chain

/-- **Readers are exact cursors.**  A reader of either kind replies to every script as a cursor over
the row of the chain's elements; at every point it tells exactly what is to come; and it moves only
as it is asked, and moves nothing else. -/
theorem readers_exact {xs : Chain α} (hxs : xs.WellFormed) :
    -- Replies to scripts
    (∀ script, xs.cursor.run script = Script.replies (Row.reply xs.toList) 0 script ∧
      xs.drain.run script = Script.replies (Row.reply xs.toList) 0 script) ∧
    -- Every point of a script
    (∀ r ∈ xs.readers, ∀ script, (Script.after Opened.reply r script).Exact xs
      (Script.after (Row.reply xs.toList) 0 script)) ∧
    (∀ r : Opened α, r.exhaust =
      match r.next? with
      | none => ([], r)
      | some (x, later) => (x :: later.exhaust.1, later.exhaust.2)) ∧
    -- Readers that are asked in turns, on chains that may have cells in common
    (∀ (ι : Type) [DecidableEq ι] (chains : ι → Chain α) (readers : ι → Opened α),
      (∀ i, (chains i).WellFormed) → (∀ i, readers i ∈ (chains i).readers) → ∀ script i,
        Script.of i (Script.interleaved Opened.reply readers script) =
          Script.replies (Row.reply (chains i).toList) 0 (Script.of i script)) ∧
    -- Steps of a session that read
    (∀ (rs : Registers) (source : String) (script : List Request) (k : Kind) (ys : Chain k.Elem),
      rs.chain source = .ok ⟨k, ys⟩ → ys.WellFormed → ∀ c : Reading,
        c = .cursor source script ∨ c = .drain source script →
          c.run rs = .ok (.only (.arr
            ((Script.replies (Row.reply ys.toList) 0 script).map (Reading.reply k))))) ∧
    (∀ (σ : Type) (s : Session σ) (st : Step σ) (source : String) (script : List Request),
      st.command = .reading (.cursor source script) ∨
        st.command = .reading (.drain source script) → (s.step st).2 = s) ∧
    -- Readers that stay open while a session goes on
    (∀ (σ : Type) (w : Workspace σ) (name : String) (request : Request),
      (w.ask name request).session = w.session ∧
        ∀ other, other ≠ name → (w.ask name request).readers other = w.readers other) ∧
    ∀ (σ : Type) (w : Workspace σ) (moves : List (Move σ)) (name : String) (k : Kind)
      (ys : Chain k.Elem), ys.WellFormed → w.readers name = some ⟨k, ys.drain⟩ →
        (∀ m ∈ moves, m.Spares name) → (w.run moves).readers name =
          some ⟨k, (ys.suffix (Script.after (Row.reply ys.toList) 0
            (moves.flatMap (Move.asks name)))).drain⟩ := by
  refine ⟨fun script => ⟨run_cursor hxs script, run_drain hxs script⟩, fun r hr script => ?_,
    Opened.exhaust_eq_next?, fun ι _ chains readers hchains hreaders script i => ?_,
    fun rs source script k ys hys hwf c hc => ?_, fun σ s st source script hst => ?_,
    fun σ w name request => ?_, fun σ w moves name k ys hwf hys hmoves => ?_⟩
  · exact (Opened.replies_spec hxs (standsAt_readers hr) script).2.exact hxs
  · rw [Script.of_interleaved]
    exact (Opened.replies_spec (hchains i) (standsAt_readers (hreaders i)) _).1
  · rcases hc with rfl | rfl
    · rw [Reading.run_cursor, hys, ← run_cursor hwf]
      rfl
    · rw [Reading.run_drain, hys, ← run_drain hwf]
      rfl
  · rcases hst with hst | hst
    · exact Session.step_shown hst (Reading.run_cursor _ _ _)
    · exact Session.step_shown hst (Reading.run_drain _ _ _)
  · unfold Workspace.ask
    split
    · exact ⟨rfl, fun _ _ => rfl⟩
    · exact ⟨rfl, fun other hother => Function.update_of_ne hother _ _⟩
  · rw [Workspace.run_reader hys hmoves, after_drain hwf]

/-- A chain is read past its end by a reader, while one of the other kind reads what is behind its
first cell. -/
theorem readers_exact_in_turns :
    let xs : Chain Nat := ⟨[⟨1, 10⟩, ⟨0, 20⟩], 2⟩
    let ys : Chain Nat := ⟨[⟨0, 20⟩], 1⟩
    let readers : Bool → Opened Nat
      | true => .borrowing xs.cursor
      | false => .owning ys.drain
    let script : List (Bool × Request) :=
      [(true, .next), (false, .next), (true, .peekRest), (false, .next), (true, .next),
        (true, .next), (true, .length), (false, .sizeHint)]
    xs.WellFormed ∧ ys.WellFormed ∧
      Script.of true (Script.interleaved Opened.reply readers script) =
        [.item (some 10), .items [20], .item (some 20), .item none, .length 0] ∧
      Script.of false (Script.interleaved Opened.reply readers script) =
        [.item (some 20), .item none, .sizeHint 0 (some 0)] := by
  intro xs ys readers script
  have hxs : xs.WellFormed := ⟨rfl, by decide⟩
  have hys : ys.WellFormed := ⟨rfl, by decide⟩
  obtain ⟨-, -, -, hturns, -⟩ := readers_exact hxs
  have hturns := hturns Bool (fun i => if i then xs else ys) readers (by simp [hxs, hys])
    (by simp [readers, Chain.readers]) script
  exact ⟨hxs, hys, hturns true, hturns false⟩

end Chain

end SharedList
