import SharedList.Proofs.Steps

/-!
# How drafts build chains

A draft grows at the back, and freezing takes its elements off the back, so that the chain grows at
the front.  Whatever is appended in whatever portions, the draft is the one that takes all of it at
once, and its chain is that row of elements in front of the tail.

* `Draft.Entry`, `Draft.enterAll` — what is appended, portion by portion; `enterAll_eq` — the
  portions do not matter.
* `Draft.Continues` — a draft that started from a chain counts right at every moment, and is frozen
  onto any tail.
* `Session.step_alters` — a step leaves the registers that it does not write as they are.
* `Session.run_drafting` — drafting changes no register but those of the drafts and the results.
* `Chain.construction_agrees` — all of this together.
-/

set_option autoImplicit false

namespace SharedList

variable {α σ : Type}

/-! ## Filling drafts -/

namespace Draft

/-- What is appended to a draft in one go. -/
inductive Entry (α : Type) where
  | push (x : α)
  | extend (xs : List α)

/-- The elements appended. -/
def Entry.items : Entry α → List α
  | push x => [x]
  | extend xs => xs

/-- The draft after one portion. -/
def enter (d : Draft α) : Entry α → Draft α
  | .push x => d.push x
  | .extend xs => d.extend xs

/-- The draft after one portion after the other. -/
def enterAll (d : Draft α) (entries : List (Entry α)) : Draft α := entries.foldl enter d

theorem enter_eq (d : Draft α) (entry : Entry α) : d.enter entry = d.extend entry.items := by
  cases entry <;> rfl

/-- In whatever portions elements are appended, it is as if they were appended at once. -/
theorem enterAll_eq (d : Draft α) (entries : List (Entry α)) :
    d.enterAll entries = d.extend (entries.flatMap Entry.items) := by
  induction entries generalizing d with
  | nil => rfl
  | cons entry entries ih =>
    rw [List.flatMap_cons, extend, List.foldl_append]
    show (d.enter entry).enterAll entries = _
    rw [ih, enter_eq]
    rfl

@[simp] theorem toList_enterAll (d : Draft α) (entries : List (Entry α)) :
    (d.enterAll entries).toList = d.toList ++ entries.flatMap Entry.items := by
  rw [enterAll_eq, toList_extend]

end Draft

/-! ## Drafts that start from a chain -/

/-- Whatever is appended to the draft, it counts the elements of the chain and all appended ones,
and is frozen onto any tail with the elements of the chain first. -/
structure Draft.Continues (base : Chain α) (d : Draft α) : Prop where
  size : ∀ entries : List (Entry α),
    (d.enterAll entries).size = base.length + (entries.flatMap Entry.items).length
  freezeOnto : ∀ (entries : List (Entry α)) (tail : Chain α) (next : Label),
    Chain.Built next (base.toList ++ entries.flatMap Entry.items) tail
      ((d.enterAll entries).freezeOnto tail next).1

theorem Draft.continues {base : Chain α} (hbase : base.WellFormed) {d : Draft α}
    (hd : d.toList = base.toList) : d.Continues base := by
  refine ⟨fun entries => ?_, fun entries tail next => ?_⟩
  · rw [Draft.size_eq, Draft.toList_enterAll, hd, List.length_append, hbase.toList_length]
  · rw [Chain.freezeOnto_eq, Draft.toList_enterAll, hd]
    exact Chain.built_prepend _ tail next

/-! ## Drafting in sessions -/

/-- An attempt whose outcome changes no registers by itself but those named. -/
def Attempt.Alters (names : List String) (a : Attempt σ Outcome) : Prop :=
  ∀ s o, (a.run s).1 = .ok o → ∀ change ∈ o.changes, change.1 ∈ names

namespace Attempt.Alters

variable {β : Type} {names : List String}

theorem pure {o : Outcome} (h : ∀ change ∈ o.changes, change.1 ∈ names) :
    Alters names (Pure.pure o : Attempt σ Outcome) := by
  intro s o' hrun
  cases hrun
  exact h

theorem bind {first : Attempt σ β} {second : β → Attempt σ Outcome}
    (h : ∀ x, Alters names (second x)) : Alters names (first >>= second) := by
  intro s o hrun
  change (ExceptT.bindCont second (first.run s).1 (first.run s).2).1 = .ok o at hrun
  cases hfirst : (first.run s).1 with
  | error fault =>
    rw [hfirst] at hrun
    cases hrun
  | ok x =>
    rw [hfirst] at hrun
    exact h x _ o hrun

end Attempt.Alters

/-- By itself drafting changes no register but that of its draft. -/
theorem Drafting.alters_run (c : Drafting) (rs : Registers) :
    Attempt.Alters c.alters (c.run rs : Attempt σ Outcome) := by
  have hopened : ∀ d : Draft Value, Attempt.Alters [] (Pure.pure (outcome d) : Attempt σ Outcome) :=
    fun _ => .pure nofun
  have hfilled : ∀ (source : String) (o : Outcome) (change : Option Register),
      Attempt.Alters [source] (Pure.pure (o.changing [(source, change)]) : Attempt σ Outcome) :=
    fun _ _ _ => .pure (List.forall_mem_singleton.mpr List.mem_cons_self)
  cases c with
  | empty capacity =>
    cases capacity with
    | none => exact hopened _
    | some capacity => exact hopened _
  | ofChain source => exact .bind fun xs => hopened _
  | push source datum => exact .bind fun d => .bind fun x => hfilled source _ _
  | extend source data => exact .bind fun d => .bind fun xs => hfilled source _ _
  | freeze source => exact .bind fun d => .bind fun xs => hfilled source _ _
  | freezeOnto source other =>
    exact .bind fun tail => .bind fun d => .bind fun xs => hfilled source _ _

namespace Session

/-- A step whose command changes by itself no registers but those it names leaves all registers but
those that the step writes as they are. -/
theorem step_alters {s : Session σ} {st : Step σ}
    (h : Attempt.Alters st.command.alters (st.command.run s.registers)) {name : String}
    (hname : name ∉ st.writes) : (s.step st).2.registers.find? name = s.registers.find? name := by
  have hchanges := h ⟨s.supply, s.memory, #[]⟩
  unfold Session.step
  generalize (st.command.run s.registers).run ⟨s.supply, s.memory, #[]⟩ = ran at hchanges
  obtain ⟨result, scratch⟩ := ran
  cases result with
  | error fault => rfl
  | ok o => exact Registers.find?_after_of_changes (hchanges o rfl) hname

/-- **One step**: drafting leaves all registers but those that the step writes as they are. -/
theorem step_drafting {s : Session σ} {st : Step σ} {c : Drafting} (hst : st.command = .drafting c)
    {name : String} (hname : name ∉ st.writes) :
    (s.step st).2.registers.find? name = s.registers.find? name := by
  apply step_alters _ hname
  rw [hst]
  exact c.alters_run s.registers

/-- A session that runs steps comes to where one step after the other takes it. -/
theorem run_ok (s : Session σ) (steps : List (Step σ)) :
    (s.run (steps.map .ok)).2 = steps.foldl (fun s st => (s.step st).2) s := by
  unfold run
  generalize ([] : List Json) = answers
  induction steps generalizing s answers with
  | nil => rfl
  | cons st steps ih => exact ih (s.step st).2 _

/-- **A run**: the same for one step after the other. -/
theorem run_drafting {s : Session σ} {steps : List (Step σ)}
    (hsteps : ∀ st ∈ steps, ∃ c, st.command = .drafting c) {name : String}
    (hname : name ∉ steps.flatMap Step.writes) :
    (s.run (steps.map .ok)).2.registers.find? name = s.registers.find? name := by
  rw [run_ok]
  induction steps generalizing s with
  | nil => rfl
  | cons st steps ih =>
    obtain ⟨⟨c, hst⟩, hrest⟩ := List.forall_mem_cons.mp hsteps
    rw [List.flatMap_cons, List.mem_append, not_or] at hname
    rw [List.foldl_cons, ih hrest hname.2, step_drafting hst hname.1]

end Session

/-! ## All ways to build a chain -/

namespace Chain

/-- **All ways to build a chain agree.**  A draft counts right at every moment, and is frozen in
front of a tail that stays what it was, however it was filled; every route from a row of elements
comes to the same chain, of which the elements are the row; and drafting leaves alone whatever is in
other registers.  The limit of the small-vector buffer on capacities is outside the model: there a
capacity may overflow before any draft exists, here every capacity makes an empty draft. -/
theorem construction_agrees {base : Chain α} (hbase : base.WellFormed) :
    -- Drafts
    base.draft.Continues base ∧
    Draft.empty.Continues (empty : Chain α) ∧
    (∀ capacity, (Draft.withCapacity capacity).Continues (empty : Chain α)) ∧
    -- Chains of a row of elements
    (∀ (row : List α) (route : Route) (next : Label),
      Built next row empty (route.make row next).1) ∧
    (∀ (row : List α) (route route' : Route), route.make row = route'.make row) ∧
    (∀ (capacity : Nat) (entries : List (Draft.Entry α)) (route : Route),
      ((Draft.withCapacity capacity).enterAll entries).freeze =
          route.make (entries.flatMap Draft.Entry.items) ∧
        (Draft.empty.enterAll entries).freeze =
          route.make (entries.flatMap Draft.Entry.items)) ∧
    -- Chains of the elements of a chain
    (∀ (xs : Chain α) (route : Route) (next : Label),
      (route.make xs.toList next).1.toList = xs.toList) ∧
    (∀ (route : Route) (next : Label), (route.make base.toList next).1.length = base.length) ∧
    (base.draft.freeze = ofList base.toList) ∧
    -- Registers
    ∀ (σ : Type) (s : Session σ) (steps : List (Step σ)),
      (∀ st ∈ steps, ∃ c, st.command = .drafting c) → ∀ name, name ∉ steps.flatMap Step.writes →
        (s.run (steps.map .ok)).2.registers.find? name = s.registers.find? name := by
  have hempty : (empty : Chain α).WellFormed := ⟨rfl, List.nodup_nil⟩
  refine ⟨Draft.continues hbase (toList_draft base), Draft.continues hempty rfl,
    fun capacity => Draft.continues hempty rfl, fun row route next => ?_,
    fun row route route' => ?_, fun capacity entries route => ⟨?_, ?_⟩, fun xs route next => ?_,
    fun route next => ?_, ?_, fun σ s steps hsteps name => Session.run_drafting hsteps⟩
  · rw [route.make_eq]
    exact built_prepend row empty next
  · rw [route.make_eq, route'.make_eq]
  · rw [freeze_eq, Draft.toList_enterAll, route.make_eq]
    rfl
  · rw [freeze_eq, Draft.toList_enterAll, route.make_eq]
    rfl
  · rw [route.make_eq, toList_prepend, toList_empty, List.append_nil]
  · rw [route.make_eq, prepend_apply, ← hbase.toList_length]
    exact Nat.zero_add _
  · rw [freeze_eq, toList_draft, ofList_eq]

/-- A draft of a chain takes three more elements in two portions, and is frozen in front of a tail
that shares a cell with the chain. -/
theorem construction_agrees_onto_shared :
    let base : Chain Nat := ⟨[⟨1, 10⟩, ⟨0, 20⟩], 2⟩
    let tail : Chain Nat := ⟨[⟨0, 20⟩], 1⟩
    let d := base.draft.enterAll [.push 30, .extend [40, 50]]
    base.WellFormed ∧ d.size = 5 ∧ (d.freezeOnto tail 2).1.toList = [10, 20, 30, 40, 50, 20] ∧
      (d.freezeOnto tail 2).1.length = 6 ∧ (d.freezeOnto tail 2).1.drop? 5 = some tail := by
  intro base tail d
  have hbase : base.WellFormed := ⟨rfl, by decide⟩
  obtain ⟨⟨hsize, hfreeze⟩, -⟩ := construction_agrees hbase
  have hbuilt := hfreeze [.push 30, .extend [40, 50]] tail 2
  exact ⟨hbase, hsize _, hbuilt.toList, hbuilt.length, hbuilt.kept⟩

end Chain

end SharedList
