import SharedList.Proofs.Commands
import SharedList.Session.Run

/-!
# What a step keeps

* `Step.Honest` — the closures of a step are honest, and so are the elements handed to it.
* `Step.writes` — the registers that a step may fill anew or empty.
* `Session.In` — a world covers a session.
* `Session.In.step` — a step comes to a later world, and leaves all other registers as they were.
-/

set_option autoImplicit false

namespace SharedList

variable {σ : Type} {holds : σ → Value → Prop} {W : World}

/-- The closures of a step come by chains only as `Closure.Honest` says, from what they captured
among other things, and the elements handed to it can be had in the same way. -/
structure Step.Honest (holds : σ → Value → Prop) (captured : Value → Prop) (st : Step σ) :
    Prop where
  closures : ∀ f ∈ st.command.closures, f.Honest holds captured
  elements : ∀ v ∈ st.command.elements, Obtainable captured v

/-- The registers that a step may fill anew or empty. -/
def Step.writes (st : Step σ) : List String :=
  st.command.alters ++ st.first.toList ++ st.second.toList

theorem Step.Honest.safe {captured : Value → Prop} {st : Step σ} (h : st.Honest holds captured)
    (hcaptured : ∀ v, captured v → W.Covers v) : st.command.Safe holds W :=
  ⟨fun f hf => (h.closures f hf).safe hcaptured, fun v hv => (h.elements v hv).covers hcaptured⟩

namespace Registers

variable {rs : Registers} {name other : String} {names : List String}

theorem find?_erase_of_ne (h : other ≠ name) : (rs.erase name).find? other = rs.find? other := by
  unfold find? erase
  induction rs.entries with
  | nil => rfl
  | cons entry entries ih =>
    obtain ⟨first, r⟩ := entry
    rw [List.filter_cons]
    split
    · rw [List.lookup_cons, List.lookup_cons, ih]
    · rename_i hfirst
      have heq : first = name := by simpa using hfirst
      have hne : (other == first) = false := by simpa [heq] using h
      rw [ih, List.lookup_cons, hne]

theorem find?_put_of_ne {r : Register} (h : other ≠ name) :
    (rs.put name r).find? other = rs.find? other := by
  have hne : (other == name) = false := by simpa using h
  show List.lookup other ((name, r) :: (rs.erase name).entries) = rs.find? other
  rw [List.lookup_cons, hne]
  exact find?_erase_of_ne h

theorem find?_change_of_ne {change : Option Register} (h : other ≠ name) :
    (rs.change name change).find? other = rs.find? other := by
  cases change with
  | none => exact find?_erase_of_ne h
  | some r => exact find?_put_of_ne h

theorem find?_store_of_not_mem {name? : Option String} {r? : Option Register}
    (h : other ∉ name?.toList) : (rs.store name? r?).find? other = rs.find? other := by
  cases name? with
  | none => rfl
  | some name =>
    cases r? with
    | none => rfl
    | some r => exact find?_put_of_ne (by simpa using h)

theorem find?_changes {changes : List (String × Option Register)}
    (h : ∀ change ∈ changes, other ≠ change.1) :
    (changes.foldl (fun rs (name, r) => rs.change name r) rs).find? other = rs.find? other := by
  induction changes generalizing rs with
  | nil => rfl
  | cons change changes ih =>
    obtain ⟨hhead, hrest⟩ := List.forall_mem_cons.mp h
    rw [List.foldl_cons, ih hrest, find?_change_of_ne hhead]

/-- A step leaves the registers that it does not write as they were. -/
theorem find?_after_of_changes {st : Step σ} {o : Outcome}
    (ho : ∀ change ∈ o.changes, change.1 ∈ st.command.alters) (h : other ∉ st.writes) :
    (rs.after st o).find? other = rs.find? other := by
  simp only [Step.writes, List.mem_append, not_or] at h
  obtain ⟨⟨halters, hfirst⟩, hsecond⟩ := h
  unfold after
  rw [find?_store_of_not_mem hsecond, find?_store_of_not_mem hfirst, find?_changes]
  rintro ⟨name, change⟩ hchange rfl
  exact halters (ho _ hchange)

theorem find?_after {st : Step σ} {o : Outcome} (ho : o.Sound W st.command.alters)
    (h : other ∉ st.writes) : (rs.after st o).find? other = rs.find? other :=
  find?_after_of_changes (fun change hchange => (ho.changes change.1 change.2 hchange).1) h

end Registers

namespace World.CoversRegisters

variable {rs : Registers} {name : String}

theorem erase (h : W.CoversRegisters rs) : W.CoversRegisters (rs.erase name) :=
  fun entry hentry => h entry (List.mem_filter.mp hentry).1

theorem put {r : Register} (h : W.CoversRegisters rs) (hr : W.CoversRegister r) :
    W.CoversRegisters (rs.put name r) := List.forall_mem_cons.mpr ⟨hr, h.erase⟩

theorem change {change : Option Register} (h : W.CoversRegisters rs)
    (hchange : ∀ r, change = some r → W.CoversRegister r) :
    W.CoversRegisters (rs.change name change) := by
  cases change with
  | none => exact h.erase
  | some r => exact h.put (hchange r rfl)

theorem store {name? : Option String} {r? : Option Register} (h : W.CoversRegisters rs)
    (hr : ∀ r, r? = some r → W.CoversRegister r) : W.CoversRegisters (rs.store name? r?) := by
  cases name? with
  | none => exact h
  | some name =>
    cases r? with
    | none => exact h
    | some r => exact h.put (hr r rfl)

/-- The registers after a step are covered if those before it and its outcome are. -/
theorem after {st : Step σ} {o : Outcome} {names : List String} (h : W.CoversRegisters rs)
    (ho : o.Sound W names) : W.CoversRegisters (rs.after st o) := by
  have hchanges := List.foldlRecOn (motive := fun rs => W.CoversRegisters rs) o.changes
    (fun rs (name, r) => rs.change name r) (b := rs) h fun rs hrs change hchange =>
      hrs.change (ho.changes change.1 change.2 hchange).2
  exact (hchanges.store ho.first).store ho.second

end World.CoversRegisters

/-- A session whose supply has come to where the world ends, and which the world covers. -/
structure Session.In (holds : σ → Value → Prop) (W : World) (s : Session σ) : Prop where
  supply_eq : s.supply = W.next
  memory : ∀ v, holds s.memory v → W.Covers v
  registers : W.CoversRegisters s.registers

/-- **A step keeps a session in a world**, and leaves the registers that it does not write as they
were. -/
theorem Session.In.step {s : Session σ} {st : Step σ} (hs : s.In holds W)
    (hst : st.command.Safe holds W) :
    ∃ W', W.Extends W' ∧ (s.step st).2.In holds W' ∧ ∀ name, name ∉ st.writes →
      (s.step st).2.registers.find? name = s.registers.find? name := by
  obtain ⟨W', he, hscratch, houtcome⟩ := st.command.ensures_run hs.registers hst
    ⟨s.supply, s.memory, #[]⟩ ⟨hs.supply_eq, hs.memory⟩
  refine ⟨W', he, ?_⟩
  unfold Session.step
  generalize (st.command.run s.registers).run ⟨s.supply, s.memory, #[]⟩ = ran at hscratch houtcome
  obtain ⟨result, scratch⟩ := ran
  cases result with
  | ok o =>
    have ho := houtcome o rfl
    exact ⟨⟨hscratch.supply_eq, hscratch.covers, (hs.registers.mono he).after ho⟩,
      fun name hname => Registers.find?_after ho hname⟩
  | error fault =>
    exact ⟨⟨hscratch.supply_eq, hscratch.covers, hs.registers.mono he⟩, fun _ _ => rfl⟩

end SharedList
