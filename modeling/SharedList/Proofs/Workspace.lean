import SharedList.Proofs.Readers
import SharedList.Proofs.Steps

/-!
# Workspaces: all that holds chains

A session holds chains in its registers and in the memory of its closures.  Its caller holds more:
readers that own a chain and are read little by little, and the elements that they have given out.
A **workspace** is a session together with all this, and a **move** is what may happen in it next:
a step of the session, or something that the caller does with the chains at hand.

* `Workspace.Holds` — a chain is in the workspace: in a register, a reader, an element that a
  reader gave out, or the memory.
* `Workspace.move`, `Workspace.run` — one move, and one after the other.
* `Workspace.Lawful` — each move makes use only of chains that are there, and the closures are
  honest.
* `Workspace.In` — the invariant: a world covers the workspace.  `In.move` keeps it for one move and
  `In.run` for a run.
* `Workspace.Keeps` — which registers and readers are as they were.
-/

set_option autoImplicit false

namespace SharedList

variable {σ : Type} {holds : σ → Value → Prop} {W W' : World} {k : Kind}

/-! ## Readers -/

/-- A reader that owns a chain of some kind. -/
structure Reader where
  kind : Kind
  drain : Drain kind.Elem

/-- The elements that a reply gives out. -/
def Reply.elements {α : Type} : Reply α → List α
  | item x => x.toList
  | items xs => xs
  | length _ => []
  | sizeHint _ _ => []

/-- Whatever is asked, the reference gives out elements of the row. -/
theorem Row.mem_of_mem_reply {α : Type} {row : List α} {place : Nat} {request : Request} {x : α}
    (hx : x ∈ (Row.reply row place request).1.elements) : x ∈ row := by
  cases request with
  | next => exact List.mem_of_getElem? (Option.mem_toList.mp hx)
  | length => cases hx
  | sizeHint => cases hx
  | peekRest => exact List.mem_of_mem_drop hx
  | rest => exact List.mem_of_mem_drop hx

/-! ## Workspaces and moves -/

/-- A session, the readers that are open, and what readers have given out. -/
structure Workspace (σ : Type) where
  session : Session σ
  readers : String → Option Reader
  given : List ((k : Kind) × k.Elem)

/-- What may happen next in a workspace. -/
inductive Move (σ : Type) where
  /-- A step of the session. -/
  | step (st : Step σ)
  /-- A further handle on a chain, in a register. -/
  | keep (name : String) (k : Kind) (xs : Chain k.Elem)
  /-- An element in front of a chain, in a register. -/
  | cons (name : String) (k : Kind) (x : k.Elem) (xs : Chain k.Elem)
  /-- A reader that owns a chain. -/
  | drain (name : String) (k : Kind) (xs : Chain k.Elem)
  /-- A reader is asked. -/
  | ask (name : String) (request : Request)
  /-- A reader is given up. -/
  | close (name : String)

/-- The registers that a move may fill anew or empty. -/
def Move.writes : Move σ → List String
  | step st => st.writes
  | keep name _ _ | cons name _ _ _ => [name]
  | drain _ _ _ | ask _ _ | close _ => []

/-- The readers that a move opens, asks or closes. -/
def Move.addresses : Move σ → List String
  | step _ | keep _ _ _ | cons _ _ _ _ => []
  | drain name _ _ | ask name _ | close name => [name]

namespace Workspace

/-- A workspace in which there is nothing yet but a memory. -/
def start (memory : σ) : Workspace σ := ⟨Session.start memory, fun _ => none, []⟩

/-- The chain is in the workspace. -/
inductive Holds (holds : σ → Value → Prop) (w : Workspace σ) : (k : Kind) → Chain k.Elem → Prop
  | register {name : String} {r : Register} {k : Kind} {xs : Chain k.Elem} :
      (name, r) ∈ w.session.registers.entries → r.Holds k xs → Holds holds w k xs
  | reader {name : String} {r : Reader} {k : Kind} {xs : Chain k.Elem} :
      w.readers name = some r → (Register.chain r.kind r.drain.chain).Holds k xs →
      Holds holds w k xs
  | given {k : Kind} {x : k.Elem} {xs : Chain Value} :
      ⟨k, x⟩ ∈ w.given → k.Holds x xs → Holds holds w .vals xs
  | memory {v : Value} {xs : Chain Value} :
      holds w.session.memory v → v.Holds xs → Holds holds w .vals xs

/-- The workspace after a reader was asked. -/
def ask (w : Workspace σ) (name : String) (request : Request) : Workspace σ :=
  match w.readers name with
  | none => w
  | some r =>
    let (reply, drain) := r.drain.reply request
    { w with
      readers := Function.update w.readers name (some ⟨r.kind, drain⟩)
      given := reply.elements.map (⟨r.kind, ·⟩) ++ w.given }

/-- The workspace after a move. -/
def move (w : Workspace σ) : Move σ → Workspace σ
  | .step st => { w with session := (w.session.step st).2 }
  | .keep name k xs =>
    { w with session.registers := w.session.registers.put name (.chain k xs) }
  | .cons name k x xs =>
    let (ys, supply) := xs.cons x w.session.supply
    { w with
      session.supply := supply
      session.registers := w.session.registers.put name (.chain k ys) }
  | .drain name k xs => { w with readers := Function.update w.readers name (some ⟨k, xs.drain⟩) }
  | .ask name request => w.ask name request
  | .close name => { w with readers := Function.update w.readers name none }

/-- The workspace after one move after the other. -/
def run (w : Workspace σ) (moves : List (Move σ)) : Workspace σ := moves.foldl move w

/-- The chains of values that are in the workspace, as values. -/
def Lists (holds : σ → Value → Prop) (w : Workspace σ) (v : Value) : Prop :=
  ∃ xs, w.Holds holds .vals xs ∧ v = .list xs

/-- The element can be had from what is in the workspace without making a cell. -/
def AtHand (holds : σ → Value → Prop) (w : Workspace σ) : (k : Kind) → k.Elem → Prop
  | .vals, (v : Value) => Obtainable (w.Lists holds) v
  | .pairs, (p : Value × Value) =>
    Obtainable (w.Lists holds) p.1 ∧ Obtainable (w.Lists holds) p.2
  | .nested, (xs : Chain Value) => Obtainable (w.Lists holds) (.list xs)
  | .floats, _ => True

/-- The move makes use only of chains that are in the workspace. -/
def Allows (holds : σ → Value → Prop) (w : Workspace σ) : Move σ → Prop
  | .step st => st.Honest holds (w.Lists holds)
  | .keep _ k xs | .drain _ k xs => w.Holds holds k xs
  | .cons _ k x xs => w.AtHand holds k x ∧ w.Holds holds k xs
  | .ask _ _ | .close _ => True

/-- Each move is allowed in the workspace in which it is made. -/
def Lawful (holds : σ → Value → Prop) : Workspace σ → List (Move σ) → Prop
  | _, [] => True
  | w, m :: moves => w.Allows holds m ∧ (w.move m).Lawful holds moves

/-- All registers but those named, and all readers but those named, are as they were, and what was
given out still is. -/
structure Keeps (registers readers : List String) (w w' : Workspace σ) : Prop where
  registers : ∀ name, name ∉ registers →
    w'.session.registers.find? name = w.session.registers.find? name
  readers : ∀ name, name ∉ readers → w'.readers name = w.readers name
  given : ∀ x ∈ w.given, x ∈ w'.given

/-- The invariant: a world covers all that is in the workspace. -/
structure In (holds : σ → Value → Prop) (W : World) (w : Workspace σ) : Prop where
  session : w.session.In holds W
  readers : ∀ name r, w.readers name = some r → W.CoversChain r.kind r.drain.chain
  given : ∀ x ∈ w.given, W.CoversElem x.1 x.2

variable {w w' w'' : Workspace σ}

/-! ## What a move keeps -/

namespace Keeps

theorem refl (registers readers : List String) (w : Workspace σ) : w.Keeps registers readers w :=
  ⟨fun _ _ => rfl, fun _ _ => rfl, fun _ hx => hx⟩

theorem trans {registers registers' readers readers' : List String}
    (h : w.Keeps registers readers w') (h' : w'.Keeps registers' readers' w'') :
    w.Keeps (registers ++ registers') (readers ++ readers') w'' := by
  refine ⟨fun name hname => ?_, fun name hname => ?_, fun x hx => h'.given x (h.given x hx)⟩
  · rw [List.mem_append, not_or] at hname
    rw [h'.registers name hname.2, h.registers name hname.1]
  · rw [List.mem_append, not_or] at hname
    rw [h'.readers name hname.2, h.readers name hname.1]

end Keeps

theorem update_of_not_mem (w : Workspace σ) {name other : String} (r? : Option Reader)
    (h : other ∉ [name]) : Function.update w.readers name r? other = w.readers other :=
  Function.update_of_ne (List.ne_of_not_mem_cons h) _ _

/-- Asking a reader changes neither the session nor any other reader, and moves the reader itself
on in its chain, to where the request takes the reference. -/
theorem ask_spec (w : Workspace σ) (name : String) (request : Request)
    (hwf : ∀ r, w.readers name = some r → r.drain.chain.WellFormed) :
    (w.ask name request).session = w.session ∧ w.Keeps [] [name] (w.ask name request) ∧
      ∀ r, w.readers name = some r →
        (Row.reply r.drain.chain.toList 0 request).2 ≤ r.drain.chain.length ∧
        (w.ask name request).readers name = some ⟨r.kind,
          ⟨r.drain.chain.suffix (Row.reply r.drain.chain.toList 0 request).2⟩⟩ := by
  unfold ask
  split
  · rename_i hnone
    exact ⟨rfl, .refl _ _ w, fun r hr => absurd hr (by simp [hnone])⟩
  · rename_i r hr
    have hmoved := (Opened.reply_spec (hwf r hr) (Opened.standsAt_owning r.drain) request).2
    refine ⟨rfl, ⟨fun _ _ => rfl, fun other hother => w.update_of_not_mem _ hother,
      fun x hx => List.mem_append_right _ hx⟩, fun r' hr' => ?_⟩
    obtain rfl : r = r' := Option.some.inj (hr.symm.trans hr')
    refine ⟨hmoved.le, ?_⟩
    rw [← hmoved.ahead]
    exact Function.update_self _ _ _

namespace In

/-- Every chain in a covered workspace is covered. -/
theorem chain (hw : w.In holds W) {xs : Chain k.Elem} (hxs : w.Holds holds k xs) :
    W.CoversChain k xs := by
  cases hxs with
  | register hr hxs => exact (hw.session.registers _ hr).chain hxs
  | reader hr hxs =>
    exact (World.coversRegister_chain_iff.mpr (hw.readers _ _ hr)).chain hxs
  | given hx hxs => exact (hw.given _ hx).chain hxs
  | memory hv hxs => exact (hw.session.memory _ hv).chain hxs

theorem lists (hw : w.In holds W) {v : Value} (hv : w.Lists holds v) : W.Covers v := by
  obtain ⟨xs, hxs, rfl⟩ := hv
  exact World.covers_list_iff.mpr (hw.chain hxs)

theorem elem (hw : w.In holds W) {x : k.Elem} (hx : w.AtHand holds k x) : W.CoversElem k x := by
  cases k with
  | vals => exact hx.covers fun _ => hw.lists
  | pairs =>
    exact World.coversElem_pairs_iff.mpr
      ⟨hx.1.covers fun _ => hw.lists, hx.2.covers fun _ => hw.lists⟩
  | nested => exact Obtainable.covers hx fun _ => hw.lists
  | floats => exact W.coversElem_floats x

/-- One reader more, or one less. -/
theorem update (hw : w.In holds W) (name : String) {r? : Option Reader}
    (hr : ∀ r, r? = some r → W.CoversChain r.kind r.drain.chain) :
    ∀ other r, Function.update w.readers name r? other = some r →
      W.CoversChain r.kind r.drain.chain := by
  intro other r h
  by_cases hname : other = name
  · rw [hname, Function.update_self] at h
    exact hr r h
  · rw [Function.update_of_ne hname] at h
    exact hw.readers other r h

theorem ask (hw : w.In holds W) (name : String) (request : Request) :
    (w.ask name request).In holds W := by
  unfold Workspace.ask
  split
  · exact hw
  · rename_i r hr
    have hchain := hw.readers name r hr
    obtain ⟨hreply, hmoved⟩ :=
      Opened.reply_spec hchain.1.wellFormed (Opened.standsAt_owning r.drain) request
    refine ⟨hw.session, hw.update name fun r' hr' => ?_, fun x hx => ?_⟩
    · cases hr'
      show W.CoversChain r.kind ((Opened.owning r.drain).reply request).2.ahead
      rw [hmoved.ahead]
      exact hchain.suffix _
    · rcases List.mem_append.mp hx with hx | hx
      · obtain ⟨y, hy, rfl⟩ := List.mem_map.mp hx
        have hmem : y ∈ (Row.reply r.drain.chain.toList 0 request).1.elements := hreply ▸ hy
        exact hchain.2 y (Row.mem_of_mem_reply hmem)
      · exact hw.given x hx

/-- **One move**: a workspace in a world comes to one in a later world, in which all registers and
readers that the move is not about are as they were. -/
theorem move (hw : w.In holds W) {m : Move σ} (hm : w.Allows holds m) :
    ∃ W', W.Extends W' ∧ (w.move m).In holds W' ∧ w.Keeps m.writes m.addresses (w.move m) := by
  cases m with
  | step st =>
    have hsafe : st.command.Safe holds W := Step.Honest.safe hm fun _ => hw.lists
    obtain ⟨W', he, hsession, hkept⟩ := hw.session.step hsafe
    exact ⟨W', he, ⟨hsession, fun name r hr => (hw.readers name r hr).mono he,
      fun x hx => (hw.given x hx).mono he⟩, hkept, fun _ _ => rfl, fun _ hx => hx⟩
  | keep name k xs =>
    have hregister := World.coversRegister_chain_iff.mpr (hw.chain hm)
    refine ⟨W, .refl W, ⟨⟨hw.session.supply_eq, hw.session.memory, hw.session.registers.put
      hregister⟩, hw.readers, hw.given⟩, fun other hother => ?_, fun _ _ => rfl, fun _ hx => hx⟩
    exact Registers.find?_put_of_ne fun heq => hother (heq ▸ List.mem_cons_self)
  | cons name k x xs =>
    obtain ⟨hx, hxs⟩ := hm
    obtain ⟨W', he, hnext, hys⟩ := Fresh.makes_cons (hw.elem hx) (hw.chain hxs)
    rw [← hw.session.supply_eq] at hnext hys
    have hregisters : W'.CoversRegisters (w.session.registers.put name
        (.chain k (xs.cons x w.session.supply).1)) :=
      (hw.session.registers.mono he).put (World.coversRegister_chain_iff.mpr hys)
    refine ⟨W', he, ⟨⟨hnext.symm, fun v hv => (hw.session.memory v hv).mono he, hregisters⟩,
      fun name r hr => (hw.readers name r hr).mono he, fun x hx => (hw.given x hx).mono he⟩,
      fun other hother => ?_, fun _ _ => rfl, fun _ hx => hx⟩
    exact Registers.find?_put_of_ne fun heq => hother (heq ▸ List.mem_cons_self)
  | drain name k xs =>
    refine ⟨W, .refl W, ⟨hw.session, hw.update name fun r hr => ?_, hw.given⟩, fun _ _ => rfl,
      fun other hother => w.update_of_not_mem _ hother, fun _ hx => hx⟩
    cases hr
    exact hw.chain hm
  | ask name request =>
    have hwf := fun r hr => (hw.readers name r hr).1.wellFormed
    exact ⟨W, .refl W, hw.ask name request, (w.ask_spec name request hwf).2.1⟩
  | close name =>
    exact ⟨W, .refl W, ⟨hw.session, hw.update name nofun, hw.given⟩, fun _ _ => rfl,
      fun other hother => w.update_of_not_mem _ hother, fun _ hx => hx⟩

/-- **A run**: the same for one move after the other. -/
theorem run (hw : w.In holds W) {moves : List (Move σ)} (hmoves : w.Lawful holds moves) :
    ∃ W', W.Extends W' ∧ (w.run moves).In holds W' ∧
      w.Keeps (moves.flatMap Move.writes) (moves.flatMap Move.addresses) (w.run moves) := by
  induction moves generalizing w W with
  | nil => exact ⟨W, .refl W, hw, .refl _ _ w⟩
  | cons m moves ih =>
    obtain ⟨hm, hrest⟩ := hmoves
    obtain ⟨W', he, hw', hkept⟩ := hw.move hm
    obtain ⟨W'', he', hw'', hkept'⟩ := ih hw' hrest
    rw [List.flatMap_cons, List.flatMap_cons]
    exact ⟨W'', he.trans he', hw'', hkept.trans hkept'⟩

end In

/-- The world before anything was made. -/
def emptyWorld : World := ⟨0, fun _ _ => []⟩

/-- At the start there are no chains but empty ones, which the memory may hold. -/
theorem in_start {memory : σ} (hmemory : ∀ v, holds memory v → Obtainable (fun _ => False) v) :
    (start memory).In holds emptyWorld :=
  ⟨⟨rfl, fun v hv => (hmemory v hv).covers nofun, List.forall_mem_nil _⟩, nofun,
    List.forall_mem_nil _⟩

theorem run_append (w : Workspace σ) (before later : List (Move σ)) :
    w.run (before ++ later) = (w.run before).run later := List.foldl_append ..

theorem Lawful.of_append {before later : List (Move σ)} (h : w.Lawful holds (before ++ later)) :
    w.Lawful holds before ∧ (w.run before).Lawful holds later := by
  induction before generalizing w with
  | nil => exact ⟨trivial, h⟩
  | cons m before ih =>
    obtain ⟨hm, hrest⟩ := h
    obtain ⟨hbefore, hlater⟩ := ih hrest
    exact ⟨⟨hm, hbefore⟩, hlater⟩

end Workspace

end SharedList
