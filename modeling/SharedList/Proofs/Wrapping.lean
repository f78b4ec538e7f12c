import Mathlib.Data.Set.Card
import SharedList.Proofs.Counters
import SharedList.Proofs.Runs

/-!
# No counter ever wraps

A well-formed chain has as many nodes as its counter says, all of them alive as long as the chain
is.  So a counter is below `2 ^ 64` while fewer nodes than that are alive at once, however many were
made before; and it is counted down only along nodes that are there.

* `Chain.WellFormed.length_lt` — the counter of a chain with few nodes.
* `NeverWraps` — counting up, as long as few nodes are alive once the result is there.
* `Chain.CountsInFront`, `Chain.CountsAtMatch` — what is put in front of a chain, and what is done at a
  matching key.
* `Fresh.CountsRight` — at every point of an honest computation.
* `Workspace.counters_never_wrap` — after every run.
-/

set_option autoImplicit false

namespace SharedList

variable {α : Type}

/-! ## Nodes that are alive -/

/-- The nodes of a chain are its cells, each known by its label. -/
def Chain.nodes (xs : Chain α) : Set Label := {node | ∃ cell ∈ xs.cells, cell.label = node}

/-- A chain counts its nodes. -/
theorem Chain.WellFormed.encard_nodes {xs : Chain α} (hxs : xs.WellFormed) :
    xs.nodes.encard = xs.length := by
  have hnodes : xs.nodes = ((xs.cells.map (·.label)).toFinset : Set Label) := by
    ext node
    simp [nodes]
  rw [hnodes, Set.encard_coe_eq_coe_finsetCard, List.toFinset_card_of_nodup hxs.nodup,
    List.length_map, hxs.length_eq]

/-- A chain among few nodes has a counter that did not wrap. -/
theorem Chain.WellFormed.length_lt {xs : Chain α} (hxs : xs.WellFormed) {alive : Set Label}
    (hfew : alive.encard < 2 ^ 64) (halive : xs.nodes ⊆ alive) : xs.length < 2 ^ 64 := by
  have hlt := (Set.encard_le_encard halive).trans_lt hfew
  rw [hxs.encard_nodes] at hlt
  exact_mod_cast hlt

/-! ## Counting up -/

/-- Run from `next`, the checked form does what the other does, provided that fewer than `2 ^ 64`
nodes are alive once the result is there, whatever else is. -/
def NeverWraps (next : Label) (checked : Checked (Chain α)) (make : Fresh (Chain α)) : Prop :=
  ∀ alive : Set Label, alive.encard < 2 ^ 64 → (make next).1.nodes ⊆ alive →
    checked next = some (make next)

theorem NeverWraps.of_length {next : Label} {checked : Checked (Chain α)} {make : Fresh (Chain α)}
    (hwf : (make next).1.WellFormed)
    (h : (make next).1.length < 2 ^ 64 → checked next = some (make next)) :
    NeverWraps next checked make :=
  fun _ hfew halive => h (hwf.length_lt hfew halive)

namespace Chain

/-- No counter wraps where something is put in front of the chain. -/
structure CountsInFront (next : Label) (xs : Chain α) : Prop where
  cons : ∀ x, NeverWraps next (Checked.cons x xs) (xs.cons x)
  freezeOnto : ∀ d : Draft α, NeverWraps next (Checked.freezeOnto d xs) (d.freezeOnto xs)
  stack : ∀ row, NeverWraps next (Checked.stack row xs) (stack row xs)

theorem WellFormed.cons {xs : Chain α} (hxs : xs.WellFormed) {next : Label}
    (hbefore : xs.Before next) (x : α) : (xs.cons x next).1.WellFormed := by
  have hbuilt := built_prepend [x] xs next
  rw [prepend_cons] at hbuilt
  exact hbuilt.wellFormed hxs hbefore

theorem WellFormed.countsInFront {xs : Chain α} (hxs : xs.WellFormed) {next : Label}
    (hbefore : xs.Before next) : xs.CountsInFront next := by
  refine ⟨fun x => ?_, fun d => ?_, fun row => ?_⟩
  · exact .of_length (hxs.cons hbefore x) (Checked.cons_eq x)
  · refine .of_length ?_ (Checked.freezeOnto_eq d xs)
    rw [freezeOnto_eq]
    exact (built_prepend d.toList xs next).wellFormed hxs hbefore
  · refine .of_length ?_ (Checked.stack_eq row xs)
    rw [stack_eq]
    exact (built_prepend row.reverse xs next).wellFormed hxs hbefore

/-- No counter wraps where the chain is cut around a matching key, whatever the closure does, and
where the pair there is erased or replaced: as long as fewer than `2 ^ 64` nodes are alive together
with the chain, and with the new pair in front of it. -/
structure CountsAtMatch {κ ν : Type} (next : Label) (xs : Chain (κ × ν)) : Prop where
  split : ∀ (m : Type → Type) [Monad m] [LawfulMonad m] (θ : Type) (key : θ) (eq : κ → θ → m Bool),
    Checked.splitAtKeyM xs key eq = some <$> xs.splitAtKeyM key eq
  erase : ∀ alive : Set Label, alive.encard < 2 ^ 64 → xs.nodes ⊆ alive →
    ∀ (m : Type → Type) [Monad m] [LawfulMonad m] (θ : Type) (key : θ) (eq : κ → θ → m Bool),
      (fun make => make next) <$> Checked.eraseKeyM xs key eq =
        (fun make => some (make next)) <$> xs.eraseKeyM key eq
  set : ∀ (key : κ) (value : ν) (alive : Set Label), alive.encard < 2 ^ 64 →
    (xs.cons (key, value) next).1.nodes ⊆ alive →
    ∀ (m : Type → Type) [Monad m] [LawfulMonad m] (eq : κ → κ → m Bool),
      (fun make => make next) <$> Checked.setKeyM xs key value eq =
        (fun make => some (make next)) <$> xs.setKeyM key value eq

theorem WellFormed.countsAtMatch {κ ν : Type} {xs : Chain (κ × ν)} (hxs : xs.WellFormed)
    {next : Label} (hbefore : xs.Before next) : xs.CountsAtMatch next := by
  have hcells : xs.cells.length ≤ xs.length := Nat.le_of_eq hxs.length_eq.symm
  refine ⟨fun m _ _ θ key eq => Checked.splitAtKeyM_eq hcells key eq,
    fun alive hfew halive m _ _ θ key eq => ?_,
    fun key value alive hfew halive m _ _ eq => ?_⟩
  · exact Checked.eraseKeyM_eq hcells (hxs.length_lt hfew halive) key eq next
  · have hlength := (hxs.cons hbefore (key, value)).length_lt hfew halive
    exact Checked.setKeyM_eq hcells hlength key value eq next

end Chain

/-! ## Worlds -/

section Worlds

variable {W : World} {k : Kind} {xs ys : Chain k.Elem}

theorem World.Owns.before (hxs : W.Owns k xs) : xs.Before W.next := by
  intro cell hcell
  obtain ⟨front, rest, hcells⟩ := List.append_of_mem hcell
  exact (hxs.2 cell rest (hcells ▸ List.suffix_append front _)).1

/-- What is made of covered chains is well formed. -/
theorem Fresh.Makes.neverWraps {make : Fresh (Chain k.Elem)} {checked : Checked (Chain k.Elem)}
    (hmake : Makes W make fun W' ys => W'.CoversChain k ys)
    (h : (make W.next).1.length < 2 ^ 64 → checked W.next = some (make W.next)) :
    NeverWraps W.next checked make := by
  obtain ⟨W', -, -, hcovers⟩ := hmake
  exact .of_length hcovers.1.wellFormed h

end Worlds

namespace Fresh

variable {held : Value → Prop} {out : α → Value → Prop}

/-- Run from `next`, the computation never wraps a counter: not of a chain that it has at hand at
any time, nor where it puts an element in front of one. -/
inductive CountsRight : (Value → Prop) → Label → Fresh α → Prop
  | done {held : Value → Prop} {next : Label} {a : α} :
      (∀ xs, Obtainable held (.list xs) → xs.CountsDown) → CountsRight held next (pure a)
  | cons {held : Value → Prop} {next : Label} {x : Value} {xs : Chain Value}
      {rest : Chain Value → Fresh α} :
      (∀ xs, Obtainable held (.list xs) → xs.CountsDown) →
      NeverWraps next (Checked.cons x xs) (xs.cons x) →
      CountsRight (fun v => v = .list (xs.cons x next).1 ∨ held v) (next + 1)
        (rest (xs.cons x next).1) →
      CountsRight held next (xs.cons x >>= rest)
  | draw {held : Value → Prop} {next : Label} {rest : Label → Fresh α} :
      (∀ xs, Obtainable held (.list xs) → xs.CountsDown) →
      CountsRight held (next + 1) (rest next) → CountsRight held next (label >>= rest)

theorem Honest.countsRight {make : Fresh α} (h : Honest out held make) {W : World}
    (hheld : ∀ v, held v → W.Covers v) : CountsRight held W.next make := by
  have hdown : ∀ {held : Value → Prop} {W : World}, (∀ v, held v → W.Covers v) →
      ∀ xs, Obtainable held (.list xs) → xs.CountsDown := fun hheld xs hxs =>
    (World.covers_list_iff.mp (hxs.covers hheld)).1.wellFormed.countsDown
  induction h generalizing W with
  | done _ => exact .done (hdown hheld)
  | @cons held x xs rest hx hxs _ ih =>
    have hcovers := World.covers_list_iff.mp (hxs.covers hheld)
    obtain ⟨W', he, hnext, hys⟩ := makes_cons (k := .vals) (hx.covers hheld) hcovers
    refine .cons (hdown hheld) ((hcovers.1.wellFormed.countsInFront hcovers.1.before).cons x) ?_
    have hrest := ih W.next (W := W') fun v hv => by
      rcases hv with rfl | hv
      · exact World.covers_list_iff.mpr hys
      · exact (hheld v hv).mono he
    rwa [hnext] at hrest
  | draw _ ih =>
    obtain ⟨W', he, hnext, -⟩ := makes_label W
    have hrest := ih W.next (W := W') fun v hv => (hheld v hv).mono he
    rw [hnext] at hrest
    exact .draw (hdown hheld) hrest

end Fresh

/-! ## Runs -/

namespace Workspace

variable {σ : Type} {holds : σ → Value → Prop} {memory : σ}

/-- The nodes that are alive: those of all chains in the workspace. -/
def alive (holds : σ → Value → Prop) (w : Workspace σ) : Set Label :=
  {node | ∃ (k : Kind) (xs : Chain k.Elem), w.Holds holds k xs ∧ node ∈ xs.nodes}

/-- **No counter ever wraps**, whatever steps and moves were made before.  No subtraction does, along
any chain in the workspace and at any point of its readers.  No addition does as long as fewer than
`2 ^ 64` nodes are alive at once, however many were made: then the counters of all chains in the
workspace are in range, and so is whatever is counted on the way to a result, be it put in front of
a chain or of what is left of one, joined from several chains, or made at a matching key, even if
closures made nodes in between.  And the same holds at every point of what closures do. -/
theorem counters_never_wrap (hmemory : ∀ v, holds memory v → Obtainable (fun _ => False) v)
    {moves : List (Move σ)} (hmoves : (start memory).Lawful holds moves) :
    let w := (start memory).run moves
    let next := w.session.supply
    -- Counting down
    (∀ (k : Kind) (xs : Chain k.Elem), w.Holds holds k xs → xs.CountsDown) ∧
    -- Counting up
    ((w.alive holds).encard < 2 ^ 64 →
      ∀ (k : Kind) (xs : Chain k.Elem), w.Holds holds k xs → xs.length < 2 ^ 64) ∧
    (∀ (k : Kind) (later : Label), next ≤ later → (Chain.empty : Chain k.Elem).CountsInFront later ∧
      ∀ xs : Chain k.Elem, w.Holds holds k xs → ∀ count, (xs.suffix count).CountsInFront later) ∧
    (∀ (k : Kind) (xs ys : Chain k.Elem), w.Holds holds k xs → w.Holds holds k ys →
      NeverWraps next (Checked.append xs ys) (xs.append ys)) ∧
    (∀ (k : Kind) (chains : List (Chain k.Elem)), (∀ xs ∈ chains, w.Holds holds k xs) →
      NeverWraps next (Checked.appendAll chains) (Chain.appendAll chains)) ∧
    (∀ chains : Chain (Chain Value), w.Holds holds .nested chains →
      NeverWraps next (Checked.flatten chains) chains.flatten) ∧
    (∀ xs : Chain (Value × Value), w.Holds holds .pairs xs →
      ∀ later, next ≤ later → xs.CountsAtMatch later) ∧
    -- Closures
    ∀ (α : Type) (out : α → Value → Prop) (make : Fresh α),
      Fresh.Honest out (w.Lists holds) make → Fresh.CountsRight (w.Lists holds) next make := by
  intro w next
  obtain ⟨W, -, hw, -⟩ := (in_start hmemory).run hmoves
  have hnext : next = W.next := hw.session.supply_eq
  clear_value next
  subst hnext
  have howns : ∀ {k : Kind} {xs : Chain k.Elem}, w.Holds holds k xs → W.Owns k xs :=
    fun hxs => (hw.chain hxs).1
  refine ⟨fun k xs hxs => (howns hxs).wellFormed.countsDown, fun hfew k xs hxs => ?_,
    fun k later hlater => ⟨?_, fun xs hxs count => ?_⟩, fun k xs ys hxs hys => ?_,
    fun k chains hchains => ?_, fun chains hchains => ?_, fun xs hxs later hlater => ?_,
    fun α out make hmake => ?_⟩
  · exact (howns hxs).wellFormed.length_lt hfew fun node hnode => ⟨k, xs, hxs, hnode⟩
  · exact Chain.wellFormed_empty.countsInFront ((W.owns_empty k).before.mono hlater)
  · have hrest := (howns hxs).suffix count
    exact hrest.wellFormed.countsInFront (hrest.before.mono hlater)
  · exact (Fresh.makes_append (hw.chain hxs) (hw.chain hys)).neverWraps (Checked.append_eq xs ys)
  · exact (Fresh.makes_appendAll fun xs hxs => hw.chain (hchains xs hxs)).neverWraps
      (Checked.appendAll_eq fun xs hxs => (howns (hchains xs hxs)).wellFormed)
  · have hmake := Fresh.makes_flatten (hw.chain hchains)
    exact hmake.neverWraps (k := .vals) (Checked.flatten_eq chains)
  · exact (howns hxs).wellFormed.countsAtMatch ((howns hxs).before.mono hlater)
  · exact hmake.countsRight fun v => hw.lists

/-- A number is put in front of the tail that was named in the run: two nodes have to be alive. -/
theorem counters_never_wrap_in_sample :
    let w := (start ()).run sampleMoves
    let ts : Chain Value := ⟨[⟨1, .int 1⟩], 1⟩
    w.Holds (fun _ _ => False) .vals ts ∧
      Checked.uncons? ts = some (some (.int 1, .empty)) ∧ Checked.get? ts (2 ^ 64 - 1) = some none ∧
      Checked.cons (.int 7) ts w.session.supply = some (ts.cons (.int 7) w.session.supply) := by
  intro w ts
  have hts : w.Holds (fun _ _ => False) .vals ts := .register (r := .chain .vals _)
    List.mem_cons_self (.content _)
  obtain ⟨hdown, -, hfront, -⟩ := counters_never_wrap nofun lawful_sampleMoves
  have hcons := ((hfront .vals w.session.supply le_rfl).2 ts hts 0).cons (.int 7)
  refine ⟨hts, (hdown .vals ts hts).uncons, ?_, hcons {w.session.supply, 1} ?_ ?_⟩
  · rw [(hdown .vals ts hts).get, Chain.get?_eq]
    rfl
  · have htwo := Set.encard_insert_le {1} w.session.supply
    rw [Set.encard_singleton] at htwo
    refine htwo.trans_lt ?_
    exact_mod_cast (by decide : 1 + 1 < 2 ^ 64)
  · rintro node ⟨cell, hcell, rfl⟩
    rcases List.mem_cons.mp hcell with rfl | hcell
    · exact .inl rfl
    · rw [List.mem_singleton.mp hcell]
      exact .inr rfl

end Workspace

end SharedList
