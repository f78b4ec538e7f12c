import SharedList.Proofs.Workspace

/-!
# What holds after every run

Whatever steps and moves were made, the chains that there are then are sound one by one and two by
two, and nothing that was there before has changed.

* `Chain.Counted` — the cells, the cached length and the readers of a chain agree.
* `Chain.Meets`, `Chain.Coherent` — where two chains meet in a cell, they go on alike.
* `Workspace.chains_counted` — after every run every chain is counted right.
* `Workspace.run_persists` — after every run all chains are coherent, also with those of earlier,
  and only what a move is about has changed.
-/

set_option autoImplicit false

namespace SharedList

variable {α : Type}

/-! ## One chain -/

namespace Chain

/-- The chain is well formed; it is empty just when its length is zero; and its length is the number
of its elements, and of those that its readers give out until they have come to the end. -/
structure Counted (xs : Chain α) : Prop where
  wellFormed : xs.WellFormed
  isEmpty_iff : xs.isEmpty = true ↔ xs.length = 0
  length_toList : xs.toList.length = xs.length
  cursor : xs.cursor.run (List.replicate (xs.length + 1) .next) =
    xs.toList.map (fun x => .item (some x)) ++ [.item none]
  drain : xs.drain.run (List.replicate (xs.length + 1) .next) =
    xs.toList.map (fun x => .item (some x)) ++ [.item none]

theorem WellFormed.counted {xs : Chain α} (h : xs.WellFormed) : xs.Counted where
  wellFormed := h
  isEmpty_iff := by rw [isEmpty, List.isEmpty_iff, h.length_eq, List.length_eq_zero_iff]
  length_toList := h.toList_length
  cursor := by
    rw [run_cursor h]
    exact Row.replies_next xs.toList (h.toList_length ▸ Nat.zero_add _)
  drain := by
    rw [run_drain h]
    exact Row.replies_next xs.toList (h.toList_length ▸ Nat.zero_add _)

/-! ## Two chains -/

/-- What is left of one chain after `i` cells and of the other after `j` starts at one cell. -/
def Meets (xs : Chain α) (i : Nat) (ys : Chain α) (j : Nat) : Prop :=
  ∃ xs' ys', xs.drop? i = some xs' ∧ ys.drop? j = some ys' ∧ xs'.same ys' = true

theorem meets_iff {xs ys : Chain α} {i j : Nat} (hi : i ≤ xs.length) (hj : j ≤ ys.length) :
    xs.Meets i ys j ↔ (xs.suffix i).same (ys.suffix j) = true := by
  simp [Meets, drop?, hi, hj]

theorem same_of_cells_eq {xs ys : Chain α} (h : xs.cells = ys.cells) : xs.same ys = true := by
  have hself := same_refl xs
  unfold same at hself ⊢
  rwa [← h]

/-- Wherever the two chains meet before their ends, equally much is left of them, with the same
elements, and they meet at every place from there on; and two handles on one chain meet only at the
same place. -/
structure Coherent (xs ys : Chain α) : Prop where
  length_eq : ∀ i j, i < xs.length → j < ys.length → xs.Meets i ys j →
    xs.length - i = ys.length - j
  elements_eq : ∀ i j, i < xs.length → j < ys.length → xs.Meets i ys j →
    (xs.drop? i).map toList = (ys.drop? j).map toList
  onward : ∀ i j, i < xs.length → j < ys.length → xs.Meets i ys j →
    ∀ n, n ≤ xs.length - i → xs.Meets (i + n) ys (j + n)
  once : xs.same ys = true → ∀ i j, i < xs.length → j < ys.length → xs.Meets i ys j → i = j

end Chain

section Worlds

variable {W : World} {k : Kind} {xs ys : Chain k.Elem}

/-- Two owned chains that meet have all further cells in common. -/
theorem World.Owns.drop_eq (hx : W.Owns k xs) (hy : W.Owns k ys) {i j : Nat} (hi : i < xs.length)
    (hj : j < ys.length) (h : xs.Meets i ys j) : xs.cells.drop i = ys.cells.drop j :=
  (hx.suffix i).cells_eq (hy.suffix j)
    ((Chain.meets_iff (Nat.le_of_lt hi) (Nat.le_of_lt hj)).mp h)

/-- Two owned chains are coherent. -/
theorem World.Owns.coherent (hx : W.Owns k xs) (hy : W.Owns k ys) : xs.Coherent ys := by
  have hleft : ∀ i j, i < xs.length → j < ys.length → xs.Meets i ys j →
      xs.length - i = ys.length - j := by
    intro i j hi hj h
    have := congrArg List.length (hx.drop_eq hy hi hj h)
    rwa [List.length_drop, List.length_drop, ← hx.1, ← hy.1] at this
  refine ⟨hleft, fun i j hi hj h => ?_, fun i j hi hj h n hn => ?_, fun hsame i j hi hj h => ?_⟩
  · rw [Chain.drop?, Chain.drop?, if_pos (Nat.le_of_lt hi), if_pos (Nat.le_of_lt hj)]
    show some ((xs.cells.drop i).map _) = some ((ys.cells.drop j).map _)
    rw [hx.drop_eq hy hi hj h]
  · have hlen := hleft i j hi hj h
    rw [Chain.meets_iff (by omega) (by omega)]
    refine Chain.same_of_cells_eq ?_
    show xs.cells.drop (i + n) = ys.cells.drop (j + n)
    rw [← List.drop_drop, ← List.drop_drop, hx.drop_eq hy hi hj h]
  · have hlen := hleft i j hi hj h
    have htotal : xs.length = ys.length := by rw [hx.1, hy.1, hx.cells_eq hy hsame]
    omega

end Worlds

/-! ## Runs -/

namespace Workspace

variable {σ : Type} {holds : σ → Value → Prop} {memory : σ}

/-- A chain of a list and a number is made under the name `xs`, a closure puts each of its elements
into a list of its own, the tail of the chain is named, and a reader takes its first element. -/
def sampleMoves : List (Move Unit) :=
  [.step ⟨.creation (.items .vals .list [.list [.int 2], .int 1]), some "xs", none, false, false⟩,
   .step ⟨.traversal "xs" (.map (Expr.closure (.list [.var .x]))), some "ys", none, false, false⟩,
   .step ⟨.reading (.tail "xs"), some "ts", none, false, false⟩,
   .drain "reader" .vals ⟨[⟨2, .list ⟨[⟨0, .int 2⟩], 1⟩⟩, ⟨1, .int 1⟩], 2⟩,
   .ask "reader" .next]

theorem lawful_sampleMoves : (start ()).Lawful (fun _ _ => False) sampleMoves := by
  refine ⟨⟨List.forall_mem_nil _, List.forall_mem_nil _⟩, ⟨?_, List.forall_mem_nil _⟩,
    ⟨List.forall_mem_nil _, List.forall_mem_nil _⟩, ?_, trivial, trivial⟩
  · exact List.forall_mem_singleton.mpr (Expr.closure_honest _ _ _)
  · exact .register (r := .chain .vals _)
      (List.mem_cons_of_mem _ (List.mem_cons_of_mem _ List.mem_cons_self)) (.content _)

/-- **After every run every chain is well formed and counted right**, be it in a register, in a
reader, in the memory, or an element of another chain at whatever depth. -/
theorem chains_counted (hmemory : ∀ v, holds memory v → Obtainable (fun _ => False) v)
    {moves : List (Move σ)} (hmoves : (start memory).Lawful holds moves) (k : Kind)
    (xs : Chain k.Elem) (hxs : ((start memory).run moves).Holds holds k xs) : xs.Counted := by
  obtain ⟨W, -, hw, -⟩ := (in_start hmemory).run hmoves
  exact (hw.chain hxs).1.wellFormed.counted

/-- The list inside the list that the closure made of it. -/
theorem chains_counted_in_sample :
    ((start ()).run sampleMoves).Holds (fun _ _ => False) .vals ⟨[⟨0, .int 2⟩], 1⟩ ∧
      (⟨[⟨0, .int 2⟩], 1⟩ : Chain Value).Counted := by
  have hinside : Value.Holds (.list ⟨[⟨3, .list ⟨[⟨0, .int 2⟩], 1⟩⟩], 1⟩) ⟨[⟨0, .int 2⟩], 1⟩ :=
    .deeper List.mem_cons_self (.here _)
  have hxs : ((start ()).run sampleMoves).Holds (fun _ _ => False) .vals ⟨[⟨0, .int 2⟩], 1⟩ :=
    .register (r := .chain .vals _) (List.mem_cons_of_mem _ List.mem_cons_self)
      (.element List.mem_cons_self hinside)
  exact ⟨hxs, chains_counted nofun lawful_sampleMoves .vals _ hxs⟩

/-- What has become of a workspace `w` by the time that it is `w'`, after the `later` moves. -/
structure Persists (holds : σ → Value → Prop) (w : Workspace σ) (later : List (Move σ))
    (w' : Workspace σ) : Prop where
  /-- The chains of then and those of now are coherent. -/
  coherent : ∀ (k : Kind) (xs ys : Chain k.Elem), w.Holds holds k xs → w'.Holds holds k ys →
    xs.Coherent ys
  /-- Only registers that the moves write and readers that they address have changed. -/
  kept : w.Keeps (later.flatMap Move.writes) (later.flatMap Move.addresses) w'
  /-- A reader that is asked moves on by itself, in its chain, to where the request takes a cursor
  over the row of the chain's elements. -/
  asked : ∀ name request, (w'.ask name request).session = w'.session ∧
    w'.Keeps [] [name] (w'.ask name request) ∧
    ∀ r, w'.readers name = some r →
      (Row.reply r.drain.chain.toList 0 request).2 ≤ r.drain.chain.length ∧
      (w'.ask name request).readers name = some ⟨r.kind,
        ⟨r.drain.chain.suffix (Row.reply r.drain.chain.toList 0 request).2⟩⟩

/-- **After every run all chains are coherent, and what was there before is as it was.**  With no
later moves this is about any two chains at one time. -/
theorem run_persists (hmemory : ∀ v, holds memory v → Obtainable (fun _ => False) v)
    {before later : List (Move σ)} (hmoves : (start memory).Lawful holds (before ++ later)) :
    ((start memory).run before).Persists holds later ((start memory).run (before ++ later)) := by
  obtain ⟨hbefore, hlater⟩ := Lawful.of_append hmoves
  obtain ⟨W, -, hw, -⟩ := (in_start hmemory).run hbefore
  obtain ⟨W', he, hw', hkept⟩ := hw.run hlater
  rw [← run_append] at hw' hkept
  refine ⟨fun k xs ys hxs hys => ?_, hkept, fun name request => ?_⟩
  · exact ((hw.chain hxs).1.mono he).coherent (hw'.chain hys).1
  · exact ask_spec _ name request fun r hr => (hw'.readers name r hr).1.wellFormed

/-- The chain and, after all moves, its tail, which it meets after one cell. -/
theorem run_persists_in_sample :
    let xs : Chain Value := ⟨[⟨2, .list ⟨[⟨0, .int 2⟩], 1⟩⟩, ⟨1, .int 1⟩], 2⟩
    let ts : Chain Value := ⟨[⟨1, .int 1⟩], 1⟩
    ((start ()).run (sampleMoves.take 1)).Persists (fun _ _ => False) (sampleMoves.drop 1)
      ((start ()).run sampleMoves) ∧ xs.Meets 1 ts 0 ∧ xs.Coherent ts := by
  have hpersists : ((start ()).run (sampleMoves.take 1)).Persists (fun _ _ => False)
      (sampleMoves.drop 1) ((start ()).run sampleMoves) := run_persists nofun lawful_sampleMoves
  refine ⟨hpersists, ⟨_, _, rfl, rfl, rfl⟩, hpersists.coherent .vals _ _ ?_ ?_⟩
  · exact .register (r := .chain .vals _) List.mem_cons_self (.content _)
  · exact .register (r := .chain .vals _) List.mem_cons_self (.content _)

end Workspace

end SharedList
