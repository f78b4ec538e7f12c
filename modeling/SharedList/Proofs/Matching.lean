import SharedList.Proofs.Associating
import SharedList.Proofs.Building
import SharedList.Proofs.Deciding

/-!
# Where the operations on association lists find their pair

Looking a key up, asking for it, removing it and setting it are loops of their own, but all of them
ask about the stored keys from the front and act where the first answer is yes.  So they make the
same calls, whatever the closure does on a call, and find the same position.

* `Call.yesAt` — the position of the first call that was answered with yes; `StopsAt.of_yesAt` says
  which calls were made up to there.
* `loop_yesAt` — a loop that acts on that position, whatever it carries along.
* `Chain.callsUntil_lookupM`, `callsUntil_hasKeyM`, `callsUntil_eraseKeyM`, `callsUntil_setKeyM` — the
  four operations are such loops.
* `Chain.ReplacedAt` — what an update at a position keeps and what it makes anew.
* `Chain.keys_matched_alike` — all of this together.
-/

set_option autoImplicit false

namespace SharedList

variable {m : Type → Type} [Monad m] {ι α ρ δ κ ν θ : Type}

/-! ## The call that was answered with yes -/

/-- The position of the first call that was answered with yes. -/
def Call.yesAt (calls : List (Call ι Bool)) : Option Nat := calls.findIdx? (·.answer)

theorem Call.yesAt_cons_of_no {call : Call ι Bool} (h : call.answer = false)
    (calls : List (Call ι Bool)) : yesAt (call :: calls) = (yesAt calls).map (· + 1) := by
  simp [yesAt, List.findIdx?_cons, h]

/-- Calls that stop at the first yes are about the arguments up to the one that was answered so. -/
theorem StopsAt.of_yesAt {args : List ι} {calls : List (Call ι Bool)} (h : StopsAt id args calls)
    {i : Nat} (hi : Call.yesAt calls = some i) :
    i < args.length ∧ calls.map (·.arg) = args.take (i + 1) := by
  obtain ⟨hlt, hyes, -⟩ := List.findIdx?_eq_some_iff_getElem.mp hi
  have hlast : calls.length = i + 1 := by
    rcases Nat.lt_or_ge (i + 1) calls.length with hmore | hless
    · have hmem : calls[i] ∈ calls.dropLast := by
        have hdrop : i < calls.dropLast.length := by simp; omega
        have := List.getElem_mem hdrop
        rwa [List.getElem_dropLast] at this
      have hno := h.undecided calls[i] hmem
      simp [hyes] at hno
    · omega
  have hfront := List.prefix_iff_eq_take.mp h.front
  have hle := h.front.length_le
  rw [List.length_map, hlast] at hfront hle
  exact ⟨hle, hfront⟩

/-- Without a yes, all arguments were asked about. -/
theorem StopsAt.of_yesAt_none {args : List ι} {calls : List (Call ι Bool)}
    (h : StopsAt id args calls) (hnone : Call.yesAt calls = none) :
    calls.map (·.arg) = args ∧ ∀ call ∈ calls, call.answer = false := by
  have hno : ∀ call ∈ calls, call.answer = false := List.findIdx?_eq_none_iff.mp hnone
  refine ⟨h.complete ?_, hno⟩
  rw [Call.deciding, List.find?_eq_none]
  intro call hcall
  simp [hno call hcall]

/-- A loop that asks about its items one by one, and acts on the first that is answered with yes,
makes the calls of the reference and acts on the position of its yes.  What it carries along, and
what it makes at the end, may depend on the items that it has passed. -/
theorem loop_yesAt [LawfulMonad m] (f : ι → m Bool) (arg : α → ι) (pass : δ → α → δ)
    (result : δ → List α → Option Nat → ρ) (loop : δ → List α → m ρ)
    (hnil : ∀ d, loop d [] = pure (result d [] none))
    (hcons : ∀ d x xs, loop d (x :: xs) = f (arg x) >>= fun answer =>
      if answer then pure (result d (x :: xs) (some 0)) else loop (pass d x) xs)
    (hpass : ∀ d x xs at?, result d (x :: xs) (at?.map (· + 1)) = result (pass d x) xs at?)
    (d : δ) (xs : List α) :
    loop d xs = (fun calls => result d xs (Call.yesAt calls)) <$> callUntil id f (xs.map arg) := by
  induction xs generalizing d with
  | nil => simp [hnil, callUntil, Call.yesAt]
  | cons x xs ih =>
    rw [hcons, List.map_cons, callUntil, map_bind]
    congr 1
    funext answer
    cases answer with
    | true => simp [Call.yesAt]
    | false =>
      have hno : ∀ calls : List (Call ι Bool), result d (x :: xs)
          (Call.yesAt (⟨arg x, false⟩ :: calls)) = result (pass d x) xs (Call.yesAt calls) := by
        intro calls
        rw [Call.yesAt_cons_of_no rfl, hpass]
      simp [ih, hno]

namespace Chain

/-! ## Loops over association lists -/

/-- What the operations ask about: each stored key, together with the key searched for. -/
def asked (t : Chain (κ × ν)) (key : θ) : List (κ × θ) := t.toList.map fun pair => (pair.1, key)

/-- The elements before the position and then those of `row` in new cells, in front of the cells
after the position. -/
def replaceAt (t : Chain α) (i : Nat) (row : List α) : Fresh (Chain α) :=
  prepend (t.toList.take i ++ row) (t.suffix (i + 1))

section Loops

variable (t : Chain (κ × ν)) (key : θ)

theorem callsUntil_lookupM :
    CallsUntil id (t.asked key) (fun calls => (Call.yesAt calls).bind fun i => (t.get? i).map (·.2))
      fun _ _ eq => t.lookupM key fun stored searched => eq (stored, searched) := by
  refine .of_eq fun m _ _ eq => ?_
  have hloop := loop_yesAt eq (fun pair : κ × ν => (pair.1, key)) (fun (_ : Unit) _ => ())
    (fun _ xs at? => at?.bind fun i => xs[i]?)
    (fun _ xs => find?M.ask (fun pair => eq (pair.1, key)) xs) ?_ ?_ ?_ () t.toList
  · unfold lookupM find?M
    rw [hloop]
    simp only [get?_eq, bind_pure_comp, Functor.map_map, Option.map_bind]
    rfl
  · intro _
    rfl
  · intro _ x xs
    rw [find?M.ask]
    rfl
  · intro _ x xs at?
    cases at? <;> rfl

theorem callsUntil_hasKeyM :
    CallsUntil id (t.asked key) (fun calls => (Call.yesAt calls).isSome)
      fun _ _ eq => t.hasKeyM key fun stored searched => eq (stored, searched) := by
  refine .of_eq fun m _ _ eq => ?_
  refine loop_yesAt eq (fun pair : κ × ν => (pair.1, key)) (fun (_ : Unit) _ => ())
    (fun _ _ at? => at?.isSome)
    (fun _ xs => anyM.ask (fun pair => eq (pair.1, key)) xs) ?_ ?_ ?_ () t.toList
  · intro _
    rfl
  · intro _ x xs
    rw [anyM.ask]
    rfl
  · intro _ x xs at?
    cases at? <;> rfl

/-- The search drafts the pairs before the match and goes on with the cells after it. -/
theorem splitAtKeyM_yesAt {m : Type → Type} [Monad m] [LawfulMonad m] (eq : κ × θ → m Bool) :
    (t.splitAtKeyM key fun stored searched => eq (stored, searched)) =
      (fun calls => (Call.yesAt calls).map fun i =>
        (Draft.empty.extend (t.toList.take i), t.suffix (i + 1))) <$>
        callUntil id eq (t.asked key) := by
  have hloop := loop_yesAt eq (fun cell : Cell (κ × ν) => (cell.value.1, key))
    (fun (before : Draft (κ × ν)) cell => before.push cell.value)
    (fun before cells at? => at?.map fun i =>
      (before.extend ((cells.take i).map (·.value)),
        (⟨cells.drop (i + 1), t.length - (before.size + i) - 1⟩ : Chain (κ × ν))))
    (splitAtKeyM.search t key fun stored searched => eq (stored, searched)) ?_ ?_ ?_ .empty t.cells
  · have hasked : t.asked key = t.cells.map fun cell => (cell.value.1, key) := by
      simp [asked, toList]
    unfold splitAtKeyM
    rw [hloop, hasked]
    simp only [toList, List.map_take, suffix, Draft.size_eq, Draft.toList_empty, List.length_nil,
      Nat.zero_add, Nat.sub_sub]
  · intro before
    rfl
  · intro before cell rest
    rw [splitAtKeyM.search]
    rfl
  · intro before cell rest at?
    cases at? with
    | none => rfl
    | some i =>
      have hsize : (before.push cell.value).size = before.size + 1 := by simp [Draft.size_eq]
      have hcount : before.size + (i + 1) = (before.push cell.value).size + i := by omega
      simp only [Option.map_some, hcount]
      rfl

theorem callsUntil_eraseKeyM :
    CallsUntil id (t.asked key)
      (fun calls => (Call.yesAt calls).elim (pure t) fun i => t.replaceAt i [])
      fun _ _ eq => t.eraseKeyM key fun stored searched => eq (stored, searched) := by
  refine .of_eq fun m _ _ eq => ?_
  unfold eraseKeyM
  rw [splitAtKeyM_yesAt, bind_map_left, map_eq_pure_bind]
  congr 1
  funext calls
  cases Call.yesAt calls with
  | none => rfl
  | some i => simp [freezeOnto_eq, replaceAt]

theorem callsUntil_setKeyM (key : κ) (value : ν) :
    CallsUntil id (t.asked key)
      (fun calls => (Call.yesAt calls).elim (t.cons (key, value)) fun i =>
        t.replaceAt i [(key, value)])
      fun _ _ eq => t.setKeyM key value fun stored searched => eq (stored, searched) := by
  refine .of_eq fun m _ _ eq => ?_
  unfold setKeyM
  rw [splitAtKeyM_yesAt, bind_map_left, map_eq_pure_bind]
  congr 1
  funext calls
  cases Call.yesAt calls with
  | none => rfl
  | some i =>
    simp only [Option.map_some, Option.elim_some, freezeOnto_eq, replaceAt, prepend_append,
      Draft.toList_extend, Draft.toList_empty, List.nil_append]
    rfl

end Loops

/-! ## Updates at a position -/

/-- In the result `row` stands where the element at the position stood.  What came before it is
copied and what came after it is kept. -/
structure ReplacedAt (next : Label) (t : Chain α) (i : Nat) (row : List α) (result : Chain α) :
    Prop where
  toList_eq : result.toList = t.toList.take i ++ row ++ t.toList.drop (i + 1)
  length_eq : result.length + 1 = t.length + row.length
  /-- The result goes on with the very cells of the chain, and counts them right. -/
  kept : ∃ rest, t.drop? (i + 1) = some rest ∧ result.drop? (i + row.length) = some rest ∧
    rest.length = t.length - (i + 1)
  /-- No cell before these is a cell of a chain made before. -/
  isNew : ∀ old : Chain α, old.Before next → ∀ cell ∈ result.cells.take (i + row.length),
    ∀ other ∈ old.cells, cell.label ≠ other.label

theorem replacedAt_replaceAt {t : Chain α} (ht : t.WellFormed) {i : Nat} (hi : i < t.length)
    (row : List α) (next : Label) : ReplacedAt next t i row (t.replaceAt i row next).1 := by
  have hbuilt := built_prepend (t.toList.take i ++ row) (t.suffix (i + 1)) next
  have hrow : (t.toList.take i ++ row).length = i + row.length := by
    rw [List.length_append, List.length_take, ht.toList_length]
    omega
  have hrest : (t.suffix (i + 1)).length = t.length - (i + 1) := rfl
  have hlength := hbuilt.length
  have hkept := hbuilt.kept
  have hnew := hbuilt.new
  rw [hrow] at hlength hkept hnew
  refine ⟨?_, ?_, ⟨t.suffix (i + 1), ?_, hkept, hrest⟩, hnew⟩
  · rw [← toList_suffix]
    exact hbuilt.toList
  · rw [replaceAt, hlength, hrest]
    omega
  · rw [drop?, if_pos (by omega)]

/-! ## The four operations -/

/-- **All operations on an association list ask alike and act on the same pair.**  Whatever the
closure does on a call, they ask about the stored keys from the front, each with the key searched
for, and stop at the first yes.  A lookup gives the value at that position; removing takes its pair
away, and setting puts the given key and value there, where everything after it keeps its cells and
everything before it is new.  Without a yes, nothing is found, removing gives back the very chain
and setting puts the pair in front of it. -/
theorem keys_matched_alike {t : Chain (κ × ν)} (ht : t.WellFormed) (k : κ) (v : ν) :
    (∀ {θ : Type} (q : θ),
      CallsUntil id (t.asked q)
        (fun calls => (Call.yesAt calls).bind fun i => (t.get? i).map (·.2))
        (fun _ _ eq => t.lookupM q fun stored searched => eq (stored, searched)) ∧
      CallsUntil id (t.asked q) (fun calls => (Call.yesAt calls).isSome)
        (fun _ _ eq => t.hasKeyM q fun stored searched => eq (stored, searched)) ∧
      CallsUntil id (t.asked q)
        (fun calls => (Call.yesAt calls).elim (pure t) fun i => t.replaceAt i [])
        (fun _ _ eq => t.eraseKeyM q fun stored searched => eq (stored, searched)) ∧
      ∀ calls, StopsAt id (t.asked q) calls →
        (∀ i, Call.yesAt calls = some i →
          i < t.length ∧ calls.map (·.arg) = (t.asked q).take (i + 1)) ∧
        (Call.yesAt calls = none →
          calls.map (·.arg) = t.asked q ∧ ∀ call ∈ calls, call.answer = false)) ∧
    CallsUntil id (t.asked k)
      (fun calls => (Call.yesAt calls).elim (t.cons (k, v)) fun i => t.replaceAt i [(k, v)])
      (fun _ _ eq => t.setKeyM k v fun stored searched => eq (stored, searched)) ∧
    (∀ i < t.length, ∀ next, ReplacedAt next t i [] (t.replaceAt i [] next).1 ∧
      ReplacedAt next t i [(k, v)] (t.replaceAt i [(k, v)] next).1) ∧
    ∀ next, ((pure t : Fresh (Chain (κ × ν))) next).1.same t = true ∧
      ∃ rest, (t.cons (k, v) next).1.uncons? = some ((k, v), rest) ∧ rest.same t = true := by
  refine ⟨fun q => ⟨t.callsUntil_lookupM q, t.callsUntil_hasKeyM q, t.callsUntil_eraseKeyM q,
    fun calls hcalls => ⟨fun i hi => ?_, hcalls.of_yesAt_none⟩⟩, t.callsUntil_setKeyM k v,
    fun i hi next => ⟨replacedAt_replaceAt ht hi [] next, replacedAt_replaceAt ht hi _ next⟩,
    fun next => ⟨same_refl t, t, rfl, same_refl t⟩⟩
  have hlength : (t.asked q).length = t.length := by
    rw [asked, List.length_map, ht.toList_length]
  rw [← hlength]
  exact hcalls.of_yesAt hi

/-- A stored key matches from itself upwards, and the closure counts its calls: all four operations
stop at the second pair, whose key is not the one searched for. -/
theorem keys_matched_from_below :
    let t : Chain (Nat × Nat) := ⟨[⟨2, (5, 10)⟩, ⟨1, (3, 20)⟩, ⟨0, (3, 30)⟩], 3⟩
    let below : Nat × Nat → StateM Nat Bool := fun keys calls =>
      (decide (keys.1 ≤ keys.2), calls + 1)
    let removed := t.eraseKeyM 4 (fun stored searched => below (stored, searched)) 0
    let put := t.setKeyM 4 40 (fun stored searched => below (stored, searched)) 0
    t.WellFormed ∧
      t.lookupM 4 (fun stored searched => below (stored, searched)) 0 = (some 20, 2) ∧
      t.hasKeyM 4 (fun stored searched => below (stored, searched)) 0 = (true, 2) ∧
      (removed.2 = 2 ∧ ReplacedAt 3 t 1 [] (removed.1 3).1) ∧
      put.2 = 2 ∧ ReplacedAt 3 t 1 [(4, 40)] (put.1 3).1 := by
  intro t below removed put
  have ht : t.WellFormed := ⟨rfl, by decide⟩
  obtain ⟨hsearched, hput, hupdated, -⟩ := keys_matched_alike ht 4 40
  obtain ⟨hlookup, hhas, hremoved, -⟩ := hsearched 4
  obtain ⟨hwithout, hwith⟩ := hupdated 1 (by decide) 3
  have hl := congrFun (hlookup.eq (StateM Nat) below) 0
  have hh := congrFun (hhas.eq (StateM Nat) below) 0
  have hr : removed = (t.replaceAt 1 [], 2) := congrFun (hremoved.eq (StateM Nat) below) 0
  have hp : put = (t.replaceAt 1 [(4, 40)], 2) := congrFun (hput.eq (StateM Nat) below) 0
  rw [hr, hp]
  exact ⟨ht, hl, hh, ⟨rfl, hwithout⟩, rfl, hwith⟩

end Chain

end SharedList
