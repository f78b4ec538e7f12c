import SharedList.Proofs.Appending
import SharedList.Proofs.Calling
import SharedList.Proofs.Traversing

/-!
# Folding from the back

A right fold goes along the cells by recursion while there are few elements, and reads them from the
end of a buffer from `recursionLimit` on.  Both ways make the same calls, from the last element to
the first, each with the answer to the call before, so no closure can tell which way was taken; only
the event of a fold tells it.

* `Chain.callsOn_foldrRec`, `callsOn_foldrBuffered`, `callsOn_foldrM` — the calls of either way, and
  so those of the fold; `callsOn_foldrRec₂` and the like for two chains.
* `Chain.foldrM_append` — a joined chain is folded by folding its second part and then its first.
* `Chain.foldrM₂_eq_foldrM_zip` — two chains are folded as the chain of their pairs is.
* `Chain.folds_from_the_back`, `pairs_fold_from_the_back` — all of this together, with the events.
-/

set_option autoImplicit false

namespace SharedList.Chain

variable {α β γ : Type}

/-! ## One chain -/

section One

variable (xs ys : Chain α)

theorem callsOn_foldrRec (init : γ) :
    CallsOn xs.toList.reverse init fun _ _ f => foldrRec f init xs.cells :=
  .of_foldlM fun _ _ _ f => foldrRec_eq f init xs.cells

theorem callsOn_foldrBuffered (init : γ) :
    CallsOn xs.toList.reverse init fun _ _ f => foldrBuffered f init xs :=
  .of_foldlM fun _ _ _ _ => rfl

variable {m : Type → Type} [Monad m] [LawfulMonad m]

/-- Apart from its event, a right fold is a left fold from the end. -/
theorem value_foldrM (f : γ → α → m γ) (init : γ) :
    Traced.value <$> xs.foldrM f init = xs.toList.reverse.foldlM f init := by
  rw [foldrM_eq]
  simp

theorem callsOn_foldrM (init : γ) :
    CallsOn xs.toList.reverse init fun _ _ f => Traced.value <$> xs.foldrM f init :=
  .of_foldlM fun _ _ _ f => xs.value_foldrM f init

theorem foldrRec_eq_foldrBuffered (f : γ → α → m γ) (init : γ) :
    foldrRec f init xs.cells = foldrBuffered f init xs := foldrRec_eq f init xs.cells

/-- A joined chain is folded by folding its second part and then, from there, its first. -/
theorem foldrM_append (next : Label) (f : γ → α → m γ) (init : γ) :
    Traced.value <$> (xs.append ys next).1.foldrM f init =
      (Traced.value <$> ys.foldrM f init) >>= fun acc => Traced.value <$> xs.foldrM f acc := by
  simp only [value_foldrM, toList_append, List.reverse_append, List.foldlM_append]

end One

/-! ## Two chains -/

section Two

variable (xs : Chain α) (ys : Chain β)

theorem callsOn_foldrRec₂ (init : γ) :
    CallsOn (xs.toList.zip ys.toList).reverse init fun _ _ f =>
      foldrRec₂ (fun acc x y => f acc (x, y)) init xs.cells ys.cells :=
  .of_foldlM fun _ _ _ f => foldrRec₂_eq (fun acc x y => f acc (x, y)) init xs.cells ys.cells

theorem callsOn_foldrBuffered₂ (init : γ) :
    CallsOn (xs.toList.zip ys.toList).reverse init fun _ _ f =>
      foldrBuffered₂ (fun acc x y => f acc (x, y)) init xs ys :=
  .of_foldlM fun _ _ _ _ => rfl

theorem toList_zip (next : Label) :
    (xs.zip ys next).1.toList = xs.toList.zip ys.toList := by
  rw [zip_eq, toList_prepend_empty]

variable {xs ys} in
/-- A chain of pairs counts the positions below the shorter length. -/
theorem length_zip (hxs : xs.WellFormed) (hys : ys.WellFormed) (next : Label) :
    (xs.zip ys next).1.length = min xs.length ys.length := by
  rw [zip_eq, length_prepend_empty, List.length_zip, hxs.toList_length, hys.toList_length]

variable {m : Type → Type} [Monad m] [LawfulMonad m]

theorem value_foldrM₂ (f : γ → α → β → m γ) (init : γ) :
    Traced.value <$> xs.foldrM₂ ys f init =
      (xs.toList.zip ys.toList).reverse.foldlM (fun acc p => f acc p.1 p.2) init := by
  rw [foldrM₂_eq]
  simp

theorem callsOn_foldrM₂ (init : γ) :
    CallsOn (xs.toList.zip ys.toList).reverse init fun _ _ f =>
      Traced.value <$> xs.foldrM₂ ys (fun acc x y => f acc (x, y)) init :=
  .of_foldlM fun _ _ _ f => xs.value_foldrM₂ ys (fun acc x y => f acc (x, y)) init

theorem foldrRec₂_eq_foldrBuffered₂ (f : γ → α → β → m γ) (init : γ) :
    foldrRec₂ f init xs.cells ys.cells = foldrBuffered₂ f init xs ys :=
  foldrRec₂_eq f init xs.cells ys.cells

/-- Two chains are folded as the chain of their pairs is. -/
theorem foldrM₂_eq_foldrM_zip (next : Label) (f : γ → α → β → m γ) (init : γ) :
    Traced.value <$> xs.foldrM₂ ys f init =
      Traced.value <$> (xs.zip ys next).1.foldrM (fun acc p => f acc p.1 p.2) init := by
  rw [value_foldrM₂, value_foldrM, toList_zip]

end Two

/-! ## Folds and their events -/

/-- **A right fold goes from the last element to the first.**  It calls the closure once for each
element, the last one first, each time with the answer to the call before; and it does so by
recursion just as by way of a buffer, whatever the closure does and however long the chain is.  So
it is the right fold of the elements, and joined chains are folded one after the other even where
only the joined one reaches the limit.  Exactly the chains that reach it are reported, by one event
each. -/
theorem folds_from_the_back (xs ys : Chain α) (init : γ) :
    CallsOn xs.toList.reverse init (fun _ _ f => foldrRec f init xs.cells) ∧
    CallsOn xs.toList.reverse init (fun _ _ f => foldrBuffered f init xs) ∧
    CallsOn xs.toList.reverse init (fun _ _ f => Traced.value <$> xs.foldrM f init) ∧
    ∀ (m : Type → Type) [Monad m] [LawfulMonad m] (f : γ → α → m γ),
      foldrRec f init xs.cells = foldrBuffered f init xs ∧
      xs.foldrM f init =
        (fun acc => ⟨acc, if xs.length < recursionLimit then [] else [.foldBuffered xs.length]⟩) <$>
          xs.toList.foldrM (fun x acc => f acc x) init ∧
      ∀ next, Traced.value <$> (xs.append ys next).1.foldrM f init =
        (Traced.value <$> ys.foldrM f init) >>= fun acc => Traced.value <$> xs.foldrM f acc := by
  refine ⟨xs.callsOn_foldrRec init, xs.callsOn_foldrBuffered init, xs.callsOn_foldrM init,
    fun m _ _ f => ⟨xs.foldrRec_eq_foldrBuffered f init, ?_, ?_⟩⟩
  · rw [foldrM_eq, List.foldlM_reverse]
  · intro next
    exact foldrM_append xs ys next f init

/-- A row of 600 numbers is folded by recursion, two of them in one by way of a buffer, and the sum
and the count of the calls agree. -/
theorem folds_across_the_limit :
    let half : Chain Nat := (ofList (List.range 600) 0).1
    let f : Nat → Nat → StateM Nat Nat := fun acc x calls => (acc + x, calls + 1)
    (half.foldrM f 0 0).1.events = [] ∧
      ((half.append half 600).1.foldrM f 0 0).1.events = [.foldBuffered 1200] ∧
      Traced.value <$> (half.append half 600).1.foldrM f 0 =
        (Traced.value <$> half.foldrM f 0) >>= fun acc => Traced.value <$> half.foldrM f acc := by
  intro half f
  have hlength : half.length = 600 := (length_ofList _ 0).trans List.length_range
  have hcells : half.length = half.cells.length := counted_ofList _ 0
  have hwhole : (half.append half 600).1.length = 1200 := by
    rw [length_append_eq hcells hcells 600, hlength]
  obtain ⟨-, -, -, hfold⟩ := folds_from_the_back half half 0
  obtain ⟨-, hshort, hjoined⟩ := hfold (StateM Nat) f
  obtain ⟨-, -, -, hfold'⟩ := folds_from_the_back (half.append half 600).1 half 0
  obtain ⟨-, hlong, -⟩ := hfold' (StateM Nat) f
  have hevents : ∀ (events : List Event) (run : StateM Nat Nat),
      (((fun acc => (⟨acc, events⟩ : Traced Nat)) <$> run) 0).1.events = events := by
    intro events run
    rfl
  refine ⟨?_, ?_, hjoined 600⟩
  · rw [hshort, hevents, hlength]
    exact if_pos (by decide)
  · rw [hlong, hevents, hwhole]
    exact if_neg (by decide)

/-- **Two chains are folded from the last common position to the first.**  The pairs are those at
equal positions from the front, as many as the shorter chain has elements, and each is given to one
call, the last pair first.  Recursion along both chains, the buffer, and the fold of the chain of
pairs make the same calls; and it is the number of pairs, not the length of either chain, that
decides whether an event is emitted. -/
theorem pairs_fold_from_the_back {xs : Chain α} {ys : Chain β} (hxs : xs.WellFormed)
    (hys : ys.WellFormed) (init : γ) :
    let pairs := xs.toList.zip ys.toList
    let count := min xs.length ys.length
    (pairs.length = count ∧
      ∀ i x y, pairs[i]? = some (x, y) ↔ xs.get? i = some x ∧ ys.get? i = some y) ∧
    CallsOn pairs.reverse init
      (fun _ _ f => foldrRec₂ (fun acc x y => f acc (x, y)) init xs.cells ys.cells) ∧
    CallsOn pairs.reverse init
      (fun _ _ f => foldrBuffered₂ (fun acc x y => f acc (x, y)) init xs ys) ∧
    CallsOn pairs.reverse init
      (fun _ _ f => Traced.value <$> xs.foldrM₂ ys (fun acc x y => f acc (x, y)) init) ∧
    (∀ next, CallsOn pairs.reverse init
      fun _ _ f => Traced.value <$> (xs.zip ys next).1.foldrM f init) ∧
    ∀ (m : Type → Type) [Monad m] [LawfulMonad m] (f : γ → α → β → m γ),
      foldrRec₂ f init xs.cells ys.cells = foldrBuffered₂ f init xs ys ∧
      xs.foldrM₂ ys f init =
        (fun acc => ⟨acc, if count < recursionLimit then [] else [.pairsBuffered count]⟩) <$>
          pairs.foldrM (fun p acc => f acc p.1 p.2) init ∧
      ∀ next, (xs.zip ys next).1.foldrM (fun acc p => f acc p.1 p.2) init =
        (fun acc => ⟨acc, if count < recursionLimit then [] else [.foldBuffered count]⟩) <$>
          (Traced.value <$> xs.foldrM₂ ys f init) := by
  intro pairs count
  refine ⟨⟨?_, fun i x y => ?_⟩, xs.callsOn_foldrRec₂ ys init, xs.callsOn_foldrBuffered₂ ys init,
    xs.callsOn_foldrM₂ ys init, fun next => ?_, fun m _ _ f => ⟨?_, ?_, fun next => ?_⟩⟩
  · rw [List.length_zip, hxs.toList_length, hys.toList_length]
  · rw [List.getElem?_zip_eq_some, get?_eq, get?_eq]
  · have hcalls := (xs.zip ys next).1.callsOn_foldrM init
    rwa [toList_zip] at hcalls
  · exact foldrRec₂_eq_foldrBuffered₂ xs ys f init
  · rw [foldrM₂_eq, List.foldlM_reverse]
  · rw [foldrM₂_eq_foldrM_zip xs ys next, value_foldrM, foldrM_eq, length_zip hxs hys]

/-- Three numbers against two that share no cell with them: the last common position comes first,
and the third number is not looked at. -/
theorem pairs_fold_of_unequal_lengths :
    let xs : Chain Nat := ⟨[⟨2, 10⟩, ⟨1, 20⟩, ⟨0, 30⟩], 3⟩
    let ys : Chain Nat := ⟨[⟨4, 1⟩, ⟨3, 2⟩], 2⟩
    let f : Nat → Nat → Nat → StateM (List Nat) Nat := fun acc x y seen =>
      (acc + x * y, seen ++ [x])
    xs.WellFormed ∧ ys.WellFormed ∧
      (xs.foldrM₂ ys f 5 []).1.value = 55 ∧ (xs.foldrM₂ ys f 5 []).1.events = [] ∧
      (xs.foldrM₂ ys f 5 []).2 = [20, 10] := by
  intro xs ys f
  have hxs : xs.WellFormed := ⟨rfl, by decide⟩
  have hys : ys.WellFormed := ⟨rfl, by decide⟩
  obtain ⟨-, -, -, -, -, hfold⟩ := pairs_fold_from_the_back hxs hys 5
  obtain ⟨-, hevents, -⟩ := hfold (StateM (List Nat)) f
  rw [hevents]
  exact ⟨hxs, hys, rfl, rfl, rfl⟩

end SharedList.Chain
