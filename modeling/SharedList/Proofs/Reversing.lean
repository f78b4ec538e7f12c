import SharedList.Proofs.Building
import SharedList.Proofs.Folding

/-!
# Reversing

Five operations turn a chain round: `reverse`, `reverseAppend`, `mapReverseM`, the right fold, and
reading by position from the other end.  Each does so in its own way, and they agree: what each of
them comes to is said by the reversed row of the elements.

* `Chain.built_reverseAppend` — the reversed row in new cells, and then the second chain itself.
* `Chain.reverseAppend_alike`, `reverseAppend_reverseAppend`, `reverse_append`, `reverse_reverse`
  — the laws of reversing and joining, up to the cells that are made.
* `Chain.get?_reverse` — positions count from the other end.
* `Chain.mapReverseM_alike` — mapping in reverse is mapping and then reversing, with the same calls.
* `Chain.foldrM_eq_foldlM_reverse` — a right fold is a left fold of the reversed chain, on both
  sides of the limit.
* `Chain.reversals_agree` — all of this together.
-/

set_option autoImplicit false

namespace SharedList.Chain

variable {α β γ : Type}

/-! ## Reversing in front of a chain -/

theorem reverseAppend_eq (xs ys : Chain α) :
    xs.reverseAppend ys = prepend xs.toList.reverse ys := stack_eq xs.toList ys

theorem toList_reverseAppend (xs ys : Chain α) (next : Label) :
    (xs.reverseAppend ys next).1.toList = xs.toList.reverse ++ ys.toList :=
  toList_stack xs.toList ys next

theorem built_reverseAppend (xs ys : Chain α) (next : Label) :
    Built next xs.toList.reverse ys (xs.reverseAppend ys next).1 := by
  rw [reverseAppend_eq]
  exact built_prepend xs.toList.reverse ys next

/-- Reversing in front of a chain is reversing and then joining. -/
theorem reverseAppend_alike (xs ys : Chain α) :
    Alike (xs.reverseAppend ys) (xs.reverse >>= fun reversed => reversed.append ys) := by
  intro next next'
  rw [toList_reverseAppend, Fresh.bind_apply, toList_append, toList_reverse]

/-- **Reversing twice in front of a chain** turns the two chains round as one. -/
theorem reverseAppend_reverseAppend (xs ys zs : Chain α) :
    Alike (ys.reverseAppend zs >>= fun onto => xs.reverseAppend onto)
      (ys.append xs >>= fun joined => joined.reverseAppend zs) := by
  intro next next'
  simp only [Fresh.bind_apply, toList_reverseAppend, toList_append, List.reverse_append,
    List.append_assoc]

/-! ## Reversing joined and reversed chains -/

/-- A joined chain is reversed by joining the reversed parts the other way round. -/
theorem reverse_append (xs ys : Chain α) :
    Alike (xs.append ys >>= reverse) (do (← ys.reverse).append (← xs.reverse)) := by
  intro next next'
  simp only [Fresh.bind_apply, toList_reverse, toList_append, List.reverse_append]

theorem reverse_reverse (xs : Chain α) : Alike (xs.reverse >>= reverse) (pure xs) := by
  intro next next'
  rw [Fresh.bind_apply, toList_reverse, toList_reverse, List.reverse_reverse]
  rfl

/-- A reversed row in cells is the row in cells, reversed. -/
theorem ofList_reverse (row : List α) : Alike (ofList row.reverse) (ofList row >>= reverse) := by
  intro next next'
  rw [Fresh.bind_apply, toList_reverse, toList_ofList, toList_ofList]

/-- Positions count from the other end. -/
theorem get?_reverse {xs : Chain α} (hxs : xs.WellFormed) {i : Nat} (h : i < xs.length)
    (next : Label) : xs.get? i = (xs.reverse next).1.get? (xs.length - 1 - i) := by
  have hlength := hxs.toList_length
  have hmirror : xs.toList.length - 1 - (xs.length - 1 - i) = i := by omega
  rw [get?_eq, get?_eq, toList_reverse, List.getElem?_reverse (by omega), hmirror]

/-! ## Mapping and folding -/

section Closures

variable {m : Type → Type} [Monad m]

theorem foldrBuffered_eq_foldlM_reverse (xs : Chain α) (f : γ → α → m γ) (init : γ)
    (next : Label) : foldrBuffered f init xs = (xs.reverse next).1.foldlM f init := by
  rw [foldrBuffered, foldlM, toList_reverse]

variable [LawfulMonad m]

/-- **Mapping in reverse** makes the calls that mapping makes, front to back, and comes to what
reversing the mapped chain comes to. -/
theorem mapReverseM_alike (xs : Chain α) (f : α → m β) (next next' : Label) :
    (fun make => (make next).1.toList) <$> xs.mapReverseM f =
      (fun make => ((make >>= reverse) next').1.toList) <$> xs.mapM f := by
  rw [xs.callsEach_mapReverseM.eq, xs.callsEach_mapM.eq, ← comp_map, ← comp_map]
  congr 1
  funext calls
  exact ofList_reverse (Call.answers calls) next next'

/-- **A right fold is a left fold of the reversed chain**, also where it goes by way of a buffer. -/
theorem foldrM_eq_foldlM_reverse (xs : Chain α) (f : γ → α → m γ) (init : γ) (next : Label) :
    xs.foldrM f init =
      (fun acc => ⟨acc, if xs.length < recursionLimit then [] else [.foldBuffered xs.length]⟩) <$>
        (xs.reverse next).1.foldlM f init := by
  rw [foldrM_eq, foldlM, toList_reverse]

end Closures

/-! ## All reversals -/

/-- **All reversals agree.**  Reversing in front of a chain puts the reversed row into new cells and
goes on with the chain itself; the laws of reversing and joining hold of the elements, whatever
cells are made; positions count from the other end; and whatever the closure does, mapping in
reverse makes the calls of mapping and gives the reversed chain, and a right fold makes the calls of
a left fold of the reversed chain and gives what that gives, by recursion as by way of a buffer. -/
theorem reversals_agree {xs : Chain α} (hxs : xs.WellFormed) (ys zs : Chain α) :
    -- In front of a chain
    (xs.toList.reverse.length = xs.length ∧
      ∀ next, Built next xs.toList.reverse ys (xs.reverseAppend ys next).1) ∧
    Alike (xs.reverseAppend ys) (xs.reverse >>= fun reversed => reversed.append ys) ∧
    Alike (ys.reverseAppend zs >>= fun onto => xs.reverseAppend onto)
      (ys.append xs >>= fun joined => joined.reverseAppend zs) ∧
    -- Joined chains, reversed chains, and positions
    Alike (xs.append ys >>= reverse) (do (← ys.reverse).append (← xs.reverse)) ∧
    Alike (xs.reverse >>= reverse) (pure xs) ∧
    (∀ i < xs.length, ∀ next, xs.get? i = (xs.reverse next).1.get? (xs.length - 1 - i)) ∧
    -- Mapping and folding
    ∀ (m : Type → Type) [Monad m] [LawfulMonad m],
      (∀ (β : Type) (f : α → m β) next next',
        (fun make => (make next).1.toList) <$> xs.mapReverseM f =
          (fun make => ((make >>= reverse) next').1.toList) <$> xs.mapM f) ∧
      ∀ (γ : Type) (f : γ → α → m γ) (init : γ) (next : Label),
        xs.foldrM f init =
          (fun acc =>
            ⟨acc, if xs.length < recursionLimit then [] else [.foldBuffered xs.length]⟩) <$>
            (xs.reverse next).1.foldlM f init ∧
        foldrRec f init xs.cells = (xs.reverse next).1.foldlM f init ∧
        foldrBuffered f init xs = (xs.reverse next).1.foldlM f init := by
  refine ⟨⟨?_, built_reverseAppend xs ys⟩, reverseAppend_alike xs ys,
    reverseAppend_reverseAppend xs ys zs, reverse_append xs ys, reverse_reverse xs,
    fun i hi => get?_reverse hxs hi, fun m _ _ => ⟨fun _ => mapReverseM_alike xs,
      fun _ f init next => ⟨foldrM_eq_foldlM_reverse xs f init next, ?_,
        foldrBuffered_eq_foldlM_reverse xs f init next⟩⟩⟩
  · rw [List.length_reverse, hxs.toList_length]
  · rw [foldrRec_eq_foldrBuffered, foldrBuffered_eq_foldlM_reverse xs f init next]

/-- Two numbers are reversed in front of a chain that shares a cell with them, and folded by a
closure that notes what it is given. -/
theorem reversals_agree_onto_shared :
    let xs : Chain Nat := ⟨[⟨1, 10⟩, ⟨0, 20⟩], 2⟩
    let ys : Chain Nat := ⟨[⟨0, 20⟩], 1⟩
    let f : Nat → Nat → StateM (List Nat) Nat := fun acc x seen => (acc - x, seen ++ [x])
    xs.WellFormed ∧ (xs.reverseAppend ys 2).1.toList = [20, 10, 20] ∧
      (xs.reverseAppend ys 2).1.drop? 2 = some ys ∧
      xs.get? 0 = (xs.reverse 2).1.get? 1 ∧
      xs.foldrM f 35 [] = (⟨5, []⟩, [20, 10]) := by
  intro xs ys f
  have hxs : xs.WellFormed := ⟨rfl, by decide⟩
  obtain ⟨⟨-, hbuilt⟩, -, -, -, -, hget, hclosures⟩ :=
    reversals_agree hxs ys ys
  obtain ⟨-, hfold⟩ := hclosures (StateM (List Nat))
  obtain ⟨hfoldr, -, -⟩ := hfold Nat f 35 2
  refine ⟨hxs, (hbuilt 2).toList, (hbuilt 2).kept, hget 0 (by decide) 2, ?_⟩
  rw [hfoldr]
  rfl

end SharedList.Chain
