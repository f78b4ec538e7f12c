import SharedList.Proofs.Commands
import SharedList.Proofs.Traversing

/-!
# Which results are new

An operation that copies puts everything it returns into cells of its own, and it does so where it
could have returned an old chain just as well: taking all elements, keeping all, sorting what is
sorted.  Such a result can be told by `Chain.same` from every chain there was, and from whatever
these chains go on with.

* `Chain.Apart` — no cell of the one chain is a cell of the other, whatever they hold.
* `Chain.IsNew` — the chain is apart from every chain there was, and nothing of it is ever the same
  as what comes after some cells of such a chain.
* `Chain.MakesNew`, `Chain.MakesTwoNew` — the chain that is made is new, or the two chains are new
  and apart from each other.
* `Chain.makesNew_prepend` — elements put in front of nothing make a new chain; every operation that
  copies comes to that.
* `Chain.copies_are_new` — so every one of them makes new chains.

Decoding makes the elements before it makes the cells.  That the elements draw labels and give none
back is `Fresh.CountsUp`, and `Shape.countsUp_element` says it of the elements that are decoded.
-/

set_option autoImplicit false

namespace SharedList

variable {α β γ ι : Type}

/-! ## Computations that draw labels -/

namespace Fresh

/-- Labels are drawn, and none is given back. -/
def CountsUp (make : Fresh α) : Prop := ∀ next, next ≤ (make next).2

theorem countsUp_pure (x : α) : CountsUp (pure x : Fresh α) := fun next => Nat.le_refl next

theorem CountsUp.bind {first : Fresh α} {second : α → Fresh β} (hfirst : CountsUp first)
    (hsecond : ∀ x, CountsUp (second x)) : CountsUp (first >>= second) :=
  fun next => Nat.le_trans (hfirst next) (hsecond _ _)

theorem countsUp_mapM {makes : List (Fresh α)} (h : ∀ make ∈ makes, CountsUp make) :
    CountsUp (makes.mapM id) := by
  induction makes with
  | nil => exact countsUp_pure []
  | cons make makes ih =>
    obtain ⟨hmake, hmakes⟩ := List.forall_mem_cons.mp h
    rw [List.mapM_cons]
    exact hmake.bind fun _ => (ih hmakes).bind fun _ => countsUp_pure _

theorem countsUp_make {d : Draft (Fresh α)} (h : ∀ make ∈ d.toList, CountsUp make) :
    CountsUp d.make := by
  unfold Draft.make
  rw [Array.mapM_eq_mapM_toList, map_eq_pure_bind, bind_assoc]
  exact (countsUp_mapM h).bind fun _ => countsUp_pure _

end Fresh

namespace Chain

/-! ## New chains -/

/-- No cell of the one chain is a cell of the other. -/
def Apart (xs : Chain α) (ys : Chain β) : Prop :=
  ∀ x ∈ xs.cells, ∀ y ∈ ys.cells, x.label ≠ y.label

theorem mem_of_mem_drop? {xs rest : Chain α} {count : Nat} {cell : Cell α}
    (h : xs.drop? count = some rest) (hcell : cell ∈ rest.cells) : cell ∈ xs.cells := by
  obtain ⟨-, rfl⟩ := drop?_eq_some h
  exact List.mem_of_mem_drop hcell

/-- Chains that are apart do not come to the same cell, however far one goes on in either. -/
theorem Apart.not_same {xs ys rest rest' : Chain α} (h : xs.Apart ys) {i j : Nat}
    (hrest : xs.drop? i = some rest) (hfilled : rest.isEmpty = false)
    (hrest' : ys.drop? j = some rest') : rest.same rest' = false := by
  unfold same
  split
  · rename_i hnil _
    rw [isEmpty, hnil] at hfilled
    cases hfilled
  · rename_i x _ y _ hx hy
    refine beq_eq_false_iff_ne.mpr (h x (mem_of_mem_drop? hrest ?_) y (mem_of_mem_drop? hrest' ?_))
    · rw [hx]
      exact List.mem_cons_self
    · rw [hy]
      exact List.mem_cons_self
  · rfl

/-- The chain was made since the supply of labels came to `next`, from cells of its own. -/
structure IsNew (next : Label) (result : Chain α) : Prop where
  /-- No cell of it was a cell of any chain. -/
  apart : ∀ {γ : Type} (old : Chain γ), old.Before next → result.Apart old
  /-- Nothing that is left of it, as long as that has a cell, is what is left of a chain there
  was. -/
  not_same : ∀ old : Chain α, old.Before next → ∀ {i j : Nat} {rest rest' : Chain α},
    result.drop? i = some rest → rest.isEmpty = false → old.drop? j = some rest' →
    rest.same rest' = false

theorem IsNew.of_label_ge {next : Label} {result : Chain α}
    (h : ∀ cell ∈ result.cells, next ≤ cell.label) : IsNew next result := by
  have hapart : ∀ {γ : Type} (old : Chain γ), old.Before next → result.Apart old :=
    fun old hold x hx y hy => hold.label_ne (h x hx) hy
  exact ⟨hapart, fun old hold _ _ _ _ => (hapart old hold).not_same⟩

theorem IsNew.mono {next next' : Label} (hle : next ≤ next') {result : Chain α}
    (h : IsNew next' result) : IsNew next result :=
  ⟨fun old hold => h.apart old (hold.mono hle), fun old hold => h.not_same old (hold.mono hle)⟩

/-- The chain that is made is new. -/
def MakesNew (make : Fresh (Chain α)) : Prop := ∀ next, IsNew next (make next).1

/-- The two chains that are made are new and have no cell in common. -/
def MakesTwoNew (make : Fresh (Chain α × Chain β)) : Prop :=
  ∀ next, IsNew next (make next).1.1 ∧ IsNew next (make next).1.2 ∧
    (make next).1.1.Apart (make next).1.2

/-! ## Elements in front of nothing -/

theorem label_of_mem_prepend {row : List α} {next : Label} {cell : Cell α}
    (h : cell ∈ (prepend row empty next).1.cells) :
    next ≤ cell.label ∧ cell.label < (prepend row empty next).2 := by
  rw [prepend_apply] at h ⊢
  rw [show (empty : Chain α).cells = [] from rfl, List.append_nil] at h
  exact Cell.label_of_mem_numbered h

theorem makesNew_prepend (row : List α) : MakesNew (prepend row empty) :=
  fun _ => .of_label_ge fun _ hcell => (label_of_mem_prepend hcell).1

/-- Of two rows, the second draws its labels after the first. -/
theorem makesTwoNew_prepend (row : List α) (row' : List β) :
    MakesTwoNew (do return (← prepend row empty, ← prepend row' empty)) := by
  intro next
  refine ⟨makesNew_prepend row next, (makesNew_prepend row' _).mono (le_prepend row empty next), ?_⟩
  intro x hx y hy
  exact Nat.ne_of_lt (Nat.lt_of_lt_of_le (label_of_mem_prepend hx).2 (label_of_mem_prepend hy).1)

theorem makesNew_ofList (row : List α) : MakesNew (ofList row) := by
  rw [ofList_eq]
  exact makesNew_prepend row

theorem makesNew_freeze (d : Draft α) : MakesNew d.freeze := by
  rw [freeze_eq]
  exact makesNew_prepend d.toList

theorem makesNew_collect (row : List α) : MakesNew (collect row) := makesNew_freeze _

theorem makesNew_ofArray (row : Array α) : MakesNew (ofArray row) := by
  rw [ofArray_eq]
  exact makesNew_prepend row.toList

/-- What is made after other things have been made is new all the more. -/
theorem MakesNew.after {first : Fresh β} {make : β → Fresh (Chain α)}
    (hfirst : first.CountsUp) (hmake : ∀ x, MakesNew (make x)) : MakesNew (first >>= make) :=
  fun next => (hmake _ _).mono (hfirst next)

/-! ## Traversals -/

section Traversals

variable {args : List ι} {σ : Type}

/-- Whatever the closure does to a state of its own, a traversal that puts what was called into a
row makes a new chain. -/
theorem makesNew_of_callsEach {row : List (Call ι β) → List γ}
    {op : (m : Type → Type) → [Monad m] → (ι → m β) → m (Fresh (Chain γ))}
    (h : CallsEach args (fun calls => ofList (row calls)) op) (f : ι → StateM σ β) (s : σ) :
    MakesNew (op (StateM σ) f s).1 := by
  rw [h.eq]
  exact makesNew_ofList (row (callEach f args s).1)

theorem makesTwoNew_partitionM (xs : Chain α) (p : α → StateM σ Bool) (s : σ) :
    MakesTwoNew (xs.partitionM p s).1 := by
  rw [(xs.callsEach_partitionM).eq]
  simp only [ofList_eq]
  exact makesTwoNew_prepend _ _

end Traversals

/-! ## Rearrangements -/

theorem makesNew_zip (xs : Chain α) (ys : Chain β) : MakesNew (xs.zip ys) := by
  rw [zip_eq]
  exact makesNew_prepend _

theorem makesTwoNew_unzip (pairs : Chain (α × β)) : MakesTwoNew pairs.unzip := by
  rw [unzip_eq]
  exact makesTwoNew_prepend _ _

theorem makesNew_reverse (xs : Chain α) : MakesNew xs.reverse := by
  rw [reverse_eq]
  exact makesNew_prepend _

theorem makesNew_sortBy (xs : Chain α) (cmp : α → α → Ordering) :
    MakesNew (xs.sortBy cmp).value := by
  rw [sortBy_eq]
  exact makesNew_prepend _

/-- Whatever the comparison answers, and whatever it does on the way. -/
theorem makesNew_sortByM {σ : Type} (xs : Chain α) (cmp : α → α → StateM σ Ordering) (s : σ) :
    MakesNew (xs.sortByM cmp s).1.value := by
  rw [sortByM_eq]
  exact makesNew_prepend _

theorem makesNew_shuffle (xs : Chain α) (words : WordStream) :
    MakesNew (xs.shuffle words).value.chain := by
  rw [shuffle_eq]
  exact makesNew_prepend _

/-! ## Cuts -/

theorem makesNew_take? {xs : Chain α} {count : Nat} {make : Fresh (Chain α)}
    (h : xs.take? count = some make) : MakesNew make := by
  obtain rfl := take?_eq_some h
  exact makesNew_prepend _

/-- The part before the cut is new; the part after it was there, so the two are apart. -/
theorem isNew_splitAt? {xs : Chain α} {index : Nat} {make : Fresh (Chain α × Chain α)}
    (h : xs.splitAt? index = some make) (next : Label) :
    IsNew next (make next).1.1 ∧ (xs.Before next → (make next).1.1.Apart (make next).1.2) := by
  obtain ⟨front, hfront, rfl⟩ := Option.map_eq_some_iff.mp h
  have hnew : IsNew next (front next).1 := makesNew_take? hfront next
  refine ⟨hnew, fun hbefore => ?_⟩
  exact hnew.apart (xs.suffix index) fun cell hcell => hbefore cell (List.mem_of_mem_drop hcell)

/-! ## Reading -/

theorem makesNew_ofSource {ε : Type} {s : Source ε α} {make : Fresh (Chain α)}
    (h : ofSource s = .ok make) : MakesNew make := by
  obtain ⟨d, -, rfl⟩ := Fresh.ofSource_eq_ok h
  exact makesNew_freeze d

end Chain

/-- Whatever is decoded draws labels and gives none back. -/
def Decoder.CountsUp (decode : Decoder α) : Prop :=
  ∀ s make, decode s = .ok make → Fresh.CountsUp make

/-- What comes from every world to a later one gives no label back. -/
theorem Fresh.Decodes.countsUp {k : Kind} {decode : Decoder k.Elem} (h : Decodes k decode) :
    decode.CountsUp := by
  intro s make hmake next
  obtain ⟨W', he, hnext, -⟩ := h s make hmake ⟨next, fun _ _ => []⟩
  exact hnext ▸ he.next_le

/-- The elements of every shape give no label back. -/
theorem Shape.countsUp_element (shape : Shape) : shape.element.CountsUp :=
  shape.decodes_element.countsUp

namespace Chain

theorem makesNew_decode {element : Decoder α} (helement : element.CountsUp) {s : Serial}
    {make : Fresh (Chain α)} (h : decode element s = .ok make) : MakesNew make := by
  obtain ⟨d, hd, rfl⟩ := Fresh.decode_eq_ok h
  refine .after (Fresh.countsUp_make fun made hmade => ?_) makesNew_freeze
  obtain ⟨item, hitem⟩ := hd made hmade
  exact helement item made hitem

/-! ## All operations that copy -/

/-- **What copies is new.**  Whatever the operands, the closure and its state, the count, the
comparison and the words, no cell of the result was a cell of any chain, and no part of the result
that has a cell is the same as what is left of an earlier chain; and two chains that are returned
together have no cell in common. -/
theorem copies_are_new [Ord α] (xs : Chain α) (ys : Chain β) (pairs : Chain (β × γ))
    {element : Decoder α} (helement : element.CountsUp) :
    -- From rows of elements
    (∀ row : List α, MakesNew (ofList row) ∧ MakesNew (collect row) ∧ MakesNew (consAll row)) ∧
    (∀ row : Array α, MakesNew (ofArray row)) ∧
    (∀ d : Draft α, MakesNew d.freeze) ∧
    (∀ (count : Nat) (x : α), MakesNew (replicate count x)) ∧
    -- From the answers of a closure that has a state of its own
    (∀ {σ : Type} (count : Nat) (f : Nat → StateM σ γ) (s : σ), MakesNew (tabulateM count f s).1) ∧
    (∀ {σ : Type} (f : α → StateM σ γ) (s : σ),
      MakesNew (xs.mapM f s).1 ∧ MakesNew (xs.mapReverseM f s).1) ∧
    (∀ {σ : Type} (f : Nat → α → StateM σ γ) (s : σ), MakesNew (xs.mapIdxM f s).1) ∧
    (∀ {σ : Type} (f : α → β → StateM σ γ) (s : σ),
      MakesNew (xs.zipWithM ys f s).1 ∧ MakesNew (xs.zipWithReverseM ys f s).1) ∧
    -- From the elements that such a closure selects
    (∀ {σ : Type} (p : α → StateM σ Bool) (s : σ),
      MakesNew (xs.filterM p s).1 ∧ MakesTwoNew (xs.partitionM p s).1) ∧
    (∀ {σ : Type} (p : α → Nat → StateM σ Bool) (s : σ), MakesNew (xs.filterIdxM p s).1) ∧
    (∀ {σ : Type} (f : α → StateM σ (Option γ)) (s : σ), MakesNew (xs.filterMapM f s).1) ∧
    -- From the elements in another arrangement
    MakesNew (xs.zip ys) ∧ MakesTwoNew pairs.unzip ∧ MakesNew xs.reverse ∧
    (∀ cmp : α → α → Ordering, MakesNew (xs.sortBy cmp).value) ∧ MakesNew xs.sort.value ∧
    (∀ {σ : Type} (cmp : α → α → StateM σ Ordering) (s : σ),
      MakesNew (xs.sortByM cmp s).1.value) ∧
    (∀ words : WordStream, MakesNew (xs.shuffle words).value.chain) ∧
    -- From a part of the elements
    (∀ count, ∀ make ∈ xs.take? count, MakesNew make) ∧
    (∀ index, ∀ make ∈ xs.splitAt? index, ∀ next, IsNew next (make next).1.1 ∧
      (xs.Before next → (make next).1.1.Apart (make next).1.2)) ∧
    -- From outside
    (∀ (ε : Type) (s : Source ε α) (make : Fresh (Chain α)), ofSource s = .ok make →
      MakesNew make) ∧
    (∀ (s : Serial) (make : Fresh (Chain α)), decode element s = .ok make → MakesNew make) := by
  refine ⟨fun row => ⟨makesNew_ofList row, makesNew_collect row, makesNew_prepend row⟩,
    makesNew_ofArray, makesNew_freeze, fun count x => makesNew_collect _, ?_, ?_, ?_, ?_, ?_, ?_,
    ?_, makesNew_zip xs ys, makesTwoNew_unzip pairs, makesNew_reverse xs, makesNew_sortBy xs,
    makesNew_sortBy xs compare, fun cmp s => makesNew_sortByM xs cmp s, makesNew_shuffle xs,
    fun _ _ => makesNew_take?,
    fun _ _ => isNew_splitAt?, fun _ _ _ => makesNew_ofSource, fun _ _ => makesNew_decode helement⟩
  · exact fun count f s => makesNew_of_callsEach (callsEach_tabulateM count) f s
  · exact fun f s => ⟨makesNew_of_callsEach xs.callsEach_mapM f s,
      makesNew_of_callsEach xs.callsEach_mapReverseM f s⟩
  · exact fun f s => makesNew_of_callsEach xs.callsEach_mapIdxM (fun p => f p.2 p.1) s
  · exact fun f s => ⟨makesNew_of_callsEach (xs.callsEach_zipWithM ys) (fun p => f p.1 p.2) s,
      makesNew_of_callsEach (xs.callsEach_zipWithReverseM ys) (fun p => f p.1 p.2) s⟩
  · exact fun p s => ⟨makesNew_of_callsEach xs.callsEach_filterM p s, makesTwoNew_partitionM xs p s⟩
  · exact fun p s => makesNew_of_callsEach xs.callsEach_filterIdxM (fun q => p q.1 q.2) s
  · exact fun f s => makesNew_of_callsEach xs.callsEach_filterMapM f s

/-- Two numbers that are all taken, or all kept, are not the chain they were, and neither is
anything decoded. -/
theorem whole_copies_are_new :
    let xs : Chain Value := (ofList [.int 1, .int 2] 0).1
    let kept : Fresh (Chain Value) := (xs.filterM (m := StateM Unit) (fun _ => return true) ()).1
    Shape.ints.element.CountsUp ∧ xs.Before 2 ∧
      (∃ make ∈ xs.take? 2, (make 2).1.toList = xs.toList ∧ (make 2).1.same xs = false) ∧
      ((kept 2).1.toList = xs.toList ∧ (kept 2).1.same xs = false) ∧
      ∀ s make, decode Shape.ints.element s = .ok make → MakesNew make := by
  intro xs kept
  have helement := Shape.countsUp_element .ints
  have hbefore : xs.Before 2 :=
    List.forall_mem_cons.mpr ⟨by decide, List.forall_mem_singleton.mpr (by decide)⟩
  obtain ⟨-, -, -, -, -, -, -, -, hselect, -, -, -, -, -, -, -, -, -, htake, -, -, hdecode⟩ :=
    copies_are_new xs (.empty : Chain Value) (.empty : Chain (Value × Value)) helement
  refine ⟨helement, hbefore, ⟨_, rfl, rfl, ?_⟩, ⟨rfl, ?_⟩, hdecode⟩
  · exact (htake 2 _ rfl 2).not_same xs hbefore (i := 0) rfl rfl (j := 0) rfl
  · obtain ⟨hkept, -⟩ := hselect (fun _ => return true) ()
    exact (hkept 2).not_same xs hbefore (i := 0) rfl rfl (j := 0) rfl

end Chain

end SharedList
