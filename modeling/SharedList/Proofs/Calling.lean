import SharedList.Chain.Assoc
import SharedList.Chain.Fold
import SharedList.Chain.Order
import SharedList.Proofs.Making

/-!
# Operations that call closures

What an operation makes while and after it calls a closure is covered, if the chain is and if every
call of the closure, about a covered element, gives what is covered.

* `Act.Handles`, `Act.Handles₂` — a closure does so about one element, or about two.
* `ensures_mapM`, `ensures_filterM`, `ensures_zipWithM` and the like — chains made from answers.
* `ensures_allM`, `ensures_compareM` and the like — questions, which make nothing but what the
  closure makes.
* `ensures_sortByM` — sorts, which ask as often as they like.
* `ensures_foldl`, `ensures_foldr` and the like — folds.
* `ensures_eraseKeyM`, `ensures_setKeyM` — association lists.
-/

set_option autoImplicit false

namespace SharedList

/-! ## Pairs as one row -/

namespace Chain

variable {m : Type → Type} [Monad m] {α β γ : Type}

theorem allM₂_eq (xs : Chain α) (ys : Chain β) (p : α → β → m Bool) :
    xs.allM₂ ys p = allM.ask (fun pair => p pair.1 pair.2) (xs.toList.zip ys.toList) := by
  unfold allM₂
  generalize xs.toList = xs
  generalize ys.toList = ys
  induction xs generalizing ys with
  | nil => rfl
  | cons x xs ih =>
    cases ys with
    | nil => rfl
    | cons y ys =>
      rw [List.zip_cons_cons, allM₂.ask, allM.ask, ih]

theorem anyM₂_eq (xs : Chain α) (ys : Chain β) (p : α → β → m Bool) :
    xs.anyM₂ ys p = anyM.ask (fun pair => p pair.1 pair.2) (xs.toList.zip ys.toList) := by
  unfold anyM₂
  generalize xs.toList = xs
  generalize ys.toList = ys
  induction xs generalizing ys with
  | nil => rfl
  | cons x xs ih =>
    cases ys with
    | nil => rfl
    | cons y ys =>
      rw [List.zip_cons_cons, anyM₂.ask, anyM.ask, ih]

/-! ## Right folds as left folds from the end -/

variable [LawfulMonad m]

theorem foldrRec_eq (f : γ → α → m γ) (init : γ) (cells : List (Cell α)) :
    foldrRec f init cells = (cells.map (·.value)).reverse.foldlM f init := by
  induction cells with
  | nil => rfl
  | cons cell rest ih => simp [foldrRec, ih, List.foldlM_append]

theorem foldrRec₂_eq (f : γ → α → β → m γ) (init : γ) (xs : List (Cell α)) (ys : List (Cell β)) :
    foldrRec₂ f init xs ys =
      ((xs.map (·.value)).zip (ys.map (·.value))).reverse.foldlM
        (fun acc (x, y) => f acc x y) init := by
  induction xs generalizing ys with
  | nil => simp [foldrRec₂]
  | cons x xs ih =>
    cases ys with
    | nil => simp [foldrRec₂]
    | cons y ys => simp [foldrRec₂, ih, List.foldlM_append]

/-- Whether by recursion or by way of a buffer, a right fold is a left fold from the end; the event
tells which. -/
theorem foldrM_eq (xs : Chain α) (f : γ → α → m γ) (init : γ) :
    xs.foldrM f init =
      (fun acc => ⟨acc, if xs.length < recursionLimit then [] else [.foldBuffered xs.length]⟩) <$>
        xs.toList.reverse.foldlM f init := by
  unfold foldrM
  split
  · rw [foldrRec_eq, ← bind_pure_comp]
    rfl
  · rw [foldrBuffered, ← bind_pure_comp]

theorem foldrM₂_eq (xs : Chain α) (ys : Chain β) (f : γ → α → β → m γ) (init : γ) :
    xs.foldrM₂ ys f init =
      (fun acc => ⟨acc, if min xs.length ys.length < recursionLimit then []
        else [.pairsBuffered (min xs.length ys.length)]⟩) <$>
        (xs.toList.zip ys.toList).reverse.foldlM (fun acc (x, y) => f acc x y) init := by
  unfold foldrM₂
  dsimp only
  split
  · rw [foldrRec₂_eq, ← bind_pure_comp]
    rfl
  · rw [foldrBuffered₂, ← bind_pure_comp]

end Chain

namespace Act

variable {σ α β γ : Type} {holds : σ → Value → Prop} {W W' : World} {k k₁ k₂ j : Kind}

/-- About every covered element, in this world and in all later ones, the function ensures what is
said. -/
def Handles (holds : σ → Value → Prop) (W : World) (k : Kind) (f : k.Elem → Act σ α)
    (post : World → α → Prop) : Prop :=
  ∀ W', W.Extends W' → ∀ x, W'.CoversElem k x → Ensures holds W' (f x) post

/-- The same about every two covered elements. -/
def Handles₂ (holds : σ → Value → Prop) (W : World) (k₁ k₂ : Kind)
    (f : k₁.Elem → k₂.Elem → Act σ α) (post : World → α → Prop) : Prop :=
  ∀ W', W.Extends W' → ∀ x y, W'.CoversElem k₁ x → W'.CoversElem k₂ y →
    Ensures holds W' (f x y) post

theorem Handles.mono {f : k.Elem → Act σ α} {post : World → α → Prop}
    (hf : Handles holds W k f post) (he : W.Extends W') : Handles holds W' k f post :=
  fun W'' he' => hf W'' (he.trans he')

theorem Handles₂.mono {f : k₁.Elem → k₂.Elem → Act σ α} {post : World → α → Prop}
    (hf : Handles₂ holds W k₁ k₂ f post) (he : W.Extends W') : Handles₂ holds W' k₁ k₂ f post :=
  fun W'' he' => hf W'' (he.trans he')

/-- Whichever way a question is answered, what follows ensures what is said. -/
theorem Ensures.ite {answer : Act σ Bool} {yes no : Act σ α} {post : World → α → Prop}
    (h : Ensures holds W answer fun _ _ => True)
    (hyes : ∀ W', W.Extends W' → Ensures holds W' yes post)
    (hno : ∀ W', W.Extends W' → Ensures holds W' no post) :
    Ensures holds W (do if ← answer then yes else no) post := by
  refine h.bind fun W' he answer _ => ?_
  cases answer with
  | true => exact hyes W' he
  | false => exact hno W' he

/-! ## Chains made from answers -/

/-- What a loop drafts is frozen. -/
theorem ensures_drafted {xs : List α} {round : Draft k.Elem → α → Act σ (Draft k.Elem)}
    {init : Draft k.Elem} (hinit : W.CoversDraft k init)
    (hround : ∀ W', W.Extends W' → ∀ x ∈ xs, ∀ d, W'.CoversDraft k d →
      Ensures holds W' (round d x) fun W'' d => W''.CoversDraft k d) :
    Ensures holds W (build (do return (← xs.foldlM round init).freeze))
      fun W' ys => W'.CoversChain k ys :=
  Ensures.build ((ensures_foldlM hinit hround).bind fun _ _ _ hd =>
    ensures_pure (Fresh.makes_freeze hd))

/-- A round that drafts an answer. -/
theorem Ensures.push {answer : Act σ k.Elem} {d : Draft k.Elem}
    (h : Ensures holds W answer fun W' y => W'.CoversElem k y) (hd : W.CoversDraft k d) :
    Ensures holds W (do return d.push (← answer)) fun W' d => W'.CoversDraft k d :=
  h.bind fun _ he _ hy => ensures_pure ((hd.mono he).push hy)

/-- A round that drafts an element or leaves it out. -/
theorem Ensures.keep {answer : Act σ Bool} {d : Draft k.Elem} {x : k.Elem}
    (h : Ensures holds W answer fun _ _ => True) (hx : W.CoversElem k x) (hd : W.CoversDraft k d) :
    Ensures holds W (do if ← answer then return d.push x else return d)
      fun W' d => W'.CoversDraft k d :=
  h.ite (fun _ he => ensures_pure ((hd.mono he).push (hx.mono he)))
    fun _ he => ensures_pure (hd.mono he)

section Answers

variable {xs : Chain k.Elem}

theorem ensures_mapM {f : k.Elem → Act σ j.Elem} (hxs : W.CoversChain k xs)
    (hf : Handles holds W k f fun W' y => W'.CoversElem j y) :
    Ensures holds W (build (xs.mapM f)) fun W' ys => W'.CoversChain j ys :=
  ensures_drafted (W.coversDraft_withCapacity j _) fun W' he x hx _ hd =>
    (hf W' he x ((hxs.2 x hx).mono he)).push hd

theorem ensures_mapIdxM {f : Nat → k.Elem → Act σ j.Elem} (hxs : W.CoversChain k xs)
    (hf : ∀ index, Handles holds W k (f index) fun W' y => W'.CoversElem j y) :
    Ensures holds W (build (xs.mapIdxM f)) fun W' ys => W'.CoversChain j ys := by
  refine ensures_drafted (W.coversDraft_withCapacity j _) fun W' he pair hpair _ hd => ?_
  obtain ⟨x, index⟩ := pair
  have hx := hxs.2 x (List.fst_mem_of_mem_zipIdx hpair)
  exact (hf index W' he x (hx.mono he)).push hd

theorem ensures_mapReverseM {f : k.Elem → Act σ j.Elem} (hxs : W.CoversChain k xs)
    (hf : Handles holds W k f fun W' y => W'.CoversElem j y) :
    Ensures holds W (build (xs.mapReverseM f)) fun W' ys => W'.CoversChain j ys := by
  have hloop : Ensures holds W (xs.toList.foldlM (fun (d : Draft j.Elem) x => do
      return d.push (← f x)) .empty) fun W' d => W'.CoversDraft j d :=
    ensures_foldlM (W.coversDraft_empty j) fun W' he x hx _ hd =>
      (hf W' he x ((hxs.2 x hx).mono he)).push hd
  exact Ensures.build (hloop.bind fun W' _ d hd =>
    ensures_pure (Fresh.makes_stack hd (W'.coversChain_empty j)))

theorem ensures_filterM {p : k.Elem → Act σ Bool} (hxs : W.CoversChain k xs)
    (hp : Handles holds W k p fun _ _ => True) :
    Ensures holds W (build (xs.filterM p)) fun W' ys => W'.CoversChain k ys := by
  refine ensures_drafted (W.coversDraft_empty k) fun W' he x hx _ hd => ?_
  have hx := (hxs.2 x hx).mono he
  exact (hp W' he x hx).keep hx hd

theorem ensures_filterIdxM {p : k.Elem → Nat → Act σ Bool} (hxs : W.CoversChain k xs)
    (hp : ∀ index, Handles holds W k (p · index) fun _ _ => True) :
    Ensures holds W (build (xs.filterIdxM p)) fun W' ys => W'.CoversChain k ys := by
  refine ensures_drafted (W.coversDraft_empty k) fun W' he pair hpair _ hd => ?_
  obtain ⟨x, index⟩ := pair
  have hx := (hxs.2 x (List.fst_mem_of_mem_zipIdx hpair)).mono he
  exact (hp index W' he x hx).keep hx hd

theorem ensures_filterMapM {f : k.Elem → Act σ (Option j.Elem)} (hxs : W.CoversChain k xs)
    (hf : Handles holds W k f fun W' answer => ∀ y, answer = some y → W'.CoversElem j y) :
    Ensures holds W (build (xs.filterMapM f)) fun W' ys => W'.CoversChain j ys := by
  refine ensures_drafted (W.coversDraft_empty j) fun W' he x hx d hd => ?_
  refine (hf W' he x ((hxs.2 x hx).mono he)).bind fun W'' he' answer hanswer => ?_
  cases answer with
  | none => exact ensures_pure (hd.mono he')
  | some y => exact ensures_pure ((hd.mono he').push (hanswer y rfl))

theorem ensures_partitionM {p : k.Elem → Act σ Bool} (hxs : W.CoversChain k xs)
    (hp : Handles holds W k p fun _ _ => True) :
    Ensures holds W (build (xs.partitionM p))
      fun W' parts => W'.CoversChain k parts.1 ∧ W'.CoversChain k parts.2 := by
  have hloop : Ensures holds W (xs.toList.foldlM
      (fun ((pass, fail) : Draft k.Elem × Draft k.Elem) x => do
        if ← p x then return (pass.push x, fail) else return (pass, fail.push x))
      (Draft.empty, Draft.empty))
      fun W' parts => W'.CoversDraft k parts.1 ∧ W'.CoversDraft k parts.2 := by
    refine ensures_foldlM ⟨W.coversDraft_empty k, W.coversDraft_empty k⟩ ?_
    intro W' he x hx parts hparts
    have hx := (hxs.2 x hx).mono he
    refine (hp W' he x hx).ite (fun W'' he' => ensures_pure ?_) fun W'' he' => ensures_pure ?_
    · exact ⟨(hparts.1.mono he').push (hx.mono he'), hparts.2.mono he'⟩
    · exact ⟨hparts.1.mono he', (hparts.2.mono he').push (hx.mono he')⟩
  refine Ensures.build (hloop.bind fun W' _ parts hparts => ensures_pure ?_)
  refine (Fresh.makes_freeze hparts.1).bind fun W'' he pass hpass => ?_
  refine (Fresh.makes_freeze (hparts.2.mono he)).bind fun W''' he' fail hfail => ?_
  exact Fresh.makes_pure ⟨hpass.mono he', hfail⟩

theorem ensures_tabulateM {count : Nat} {f : Nat → Act σ k.Elem}
    (hf : ∀ W', W.Extends W' → ∀ index,
      Ensures holds W' (f index) fun W'' y => W''.CoversElem k y) :
    Ensures holds W (build (Chain.tabulateM count f)) fun W' ys => W'.CoversChain k ys :=
  ensures_drafted (W.coversDraft_empty k) fun W' he index _ _ hd => (hf W' he index).push hd

section PairAnswers

variable {xs : Chain k₁.Elem} {ys : Chain k₂.Elem}

theorem Handles₂.of_mem_zip {f : k₁.Elem → k₂.Elem → Act σ α} {post : World → α → Prop}
    (hf : Handles₂ holds W k₁ k₂ f post) (hxs : W.CoversChain k₁ xs) (hys : W.CoversChain k₂ ys)
    (he : W.Extends W') {pair : k₁.Elem × k₂.Elem} (h : pair ∈ xs.toList.zip ys.toList) :
    Ensures holds W' (f pair.1 pair.2) post := by
  obtain ⟨hx, hy⟩ := List.of_mem_zip (a := pair.1) (b := pair.2) h
  exact hf W' he pair.1 pair.2 ((hxs.2 _ hx).mono he) ((hys.2 _ hy).mono he)

theorem ensures_zipWithM {f : k₁.Elem → k₂.Elem → Act σ k.Elem} (hxs : W.CoversChain k₁ xs)
    (hys : W.CoversChain k₂ ys) (hf : Handles₂ holds W k₁ k₂ f fun W' z => W'.CoversElem k z) :
    Ensures holds W (build (xs.zipWithM ys f)) fun W' zs => W'.CoversChain k zs := by
  refine ensures_drafted (W.coversDraft_withCapacity k _) fun W' he pair hpair _ hd => ?_
  exact (hf.of_mem_zip hxs hys he hpair).push hd

theorem ensures_zipWithReverseM {f : k₁.Elem → k₂.Elem → Act σ k.Elem}
    (hxs : W.CoversChain k₁ xs) (hys : W.CoversChain k₂ ys)
    (hf : Handles₂ holds W k₁ k₂ f fun W' z => W'.CoversElem k z) :
    Ensures holds W (build (xs.zipWithReverseM ys f)) fun W' zs => W'.CoversChain k zs := by
  have hloop : Ensures holds W ((xs.toList.zip ys.toList).foldlM
      (fun (d : Draft k.Elem) (x, y) => do return d.push (← f x y)) .empty)
      fun W' d => W'.CoversDraft k d := by
    refine ensures_foldlM (W.coversDraft_empty k) fun W' he pair hpair _ hd => ?_
    exact (hf.of_mem_zip hxs hys he hpair).push hd
  exact Ensures.build (hloop.bind fun W' _ d hd =>
    ensures_pure (Fresh.makes_stack hd (W'.coversChain_empty k)))

end PairAnswers

end Answers

/-! ## Questions -/

section Questions

variable {xs : List α} {p : α → Act σ Bool}

theorem ensures_askAll
    (hp : ∀ W', W.Extends W' → ∀ x ∈ xs, Ensures holds W' (p x) fun _ _ => True) :
    Ensures holds W (Chain.allM.ask p xs) fun _ _ => True := by
  induction xs generalizing W with
  | nil => exact ensures_pure trivial
  | cons x xs ih =>
    refine (hp W (.refl W) x List.mem_cons_self).ite (fun W' he => ih fun W'' he' y hy => ?_)
      fun W' _ => ensures_pure trivial
    exact hp W'' (he.trans he') y (List.mem_cons_of_mem x hy)

theorem ensures_askAny
    (hp : ∀ W', W.Extends W' → ∀ x ∈ xs, Ensures holds W' (p x) fun _ _ => True) :
    Ensures holds W (Chain.anyM.ask p xs) fun _ _ => True := by
  induction xs generalizing W with
  | nil => exact ensures_pure trivial
  | cons x xs ih =>
    refine (hp W (.refl W) x List.mem_cons_self).ite (fun W' _ => ensures_pure trivial)
      fun W' he => ih fun W'' he' y hy => ?_
    exact hp W'' (he.trans he') y (List.mem_cons_of_mem x hy)

end Questions

section One

variable {xs : Chain k.Elem} {p : k.Elem → Act σ Bool}

theorem ensures_allM (hxs : W.CoversChain k xs) (hp : Handles holds W k p fun _ _ => True) :
    Ensures holds W (xs.allM p) fun _ _ => True :=
  ensures_askAll fun W' he x hx => hp W' he x ((hxs.2 x hx).mono he)

theorem ensures_anyM (hxs : W.CoversChain k xs) (hp : Handles holds W k p fun _ _ => True) :
    Ensures holds W (xs.anyM p) fun _ _ => True :=
  ensures_askAny fun W' he x hx => hp W' he x ((hxs.2 x hx).mono he)

/-- The first element that answers so is covered. -/
theorem ensures_find?M (hxs : W.CoversChain k xs) (hp : Handles holds W k p fun _ _ => True) :
    Ensures holds W (xs.find?M p) fun W' found => ∀ x, found = some x → W'.CoversElem k x := by
  unfold Chain.find?M
  replace hxs := hxs.2
  generalize xs.toList = rest at hxs
  induction rest generalizing W with
  | nil => exact ensures_pure nofun
  | cons x rest ih =>
    obtain ⟨hx, hrest⟩ := List.forall_mem_cons.mp hxs
    refine (hp W (.refl W) x hx).ite (fun W' he => ensures_pure fun y hy => ?_)
      fun W' he => ih (hp.mono he) (he.row hrest)
    cases hy
    exact hx.mono he

theorem ensures_findIdx?M (hxs : W.CoversChain k xs) (hp : Handles holds W k p fun _ _ => True) :
    Ensures holds W (xs.findIdx?M p) fun _ _ => True := by
  unfold Chain.findIdx?M
  replace hxs := hxs.2
  generalize 0 = index
  generalize xs.toList = rest at hxs
  induction rest generalizing W index with
  | nil => exact ensures_pure trivial
  | cons x rest ih =>
    obtain ⟨hx, hrest⟩ := List.forall_mem_cons.mp hxs
    exact (hp W (.refl W) x hx).ite (fun W' _ => ensures_pure trivial)
      fun W' he => ih (hp.mono he) (index + 1) (he.row hrest)

end One

section Two

variable {xs : Chain k₁.Elem} {ys : Chain k₂.Elem}

theorem ensures_allM₂ {p : k₁.Elem → k₂.Elem → Act σ Bool} (hxs : W.CoversChain k₁ xs)
    (hys : W.CoversChain k₂ ys) (hp : Handles₂ holds W k₁ k₂ p fun _ _ => True) :
    Ensures holds W (xs.allM₂ ys p) fun _ _ => True := by
  rw [Chain.allM₂_eq]
  exact ensures_askAll fun W' he pair hpair => hp.of_mem_zip hxs hys he hpair

theorem ensures_anyM₂ {p : k₁.Elem → k₂.Elem → Act σ Bool} (hxs : W.CoversChain k₁ xs)
    (hys : W.CoversChain k₂ ys) (hp : Handles₂ holds W k₁ k₂ p fun _ _ => True) :
    Ensures holds W (xs.anyM₂ ys p) fun _ _ => True := by
  rw [Chain.anyM₂_eq]
  exact ensures_askAny fun W' he pair hpair => hp.of_mem_zip hxs hys he hpair

theorem ensures_equalM {p : k₁.Elem → k₂.Elem → Act σ Bool} (hxs : W.CoversChain k₁ xs)
    (hys : W.CoversChain k₂ ys) (hp : Handles₂ holds W k₁ k₂ p fun _ _ => True) :
    Ensures holds W (xs.equalM ys p) fun _ _ => True := by
  unfold Chain.equalM
  split
  · exact ensures_allM₂ hxs hys hp
  · exact ensures_pure trivial

theorem ensures_compareM {cmp : k₁.Elem → k₂.Elem → Act σ Ordering} (hxs : W.CoversChain k₁ xs)
    (hys : W.CoversChain k₂ ys) (hcmp : Handles₂ holds W k₁ k₂ cmp fun _ _ => True) :
    Ensures holds W (xs.compareM ys cmp) fun _ _ => True := by
  unfold Chain.compareM
  replace hxs := hxs.2
  replace hys := hys.2
  generalize xs.toList = xs at hxs
  generalize ys.toList = ys at hys
  induction xs generalizing W ys with
  | nil => cases ys <;> exact ensures_pure trivial
  | cons x xs ih =>
    cases ys with
    | nil => exact ensures_pure trivial
    | cons y ys =>
      obtain ⟨hx, hxs⟩ := List.forall_mem_cons.mp hxs
      obtain ⟨hy, hys⟩ := List.forall_mem_cons.mp hys
      refine (hcmp W (.refl W) x y hx hy).bind fun W' he order _ => ?_
      cases order with
      | eq =>
        exact ih (hcmp.mono he) (he.row hxs) ys (he.row hys)
      | lt => exact ensures_pure trivial
      | gt => exact ensures_pure trivial

end Two

/-! ## Sorts -/

section Sorts

variable {ask : k.Elem → k.Elem → Act σ Bool}

theorem covers_reverseAux {merged rest : List k.Elem} (hmerged : ∀ x ∈ merged, W.CoversElem k x)
    (hrest : ∀ x ∈ rest, W.CoversElem k x) : ∀ z ∈ merged.reverseAux rest, W.CoversElem k z := by
  intro z hz
  rw [List.reverseAux_eq, List.mem_append, List.mem_reverse] at hz
  exact hz.elim (hmerged z) (hrest z)

/-- What is merged is covered, if the rows are and what was merged before. -/
theorem ensures_mergeM (hask : Handles₂ holds W k k ask fun _ _ => True)
    {merged xs ys : List k.Elem} (hmerged : ∀ x ∈ merged, W.CoversElem k x)
    (hxs : ∀ x ∈ xs, W.CoversElem k x) (hys : ∀ y ∈ ys, W.CoversElem k y) :
    Ensures holds W (Row.mergeM ask merged xs ys) fun W' zs => ∀ z ∈ zs, W'.CoversElem k z := by
  fun_induction Row.mergeM ask merged xs ys generalizing W with
  | case1 merged ys => exact ensures_pure (covers_reverseAux hmerged hys)
  | case2 merged xs => exact ensures_pure (covers_reverseAux hmerged hxs)
  | case3 merged x xs y ys ihx ihy =>
    obtain ⟨hx, hlater⟩ := List.forall_mem_cons.mp hxs
    obtain ⟨hy, hlater'⟩ := List.forall_mem_cons.mp hys
    have hmerged_x := List.forall_mem_cons.mpr ⟨hx, hmerged⟩
    have hmerged_y := List.forall_mem_cons.mpr ⟨hy, hmerged⟩
    refine (hask W (.refl W) x y hx hy).ite (fun W' he => ?_) fun W' he => ?_
    · exact ihx (hask.mono he) (he.row hmerged_x) (he.row hlater) (he.row hys)
    · exact ihy (hask.mono he) (he.row hmerged_y) (he.row hxs) (he.row hlater')

/-- The sorted row is covered, in the world to which its comparisons have come. -/
theorem ensures_mergeSortM (hask : Handles₂ holds W k k ask fun _ _ => True)
    {row : List k.Elem} (hrow : ∀ x ∈ row, W.CoversElem k x) :
    Ensures holds W (Row.mergeSortM ask row) fun W' zs => ∀ z ∈ zs, W'.CoversElem k z := by
  fun_induction Row.mergeSortM ask row generalizing W with
  | case1 row h => exact ensures_pure hrow
  | case2 row h ihfront ihback =>
    have hfront := ihfront hask fun x hx => hrow x (List.mem_of_mem_take hx)
    refine hfront.bind fun W' he front hfront => ?_
    have hback := ihback (hask.mono he) fun x hx => (hrow x (List.mem_of_mem_drop hx)).mono he
    refine hback.bind fun W'' he' back hback => ?_
    exact ensures_mergeM (hask.mono (he.trans he')) (List.forall_mem_nil _)
      (he'.row hfront) hback

theorem ensures_sortByM {xs : Chain k.Elem} {cmp : k.Elem → k.Elem → Act σ Ordering}
    (hxs : W.CoversChain k xs) (hcmp : Handles₂ holds W k k cmp fun _ _ => True) :
    Ensures holds W (xs.sortByM cmp) fun W' t =>
      Fresh.Makes W' t.value fun W'' ys => W''.CoversChain k ys := by
  have hask : Handles₂ holds W k k (Chain.inPlace cmp) fun _ _ => True :=
    fun W' he x y hx hy => (hcmp W' he y x hy hx).bind fun _ _ _ _ => ensures_pure trivial
  refine (ensures_mergeSortM hask hxs.2).bind fun W' _ sorted hsorted => ensures_pure ?_
  show Fresh.Makes W' (Chain.ofArray sorted.toArray) _
  rw [Chain.ofArray_eq]
  exact Fresh.makes_prepend hsorted (W'.coversChain_empty k)

end Sorts

/-! ## Visits -/

theorem ensures_visits {xs : List α} {f : α → Act σ Unit}
    (hf : ∀ W', W.Extends W' → ∀ x ∈ xs, Ensures holds W' (f x) fun _ _ => True) :
    Ensures holds W (xs.forM f) fun _ _ => True := by
  induction xs generalizing W with
  | nil => exact ensures_pure trivial
  | cons x xs ih =>
    refine (hf W (.refl W) x List.mem_cons_self).bind fun W' he _ _ => ?_
    exact ih fun W'' he' y hy => hf W'' (he.trans he') y (List.mem_cons_of_mem x hy)

theorem ensures_forM {xs : Chain k.Elem} {f : k.Elem → Act σ Unit} (hxs : W.CoversChain k xs)
    (hf : Handles holds W k f fun _ _ => True) : Ensures holds W (xs.forM f) fun _ _ => True :=
  ensures_visits fun W' he x hx => hf W' he x ((hxs.2 x hx).mono he)

theorem ensures_forIdxM {xs : Chain k.Elem} {f : Nat → k.Elem → Act σ Unit}
    (hxs : W.CoversChain k xs) (hf : ∀ index, Handles holds W k (f index) fun _ _ => True) :
    Ensures holds W (xs.forIdxM f) fun _ _ => True := by
  refine ensures_visits fun W' he pair hpair => ?_
  have hx := hxs.2 _ (List.fst_mem_of_mem_zipIdx hpair)
  exact hf pair.2 W' he pair.1 (hx.mono he)

theorem ensures_forM₂ {xs : Chain k₁.Elem} {ys : Chain k₂.Elem} {f : k₁.Elem → k₂.Elem → Act σ Unit}
    (hxs : W.CoversChain k₁ xs) (hys : W.CoversChain k₂ ys)
    (hf : Handles₂ holds W k₁ k₂ f fun _ _ => True) :
    Ensures holds W (xs.forM₂ ys f) fun _ _ => True :=
  ensures_visits fun _ he _ hpair => hf.of_mem_zip hxs hys he hpair

/-! ## Folds -/

section Folds

variable {xs : Chain k.Elem} {init : j.Elem}

theorem ensures_foldl {f : j.Elem → k.Elem → Act σ j.Elem} (hxs : W.CoversChain k xs)
    (hinit : W.CoversElem j init)
    (hf : Handles₂ holds W j k f fun W' acc => W'.CoversElem j acc) :
    Ensures holds W (xs.foldlM f init) fun W' acc => W'.CoversElem j acc :=
  ensures_foldlM hinit fun W' he x hx acc hacc => hf W' he acc x hacc ((hxs.2 x hx).mono he)

theorem ensures_foldlIdx {f : j.Elem → k.Elem → Nat → Act σ j.Elem} (hxs : W.CoversChain k xs)
    (hinit : W.CoversElem j init)
    (hf : ∀ index, Handles₂ holds W j k (f · · index) fun W' acc => W'.CoversElem j acc) :
    Ensures holds W (xs.foldlIdxM f init) fun W' acc => W'.CoversElem j acc := by
  refine ensures_foldlM hinit fun W' he pair hpair acc hacc => ?_
  have hx := hxs.2 _ (List.fst_mem_of_mem_zipIdx hpair)
  exact hf pair.2 W' he acc pair.1 hacc (hx.mono he)

theorem ensures_foldr {f : j.Elem → k.Elem → Act σ j.Elem} (hxs : W.CoversChain k xs)
    (hinit : W.CoversElem j init)
    (hf : Handles₂ holds W j k f fun W' acc => W'.CoversElem j acc) :
    Ensures holds W (xs.foldrM f init) fun W' folded => W'.CoversElem j folded.value := by
  have hloop : Ensures holds W (xs.toList.reverse.foldlM f init)
      fun W' acc => W'.CoversElem j acc :=
    ensures_foldlM hinit fun W' he x hx acc hacc =>
      hf W' he acc x hacc ((hxs.2 x (List.mem_reverse.mp hx)).mono he)
  rw [Chain.foldrM_eq, map_eq_pure_bind]
  exact hloop.bind fun W' _ acc hacc => ensures_pure hacc

end Folds

section PairFolds

variable {xs : Chain k₁.Elem} {ys : Chain k₂.Elem} {init : k.Elem}
  {f : k.Elem → k₁.Elem → k₂.Elem → Act σ k.Elem}

theorem ensures_foldl₂ (hxs : W.CoversChain k₁ xs) (hys : W.CoversChain k₂ ys)
    (hinit : W.CoversElem k init)
    (hf : ∀ W', W.Extends W' → ∀ acc, W'.CoversElem k acc →
      Handles₂ holds W' k₁ k₂ (f acc) fun W'' acc => W''.CoversElem k acc) :
    Ensures holds W (xs.foldlM₂ ys f init) fun W' acc => W'.CoversElem k acc := by
  refine ensures_foldlM hinit fun W' he pair hpair acc hacc => ?_
  exact (hf W' he acc hacc).of_mem_zip (hxs.mono he) (hys.mono he) (.refl W') hpair

theorem ensures_foldr₂ (hxs : W.CoversChain k₁ xs) (hys : W.CoversChain k₂ ys)
    (hinit : W.CoversElem k init)
    (hf : ∀ W', W.Extends W' → ∀ acc, W'.CoversElem k acc →
      Handles₂ holds W' k₁ k₂ (f acc) fun W'' acc => W''.CoversElem k acc) :
    Ensures holds W (xs.foldrM₂ ys f init) fun W' folded => W'.CoversElem k folded.value := by
  have hloop : Ensures holds W ((xs.toList.zip ys.toList).reverse.foldlM
      (fun acc (x, y) => f acc x y) init) fun W' acc => W'.CoversElem k acc := by
    refine ensures_foldlM hinit fun W' he pair hpair acc hacc => ?_
    exact (hf W' he acc hacc).of_mem_zip (hxs.mono he) (hys.mono he) (.refl W')
      (List.mem_reverse.mp hpair)
  rw [Chain.foldrM₂_eq, map_eq_pure_bind]
  exact hloop.bind fun W' _ acc hacc => ensures_pure hacc

end PairFolds

/-! ## Association lists -/

section Keys

variable {xs : Chain (Value × Value)} {key : Value} {eq : Value → Value → Act σ Bool}

/-- Asking about a stored key. -/
theorem Handles₂.stored (heq : Handles₂ holds W .vals .vals eq fun _ _ => True)
    (hkey : W.Covers key) :
    Handles holds W .pairs (fun pair => eq pair.1 key) fun _ _ => True :=
  fun W' he pair hpair =>
    heq W' he pair.1 key (World.coversElem_pairs_iff.mp hpair).1 (World.Covers.mono hkey he)

/-- From where the search has come to on, it drafts pairs of the chain up to the match, and what
comes after the match is an end of the chain. -/
theorem ensures_search (hxs : W.CoversChain .pairs xs) (hkey : W.Covers key)
    (heq : Handles₂ holds W .vals .vals eq fun _ _ => True) {before : Draft (Value × Value)}
    {cells : List (Cell (Value × Value))} (hbefore : W.CoversDraft .pairs before)
    (hcells : xs.cells.drop before.size = cells) :
    Ensures holds W (Chain.splitAtKeyM.search xs key eq before cells) fun W' parts =>
      ∀ before rest, parts = some (before, rest) →
        W'.CoversDraft .pairs before ∧ W'.CoversChain .pairs rest := by
  induction cells generalizing W before with
  | nil => exact ensures_pure nofun
  | cons cell rest ih =>
    have hmem : cell ∈ xs.cells := List.mem_of_mem_drop (hcells ▸ List.mem_cons_self)
    have hpair : W.CoversElem .pairs cell.value := hxs.2 _ (List.mem_map_of_mem hmem)
    have hrest : xs.cells.drop (before.size + 1) = rest := by
      rw [← List.drop_drop, hcells]
      rfl
    refine (heq.stored hkey W (.refl W) cell.value hpair).ite (fun W' he => ?_) fun W' he => ?_
    · refine ensures_pure fun front back hparts => ?_
      cases hparts
      have hback := (hxs.suffix (before.size + 1)).mono he
      rw [Chain.suffix, hrest, ← Nat.sub_sub] at hback
      exact ⟨hbefore.mono he, hback⟩
    · refine ih (hxs.mono he) (World.Covers.mono hkey he) (heq.mono he)
        ((hbefore.mono he).push (k := .pairs) (hpair.mono he)) ?_
      rw [Draft.size_eq, Draft.toList_push, List.length_append, ← Draft.size_eq]
      exact hrest

theorem ensures_eraseKeyM (hxs : W.CoversChain .pairs xs) (hkey : W.Covers key)
    (heq : Handles₂ holds W .vals .vals eq fun _ _ => True) :
    Ensures holds W (build (xs.eraseKeyM key eq)) fun W' ys => W'.CoversChain .pairs ys := by
  have hsplit := ensures_search hxs hkey heq (W.coversDraft_empty .pairs) rfl
  refine Ensures.build (hsplit.bind fun W' he parts hparts => ?_)
  cases parts with
  | none => exact ensures_pure (Fresh.makes_pure (hxs.mono he))
  | some parts =>
    obtain ⟨hbefore, hrest⟩ := hparts parts.1 parts.2 rfl
    exact ensures_pure (Fresh.makes_freezeOnto (k := .pairs) hbefore hrest)

theorem ensures_setKeyM {value : Value} (hxs : W.CoversChain .pairs xs) (hkey : W.Covers key)
    (hvalue : W.Covers value) (heq : Handles₂ holds W .vals .vals eq fun _ _ => True) :
    Ensures holds W (build (xs.setKeyM key value eq)) fun W' ys => W'.CoversChain .pairs ys := by
  have hsplit := ensures_search hxs hkey heq (W.coversDraft_empty .pairs) rfl
  refine Ensures.build (hsplit.bind fun W' he parts hparts => ?_)
  have hpair : W'.CoversElem .pairs (key, value) :=
    (World.coversElem_pairs_iff.mpr ⟨hkey, hvalue⟩).mono he
  cases parts with
  | none => exact ensures_pure (Fresh.makes_cons (k := .pairs) hpair (hxs.mono he))
  | some parts =>
    obtain ⟨hbefore, hrest⟩ := hparts parts.1 parts.2 rfl
    refine ensures_pure ((Fresh.makes_cons (k := .pairs) hpair hrest).bind fun W'' he' ys hys => ?_)
    exact Fresh.makes_freezeOnto (k := .pairs) (hbefore.mono he') hys

theorem ensures_lookupM (hxs : W.CoversChain .pairs xs) (hkey : W.Covers key)
    (heq : Handles₂ holds W .vals .vals eq fun _ _ => True) :
    Ensures holds W (xs.lookupM key eq) fun _ _ => True :=
  (ensures_find?M hxs (heq.stored hkey)).bind fun _ _ _ _ => ensures_pure trivial

theorem ensures_hasKeyM (hxs : W.CoversChain .pairs xs) (hkey : W.Covers key)
    (heq : Handles₂ holds W .vals .vals eq fun _ _ => True) :
    Ensures holds W (xs.hasKeyM key eq) fun _ _ => True :=
  ensures_anyM hxs (heq.stored hkey)

end Keys

end Act

end SharedList
