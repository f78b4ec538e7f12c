import SharedList.Proofs.Outcomes

/-!
# What commands come to

From covered registers every command comes to an outcome whose registers are covered, if the
closures that it calls are safe and the elements handed to it are covered.  By itself it changes no
register but those that it `alters`.

There is one lemma for each family of commands, with one case for each command;
`Command.ensures_run` puts them together.
-/

set_option autoImplicit false

namespace SharedList

open Attempt Outcome

variable {σ α β : Type} {holds : σ → Value → Prop} {W W' : World} {k : Kind} {rs : Registers}
  {names : List String}

/-! ## Creating chains -/

/-- All routes come to the same chain. -/
theorem Route.make_eq (route : Route) (row : List α) :
    route.make row = Chain.prepend row .empty := by
  cases route with
  | list => exact Chain.ofList_eq row
  | array => exact Chain.ofArray_eq row.toArray
  | draft => exact Chain.collect_eq row
  | front => rfl

theorem Route.makes_make (route : Route) {xs : List k.Elem} (hxs : ∀ x ∈ xs, W.CoversElem k x) :
    Fresh.Makes W (route.make xs) fun W' ys => W'.CoversChain k ys := by
  rw [route.make_eq]
  exact Fresh.makes_prepend hxs (W.coversChain_empty k)

theorem Fresh.makes_replicate {x : k.Elem} (count : Nat) (hx : W.CoversElem k x) :
    Makes W (Chain.replicate count x) fun W' ys => W'.CoversChain k ys := by
  rw [Chain.replicate, Chain.collect_eq]
  refine makes_prepend (fun y hy => ?_) (W.coversChain_empty k)
  rw [List.eq_of_mem_replicate hy]
  exact hx

theorem Creation.ensures_run (c : Creation σ) (hrs : W.CoversRegisters rs)
    (hc : ∀ f ∈ c.closures, f.Safe holds W) :
    Attempt.Ensures holds W (c.run rs) fun W' o => o.Sound W' c.alters := by
  cases c with
  | items k route data =>
    refine (ensures_elements k data).bind fun W' _ xs hxs => ?_
    exact ensures_made (route.makes_make hxs)
  | empty k => exact ensures_pure (sound_chain (W.coversChain_empty k))
  | singleton d =>
    refine (ensures_element .vals d).bind fun W' _ x hx => ?_
    exact ensures_made (Fresh.makes_cons hx (W'.coversChain_empty .vals))
  | replicate count d =>
    refine (ensures_element .vals d).bind fun W' _ x hx => ?_
    exact ensures_made (Fresh.makes_replicate count hx)
  | tabulate count f =>
    have hf := hc f List.mem_cons_self
    refine (ensures_act (Act.ensures_tabulateM (k := .vals) fun W' he index => ?_)).bind ?_
    · exact (hf.mono he).call (by simp [World.covers_int])
    · exact fun _ _ _ hys => ensures_pure (sound_chain hys)
  | replicateChain source count =>
    refine (ensures_ofKind hrs).bind fun W' _ xs hxs => ?_
    have hx := World.coversElem_nested_iff.mpr hxs
    exact ensures_made (Fresh.makes_replicate count hx)
  | nest sources =>
    refine (ensures_ofKinds hrs sources).bind fun W' _ chains hchains => ?_
    have hmake : Fresh.Makes W' (Chain.ofList chains) fun W'' ys => W''.CoversChain .nested ys := by
      refine Route.list.makes_make (k := .nested) fun xs hxs => ?_
      exact World.coversElem_nested_iff.mpr (hchains xs hxs)
    exact ensures_made (k := .nested) hmake
  | share source =>
    exact (ensures_chain hrs).bind fun _ _ _ hp => ensures_pure (sound_chain hp)
  | discard source =>
    refine (ensures_get_register hrs).bind fun _ _ _ _ => ensures_pure ?_
    exact sound_only.changing List.mem_cons_self nofun
  | cons source d =>
    refine (ensures_chain hrs).bind fun W' _ p hp => ?_
    refine (ensures_element p.1 d).bind fun W'' he x hx => ?_
    exact ensures_made (Fresh.makes_cons hx (hp.mono he))

/-! ## Reading chains -/

theorem Reading.ensures_run (c : Reading) (hrs : W.CoversRegisters rs) :
    Attempt.Ensures holds W (Attempt.read (c.run rs) : Attempt σ Outcome)
      fun W' o => o.Sound W' names := by
  cases c with
  | head source | get source index | elements source | cursor source script
  | drain source script =>
    exact ensures_read_bind (ensures_chain hrs) fun _ _ _ _ => ensures_pure sound_only
  | tryHead source | tryGet source index | same source other | compare source other
  | compareLength source other =>
    refine ensures_read_bind (ensures_chain hrs) fun _ _ _ _ => ?_
    exact ensures_read_bind (ensures_read_any _) fun _ _ _ _ => ensures_pure sound_only
  | tail source =>
    refine ensures_read_bind (ensures_chain hrs) fun W' _ p hp => ?_
    refine ensures_pure (sound_chain? fun ys hys => ?_)
    rw [Chain.tail?_eq_some hys]
    exact hp.suffix 1
  | tryTail source =>
    refine ensures_read_bind (ensures_chain hrs) fun W' _ p hp => ?_
    have htail : Attempt.Ensures holds W'
        (Attempt.read (p.2.tryTail.mapError .access) : Attempt σ (Chain p.1.Elem))
        fun W'' ys => W''.CoversChain p.1 ys := by
      refine ensures_read fun ys hys => ?_
      unfold Chain.tryTail at hys
      split at hys
      · rename_i rest hrest
        cases hys
        rw [Chain.tail?_eq_some hrest]
        exact hp.suffix 1
      · cases hys
    exact ensures_read_bind htail fun _ _ _ hys => ensures_pure (sound_chain hys)
  | uncons source =>
    refine ensures_read_bind (ensures_chain hrs) fun W' _ p hp => ?_
    obtain ⟨k, xs⟩ := p
    dsimp only
    split
    · exact ensures_pure sound_only
    · rename_i x rest hrest
      refine ensures_pure (sound_register (World.coversRegister_chain_iff.mpr ?_))
      rw [(Chain.uncons?_eq_some hrest).2]
      exact hp.suffix 1
  | length source =>
    exact ensures_read_bind (ensures_get_register hrs) fun _ _ _ _ => ensures_pure sound_only

/-! ## Closures and one chain -/

/-- What is asked about an element as a closure sees it. -/
theorem Act.handles_view {answer : Args → Act σ α} {post : World → α → Prop}
    (h : ∀ W', W.Extends W' → ∀ arguments, W'.CoversArgs arguments →
      Act.Ensures holds W' (answer arguments) post) {args : Value → Args}
    (hargs : ∀ (W' : World) v, W'.Covers v → W'.CoversArgs (args v)) :
    Act.Handles holds W k (fun x => do answer (args (← Act.view k x))) post :=
  fun _ he _ hx => (Act.ensures_view hx).bind fun W'' he' v hv =>
    h W'' (he.trans he') (args v) (hargs W'' v hv)

namespace Closure.Safe

variable {f : Closure σ}

/-- A call about the result so far and an element. -/
theorem folds (hf : f.Safe holds W) {args : Value → Value → Args}
    (hargs : ∀ (W' : World) acc v, W'.Covers acc → W'.Covers v → W'.CoversArgs (args acc v)) :
    Act.Handles₂ holds W .vals k (fun acc x => do f.call (args acc (← Act.view k x)))
      fun W' v => W'.Covers v :=
  fun _ he acc _ hacc hx => (Act.ensures_view hx).bind fun W'' he' v hv =>
    (hf.mono (he.trans he')).call (hargs W'' acc v (World.Covers.mono hacc he') hv)

/-- A comparison that a sort makes. -/
theorem compares (hf : f.Safe holds W) :
    Act.Handles₂ holds W k k (f.comparator k) fun _ _ => True := by
  intro W' he x y hx hy
  refine (Act.ensures_view hx).bind fun W'' he' v hv => ?_
  refine (Act.ensures_view (hy.mono he')).bind fun W''' he'' w hw => ?_
  have hargs : W'''.CoversArgs [(.x, v), (.y, w)] := by simp [hv.mono he'', hw]
  refine (hf W''' ((he.trans he').trans he'') _ hargs).bind fun _ _ _ _ => ?_
  exact Act.ensures_pure trivial

end Closure.Safe

theorem Traversal.ensures_runOn (c : Traversal σ) {xs : Chain k.Elem} (hxs : W.CoversChain k xs)
    (hc : ∀ f ∈ c.closures, f.Safe holds W) :
    Attempt.Ensures holds W (c.runOn k xs) fun W' o => o.Sound W' names := by
  have answers : ∀ f : Closure σ, f.Safe holds W → Act.Handles holds W k
      (fun x => do f.call [(.x, ← Act.view k x)]) fun W' v => W'.Covers v :=
    fun f hf => Act.handles_view (fun W' he _ => (hf.mono he).call) fun W' v hv => by simp [hv]
  have asks : ∀ p : Closure σ, p.Safe holds W → Act.Handles holds W k
      (fun x => do p.test [(.x, ← Act.view k x)]) fun _ _ => True :=
    fun p hp => Act.handles_view (fun W' he _ => (hp.mono he).test) fun W' v hv => by simp [hv]
  have folds : ∀ f : Closure σ, f.Safe holds W → Act.Handles₂ holds W .vals k
      (fun acc x => do f.call [(.acc, acc), (.x, ← Act.view k x)]) fun W' v => W'.Covers v :=
    fun f hf => hf.folds fun W' acc v hacc hv => by simp [hacc, hv]
  cases c with
  | all p =>
    have hp := asks p (hc p List.mem_cons_self)
    exact ensures_shown (Act.ensures_allM hxs hp)
  | any p =>
    have hp := asks p (hc p List.mem_cons_self)
    exact ensures_shown (Act.ensures_anyM hxs hp)
  | findIdx p =>
    have hp := asks p (hc p List.mem_cons_self)
    exact ensures_shown (Act.ensures_findIdx?M hxs hp)
  | find p =>
    have hp := asks p (hc p List.mem_cons_self)
    exact ensures_shown (Act.ensures_find?M hxs hp)
  | contains d eq =>
    refine (Creation.ensures_element .vals d).bind fun W' he y hy => ?_
    have hy : W'.Covers y := hy
    have heq : Act.Handles holds W' k
        (fun x => do eq.test [(.x, ← Act.view k x), (.y, y)]) fun _ _ => True := by
      intro W'' he' x hx
      refine (Act.ensures_view hx).bind fun W''' he'' v hv => ?_
      refine (((hc eq List.mem_cons_self).mono he).mono (he'.trans he'')).test ?_
      simp [hv, hy.mono (he'.trans he'')]
    exact ensures_shown (Act.ensures_anyM (hxs.mono he) heq)
  | filter p =>
    have hp := asks p (hc p List.mem_cons_self)
    exact ensures_answered (Act.ensures_filterM hxs hp)
  | filterIdx p =>
    have hp : ∀ index, Act.Handles holds W k (fun x => do
        p.test [(.x, ← Act.view k x), (.i, position index)]) fun _ _ => True :=
      fun index => Act.handles_view (fun W' he _ => ((hc p List.mem_cons_self).mono he).test)
        fun W' v hv => by simp [hv, position, World.covers_int]
    exact ensures_answered (Act.ensures_filterIdxM hxs hp)
  | filterMap test f =>
    obtain ⟨htest, hrest⟩ := List.forall_mem_cons.mp hc
    have hf := List.forall_mem_singleton.mp hrest
    have hgives : Act.Handles holds W k
        (fun x => do
          let args := [(.x, ← Act.view k x)]
          if ← test.test args then return some (← f.run args) else return none)
        fun W' answer => ∀ y, answer = some y → W'.CoversElem .vals y := by
      intro W' he x hx
      refine (Act.ensures_view hx).bind fun W'' he' v hv => ?_
      have hargs : W''.CoversArgs [(.x, v)] := by simp [hv]
      refine ((htest.mono (he.trans he')).test hargs).ite (fun W''' he'' => ?_)
        fun W''' _ => Act.ensures_pure nofun
      refine (hf W''' ((he.trans he').trans he'') _ (hargs.mono he'')).bind fun _ _ y hy => ?_
      exact Act.ensures_pure fun z hz => Option.some.inj hz ▸ hy
    exact ensures_answered (k := .vals) (Act.ensures_filterMapM (j := .vals) hxs hgives)
  | partition p =>
    have hp := asks p (hc p List.mem_cons_self)
    exact ensures_act ((Act.ensures_partitionM hxs hp).bind fun _ _ _ hparts =>
      Act.ensures_pure (sound_chains hparts.1 hparts.2))
  | map f =>
    have hf := answers f (hc f List.mem_cons_self)
    exact ensures_answered (k := .vals) (Act.ensures_mapM (j := .vals) hxs hf)
  | mapIdx f =>
    have hf : ∀ index, Act.Handles holds W k (fun x => do
        f.call [(.i, position index), (.x, ← Act.view k x)]) fun W' v => W'.Covers v :=
      fun index => Act.handles_view (fun W' he _ => ((hc f List.mem_cons_self).mono he).call)
        fun W' v hv => by simp [hv, position, World.covers_int]
    exact ensures_answered (k := .vals) (Act.ensures_mapIdxM (j := .vals) hxs hf)
  | mapReverse f =>
    have hf := answers f (hc f List.mem_cons_self)
    exact ensures_answered (k := .vals) (Act.ensures_mapReverseM (j := .vals) hxs hf)
  | visit f =>
    have hvisit : Act.Handles holds W k (fun x => do f.tell [(.x, ← Act.view k x)])
        fun _ _ => True :=
      Act.handles_view (fun W' he _ => ((hc f List.mem_cons_self).mono he).tell)
        fun W' v hv => by simp [hv]
    refine ensures_act ((Act.ensures_forM hxs hvisit).bind fun _ _ _ _ => ?_)
    exact Act.ensures_get.bind fun _ _ _ _ => Act.ensures_pure sound_only
  | visitIdx f =>
    have hvisit : ∀ index, Act.Handles holds W k (fun x => do
        f.tell [(.i, position index), (.x, ← Act.view k x)]) fun _ _ => True :=
      fun index => Act.handles_view (fun W' he _ => ((hc f List.mem_cons_self).mono he).tell)
        fun W' v hv => by simp [hv, position, World.covers_int]
    refine ensures_act ((Act.ensures_forIdxM hxs hvisit).bind fun _ _ _ _ => ?_)
    exact Act.ensures_get.bind fun _ _ _ _ => Act.ensures_pure sound_only
  | foldl init f =>
    refine (Creation.ensures_element .vals init).bind fun W' he acc hacc => ?_
    have hf := folds f (hc f List.mem_cons_self)
    exact ensures_folded (Act.ensures_foldl (j := .vals) (hxs.mono he) hacc (hf.mono he))
  | foldlIdx init f =>
    refine (Creation.ensures_element .vals init).bind fun W' he acc hacc => ?_
    have hf : ∀ index, Act.Handles₂ holds W .vals k (fun acc x => do
        f.call [(.acc, acc), (.x, ← Act.view k x), (.i, position index)]) fun W' v => W'.Covers v :=
      fun index => (hc f List.mem_cons_self).folds fun W' acc v hacc hv => by
        simp [hacc, hv, position, World.covers_int]
    exact ensures_folded (Act.ensures_foldlIdx (j := .vals) (hxs.mono he) hacc
      fun index => (hf index).mono he)
  | foldr init f =>
    refine (Creation.ensures_element .vals init).bind fun W' he acc hacc => ?_
    have hf := folds f (hc f List.mem_cons_self)
    exact ensures_act ((Act.ensures_foldr (j := .vals) (hxs.mono he) hacc (hf.mono he)).bind
      fun _ _ _ hv => Act.ensures_pure ((sound_value hv).traced _))

theorem Traversal.ensures_run (c : Traversal σ) {source : String} (hrs : W.CoversRegisters rs)
    (hc : ∀ f ∈ c.closures, f.Safe holds W) :
    Attempt.Ensures holds W (c.run rs source) fun W' o => o.Sound W' names :=
  (ensures_closable hrs).bind fun _ he _ hp =>
    ensures_runOn c hp fun f hf => (hc f hf).mono he

/-! ## Closures and two chains -/

section Pairing

variable {k₁ k₂ : Kind} {f : Closure σ}

theorem Pairing.ensures_args {x : k₁.Elem} {y : k₂.Elem} (hx : W.CoversElem k₁ x)
    (hy : W.CoversElem k₂ y) :
    Act.Ensures holds W (args k₁ k₂ x y) fun W' arguments => W'.CoversArgs arguments := by
  refine (Act.ensures_view hx).bind fun W' he v hv => ?_
  refine (Act.ensures_view (hy.mono he)).bind fun W'' he' w hw => Act.ensures_pure ?_
  simp [hv.mono he', hw]

theorem Pairing.handles_args {answer : Args → Act σ α} {post : World → α → Prop}
    (h : ∀ W', W.Extends W' → ∀ args, W'.CoversArgs args →
      Act.Ensures holds W' (answer args) post) :
    Act.Handles₂ holds W k₁ k₂ (fun x y => do answer (← args k₁ k₂ x y)) post :=
  fun _ he _ _ hx hy => (ensures_args hx hy).bind fun W'' he' arguments hargs =>
    h W'' (he.trans he') arguments hargs

theorem Pairing.ensures_runOn (c : Pairing σ) {xs : Chain k₁.Elem} {ys : Chain k₂.Elem}
    (hxs : W.CoversChain k₁ xs) (hys : W.CoversChain k₂ ys)
    (hc : ∀ f ∈ c.closures, f.Safe holds W) :
    Attempt.Ensures holds W (c.runOn k₁ k₂ xs ys) fun W' o => o.Sound W' names := by
  have answers : ∀ f : Closure σ, f.Safe holds W → Act.Handles₂ holds W k₁ k₂
      (fun x y => do f.call (← args k₁ k₂ x y)) fun W' v => W'.Covers v :=
    fun f hf => handles_args fun W' he _ hargs => (hf.mono he).call hargs
  have asks : ∀ p : Closure σ, p.Safe holds W → Act.Handles₂ holds W k₁ k₂
      (fun x y => do p.test (← args k₁ k₂ x y)) fun _ _ => True :=
    fun p hp => handles_args fun W' he _ hargs => (hp.mono he).test hargs
  have folds : ∀ f : Closure σ, f.Safe holds W → ∀ W', W.Extends W' → ∀ acc, W'.Covers acc →
      Act.Handles₂ holds W' k₁ k₂ (fun x y => do f.call ((.acc, acc) :: (← args k₁ k₂ x y)))
        fun W'' v => W''.Covers v :=
    fun f hf W' he acc hacc => handles_args fun W'' he' _ hargs =>
      (hf.mono (he.trans he')).call (World.coversArgs_cons_iff.mpr ⟨hacc.mono he', hargs⟩)
  cases c with
  | zipWith f =>
    have hf := answers f (hc f List.mem_cons_self)
    exact ensures_answered (k := .vals) (Act.ensures_zipWithM (k := .vals) hxs hys hf)
  | zipWithReverse f =>
    have hf := answers f (hc f List.mem_cons_self)
    exact ensures_answered (k := .vals) (Act.ensures_zipWithReverseM (k := .vals) hxs hys hf)
  | all p =>
    have hp := asks p (hc p List.mem_cons_self)
    exact ensures_shown (Act.ensures_allM₂ hxs hys hp)
  | any p =>
    have hp := asks p (hc p List.mem_cons_self)
    exact ensures_shown (Act.ensures_anyM₂ hxs hys hp)
  | equal p =>
    have hp := asks p (hc p List.mem_cons_self)
    exact ensures_shown (Act.ensures_equalM hxs hys hp)
  | compare f =>
    have hf : Act.Handles₂ holds W k₁ k₂ (fun x y => do f.order (← args k₁ k₂ x y))
        fun _ _ => True :=
      handles_args fun W' he _ hargs => ((hc f List.mem_cons_self).mono he).order hargs
    exact ensures_shown (Act.ensures_compareM hxs hys hf)
  | visit f =>
    have hvisit : Act.Handles₂ holds W k₁ k₂ (fun x y => do f.tell (← args k₁ k₂ x y))
        fun _ _ => True :=
      handles_args fun W' he _ hargs => ((hc f List.mem_cons_self).mono he).tell hargs
    refine ensures_act ((Act.ensures_forM₂ hxs hys hvisit).bind fun _ _ _ _ => ?_)
    exact Act.ensures_get.bind fun _ _ _ _ => Act.ensures_pure sound_only
  | foldl init f =>
    refine (Creation.ensures_element .vals init).bind fun W' he acc hacc => ?_
    have hf := folds f (hc f List.mem_cons_self)
    exact ensures_folded (Act.ensures_foldl₂ (k := .vals) (hxs.mono he) (hys.mono he) hacc
      fun W'' he' => hf W'' (he.trans he'))
  | foldr init f =>
    refine (Creation.ensures_element .vals init).bind fun W' he acc hacc => ?_
    have hf := folds f (hc f List.mem_cons_self)
    exact ensures_act ((Act.ensures_foldr₂ (k := .vals) (hxs.mono he) (hys.mono he) hacc
      fun W'' he' => hf W'' (he.trans he')).bind fun _ _ _ hv =>
        Act.ensures_pure ((sound_value hv).traced _))

theorem Pairing.ensures_run (c : Pairing σ) {source other : String} (hrs : W.CoversRegisters rs)
    (hc : ∀ f ∈ c.closures, f.Safe holds W) :
    Attempt.Ensures holds W (c.run rs source other) fun W' o => o.Sound W' names := by
  refine (ensures_closable hrs).bind fun W' he p hp => ?_
  refine (ensures_closable (hrs.mono he)).bind fun W'' he' q hq => ?_
  exact ensures_runOn c (hp.mono he') hq fun f hf => (hc f hf).mono (he.trans he')

end Pairing

/-! ## Rearranging -/

theorem Reshaping.ensures_sorted {t : Traced (Fresh (Chain k.Elem))}
    (h : Fresh.Makes W t.value fun W' ys => W'.CoversChain k ys) :
    Attempt.Ensures holds W (sorted k t : Attempt σ Outcome) fun W' o => o.Sound W' names :=
  ensures_act ((Act.ensures_alloc h).bind fun _ _ _ hys =>
    Act.ensures_pure ((sound_chain hys).traced _))

theorem Reshaping.ensures_run (c : Reshaping σ) (hrs : W.CoversRegisters rs)
    (hc : ∀ f ∈ c.closures, f.Safe holds W) :
    Attempt.Ensures holds W (c.run rs) fun W' o => o.Sound W' names := by
  cases c with
  | take source count =>
    refine (ensures_chain hrs).bind fun W' _ p hp => ?_
    obtain ⟨k, xs⟩ := p
    dsimp only
    split
    · exact ensures_pure sound_only
    · rename_i front hfront
      exact ensures_made (Fresh.makes_take? hp hfront)
  | drop source count =>
    refine (ensures_chain hrs).bind fun W' _ p hp => ensures_pure (sound_chain? fun ys hys => ?_)
    unfold Chain.drop? at hys
    split at hys
    · cases hys
      exact hp.suffix count
    · cases hys
  | splitAt source index =>
    refine (ensures_chain hrs).bind fun W' _ p hp => ?_
    obtain ⟨k, xs⟩ := p
    dsimp only
    split
    · exact ensures_pure sound_only
    · rename_i parts hparts
      exact (ensures_alloc (Fresh.makes_splitAt? hp hparts)).bind fun _ _ _ hys =>
        ensures_pure (sound_chains hys.1 hys.2)
  | reverse source =>
    refine (ensures_chain hrs).bind fun W' _ p hp => ?_
    exact ensures_made (Fresh.makes_reverseAppend hp (W'.coversChain_empty p.1))
  | reverseAppend source other =>
    refine (ensures_chain hrs).bind fun W' he p hp => ?_
    refine (ensures_ofKind (hrs.mono he)).bind fun W'' he' ys hys => ?_
    exact ensures_made (Fresh.makes_reverseAppend (hp.mono he') hys)
  | append source other =>
    refine (ensures_chain hrs).bind fun W' he p hp => ?_
    refine (ensures_ofKind (hrs.mono he)).bind fun W'' he' ys hys => ?_
    exact ensures_made (Fresh.makes_append (hp.mono he') hys)
  | appendAll sources =>
    refine (ensures_ofKinds hrs sources).bind fun W' _ chains hchains => ?_
    exact ensures_made (Fresh.makes_appendAll (k := .vals) hchains)
  | flatten source =>
    refine (ensures_ofKind hrs).bind fun W' _ chains hchains => ?_
    exact ensures_made (Fresh.makes_flatten hchains)
  | zip source other =>
    refine (ensures_ofKind hrs).bind fun W' he xs hxs => ?_
    refine (ensures_ofKind (hrs.mono he)).bind fun W'' he' ys hys => ?_
    exact ensures_made (Fresh.makes_zip (hxs.mono he') hys)
  | unzip source =>
    refine (ensures_ofKind hrs).bind fun W' _ pairs hpairs => ?_
    exact (ensures_alloc (Fresh.makes_unzip hpairs)).bind fun _ _ _ hys =>
      ensures_pure (sound_chains hys.1 hys.2)
  | sort source =>
    refine (ensures_chain hrs).bind fun W' _ p hp => ?_
    obtain ⟨k, xs⟩ := p
    dsimp only
    split
    · exact ensures_sorted (Fresh.makes_sortBy hp)
    · exact ensures_throw
  | sortBy source f =>
    refine (ensures_closable hrs).bind fun W' he p hp => ?_
    have hf := (hc f List.mem_cons_self).mono he
    exact (ensures_act (Act.ensures_sortByM hp hf.compares)).bind fun _ _ _ ht => ensures_sorted ht
  | sortTotal source =>
    refine (ensures_ofKind hrs).bind fun W' _ xs hxs => ?_
    exact ensures_sorted (Fresh.makes_sortBy (k := .floats) hxs)
  | shuffleWith source words =>
    refine (ensures_chain hrs).bind fun W' _ p hp => ?_
    refine (ensures_alloc (Fresh.makes_shuffle hp (.cycle words))).bind fun W'' _ ys hys => ?_
    have hregister := World.coversRegister_chain_iff.mpr hys
    exact ensures_pure ((sound_register hregister).traced _)
  | shuffleSort source =>
    refine (ensures_chain hrs).bind fun W' _ p hp => ?_
    obtain ⟨k, xs⟩ := p
    dsimp only
    split
    · exact ensures_throw
    · refine (ensures_alloc (Fresh.makes_shuffle hp fun _ => 0)).bind fun W'' _ ys hys => ?_
      exact (ensures_alloc (Fresh.makes_sortBy hys)).bind fun _ _ _ _ =>
        ensures_pure (sound_only.traced _)

/-! ## Association lists -/

theorem Association.ensures_run (c : Association) {source : String} {key : Datum} {eq : Closure σ}
    (hrs : W.CoversRegisters rs) (heq : eq.Safe holds W) :
    Attempt.Ensures holds W (c.run rs source key eq) fun W' o => o.Sound W' names := by
  have hmatching : Act.Handles₂ holds W .vals .vals (run.matching eq) fun _ _ => True :=
    fun W' he x y hx hy => (heq.mono he).test (World.coversArgs_cons_iff.mpr
      ⟨hx, World.coversArgs_cons_iff.mpr ⟨hy, W'.coversArgs_nil⟩⟩)
  cases c with
  | lookup =>
    refine (ensures_ofKind hrs).bind fun W' he xs hxs => ?_
    refine (Creation.ensures_element .vals key).bind fun W'' he' v hv => ?_
    exact ensures_shown (Act.ensures_lookupM (hxs.mono he') hv (hmatching.mono (he.trans he')))
  | hasKey =>
    refine (ensures_ofKind hrs).bind fun W' he xs hxs => ?_
    refine (Creation.ensures_element .vals key).bind fun W'' he' v hv => ?_
    exact ensures_shown (Act.ensures_hasKeyM (hxs.mono he') hv (hmatching.mono (he.trans he')))
  | eraseKey =>
    refine (ensures_ofKind hrs).bind fun W' he xs hxs => ?_
    refine (Creation.ensures_element .vals key).bind fun W'' he' v hv => ?_
    exact ensures_answered (k := .pairs) (Act.ensures_eraseKeyM (hxs.mono he') hv
      (hmatching.mono (he.trans he')))
  | setKey value =>
    refine (ensures_ofKind hrs).bind fun W' he xs hxs => ?_
    refine (Creation.ensures_element .vals key).bind fun W'' he' v hv => ?_
    refine (Creation.ensures_element .vals value).bind fun W''' he'' w hw => ?_
    have hpairs := (hxs.mono he').mono he''
    exact ensures_answered (k := .pairs) (Act.ensures_setKeyM hpairs (World.Covers.mono hv he'')
      hw (hmatching.mono ((he.trans he').trans he'')))

/-! ## Drafts -/

theorem Drafting.sound_outcome {d : Draft Value} (hd : W.CoversDraft .vals d) :
    (outcome d).Sound W names := sound_register (World.coversRegister_draft_iff.mpr hd)

theorem Drafting.sound_kept {source : String} {d : Draft Value} (hsource : source ∈ names)
    (hd : W.CoversDraft .vals d) : (kept source d).Sound W names :=
  sound_only.changing hsource fun _ hr =>
    Option.some.inj hr ▸ World.coversRegister_draft_iff.mpr hd

theorem Drafting.ensures_run (c : Drafting) (hrs : W.CoversRegisters rs) :
    Attempt.Ensures holds W (c.run rs : Attempt σ Outcome) fun W' o => o.Sound W' c.alters := by
  cases c with
  | empty capacity =>
    cases capacity with
    | none => exact ensures_pure (sound_outcome (W.coversDraft_empty .vals))
    | some capacity =>
      exact ensures_pure (sound_outcome (W.coversDraft_withCapacity .vals capacity))
  | ofChain source =>
    refine (ensures_ofKind hrs).bind fun W' _ xs hxs => ensures_pure (sound_outcome ?_)
    exact (W'.coversDraft_withCapacity .vals xs.length).extend hxs.2
  | push source datum =>
    refine (ensures_draft hrs).bind fun W' _ d hd => ?_
    refine (Creation.ensures_element .vals datum).bind fun W'' he x hx => ?_
    exact ensures_pure (sound_kept List.mem_cons_self ((hd.mono he).push (k := .vals) hx))
  | extend source data =>
    refine (ensures_draft hrs).bind fun W' _ d hd => ?_
    refine (Creation.ensures_elements .vals data).bind fun W'' he xs hxs => ?_
    exact ensures_pure (sound_kept List.mem_cons_self ((hd.mono he).extend (k := .vals) hxs))
  | freeze source =>
    refine (ensures_draft hrs).bind fun W' _ d hd => ?_
    refine (ensures_alloc (Fresh.makes_freeze (k := .vals) hd)).bind fun W'' _ ys hys => ?_
    exact ensures_pure ((sound_chain hys).changing List.mem_cons_self nofun)
  | freezeOnto source other =>
    refine (ensures_ofKind hrs).bind fun W' he tail htail => ?_
    refine (ensures_draft (hrs.mono he)).bind fun W'' he' d hd => ?_
    refine (ensures_alloc (Fresh.makes_freezeOnto (k := .vals) hd (htail.mono he'))).bind ?_
    exact fun _ _ _ hys => ensures_pure ((sound_chain hys).changing List.mem_cons_self nofun)

/-! ## Exchange -/

theorem Fresh.decodes_asValue {decode : Decoder α} {value : α → Value}
    (hdecode : ∀ s make, decode s = .ok make → ∃ x, make = pure x)
    (hvalue : ∀ x W, World.Covers W (value x)) : Decodes .vals (decode.asValue value) := by
  intro s make hmake W
  unfold Decoder.asValue at hmake
  cases hs : decode s with
  | error e => rw [hs] at hmake; cases hmake
  | ok made =>
    rw [hs] at hmake
    cases hmake
    obtain ⟨x, rfl⟩ := hdecode s made hs
    exact makes_pure (hvalue x W)

theorem Fresh.decodes_int : Decodes .vals (Decoder.asValue Serial.decodeInt .int) := by
  refine decodes_asValue (fun s make hmake => ?_) fun n W => W.covers_int n
  unfold Serial.decodeInt at hmake
  split at hmake
  · split at hmake
    · cases hmake
      exact ⟨_, rfl⟩
    · cases hmake
  · cases hmake

theorem Fresh.decodes_str : Decodes .vals (Decoder.asValue Serial.decodeString .str) := by
  refine decodes_asValue (fun s make hmake => ?_) fun s W => W.covers_str s
  unfold Serial.decodeString at hmake
  split at hmake
  · cases hmake
    exact ⟨_, rfl⟩
  · cases hmake

theorem Shape.decodes_element (shape : Shape) : Fresh.Decodes shape.kind shape.element := by
  cases shape with
  | ints => exact Fresh.decodes_int
  | strings => exact Fresh.decodes_str
  | pairs => exact Fresh.decodes_pair Fresh.decodes_str Fresh.decodes_int
  | nested =>
    exact fun s make hmake W => (Fresh.makes_decode Fresh.decodes_int hmake W).mono
      fun _ _ _ hys => World.coversElem_nested_iff.mpr hys

theorem Exchange.ensures_run (c : Exchange) (hrs : W.CoversRegisters rs)
    (hc : ∀ v ∈ c.elements, W.Covers v) :
    Attempt.Ensures holds W (c.run rs : Attempt σ Outcome) fun W' o => o.Sound W' names := by
  cases c with
  | text source form =>
    refine (ensures_chain hrs).bind fun W' _ p hp => ?_
    exact (ensures_read_any _).bind fun _ _ _ _ => ensures_pure sound_only
  | writes source =>
    refine (ensures_chain hrs).bind fun W' _ p hp => ?_
    obtain ⟨k, xs⟩ := p
    dsimp only
    split
    · exact ensures_pure sound_only
    · exact ensures_throw
  | encode source => exact (ensures_closable hrs).bind fun _ _ _ _ => ensures_pure sound_only
  | decode shape j =>
    unfold run
    dsimp only
    split
    · rename_i make hmake
      exact ensures_made (Fresh.makes_decode shape.decodes_element hmake W)
    · exact ensures_throw
  | ofSource source =>
    unfold run
    dsimp only
    split
    · rename_i make hmake
      have hsource : ∀ x, .ok x ∈ source.deliveries → W.CoversElem .vals x :=
        fun x hx => hc x (List.mem_filterMap.mpr ⟨.ok x, hx, rfl⟩)
      exact ensures_made (Fresh.makes_ofSource (k := .vals) hsource hmake)
    · exact ensures_throw
  | limit => exact ensures_pure sound_only

/-! ## All commands -/

/-- **From covered registers a command comes to a covered outcome**, and changes by itself no
register but those that it alters. -/
theorem Command.ensures_run (c : Command σ) (hrs : W.CoversRegisters rs) (hc : c.Safe holds W) :
    Attempt.Ensures holds W (c.run rs) fun W' o => o.Sound W' c.alters := by
  cases c with
  | creation c => exact c.ensures_run hrs hc.closures
  | reading c => exact c.ensures_run hrs
  | traversal source c => exact c.ensures_run hrs hc.closures
  | pairing source other c => exact c.ensures_run hrs hc.closures
  | reshaping c => exact c.ensures_run hrs hc.closures
  | association source key eq c => exact c.ensures_run hrs (hc.closures eq List.mem_cons_self)
  | drafting c => exact c.ensures_run hrs
  | exchange c => exact c.ensures_run hrs hc.elements

end SharedList
