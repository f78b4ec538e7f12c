import SharedList.Proofs.Honesty

/-!
# What actions ensure

An action **ensures** something of its result in a world: run from any scratch that is in this
world, it comes to a scratch that is in a later one, where the result is as said.  One rule for
each way in which actions are put together carries this through whole commands, whatever their
closures do.

* `Scratch.In` — the supply and the memory fit a world.
* `Act.Ensures` — with `ensures_pure`, `Ensures.bind`, `Ensures.mono`, `ensures_alloc`,
  `ensures_foldlM` and the like as its rules.
* `Closure.Safe` — from covered arguments every call comes to a covered value, in all later worlds;
  `Closure.Honest.safe` says that honest closures are so.
* `Attempt.Ensures` — the same for actions that may end in a fault, which ensure nothing of it.
-/

set_option autoImplicit false

namespace SharedList

namespace World

variable {W W' : World} {k : Kind}

/-- The world owns every chain in the arguments of a call. -/
def CoversArgs (W : World) (args : Args) : Prop := ∀ arg ∈ args, W.Covers arg.2

@[simp] theorem coversArgs_nil (W : World) : W.CoversArgs [] := List.forall_mem_nil _

@[simp] theorem coversArgs_cons_iff {name : Var} {v : Value} {args : Args} :
    W.CoversArgs ((name, v) :: args) ↔ W.Covers v ∧ W.CoversArgs args := List.forall_mem_cons

theorem CoversArgs.mono {args : Args} (h : W.CoversArgs args) (he : W.Extends W') :
    W'.CoversArgs args := fun arg harg => (h arg harg).mono he

/-- The world owns every chain in the drafted elements. -/
def CoversDraft (W : World) (k : Kind) (d : Draft k.Elem) : Prop :=
  ∀ x ∈ d.toList, W.CoversElem k x

theorem coversDraft_empty (W : World) (k : Kind) : W.CoversDraft k .empty :=
  List.forall_mem_nil _

theorem coversDraft_withCapacity (W : World) (k : Kind) (capacity : Nat) :
    W.CoversDraft k (.withCapacity capacity) := List.forall_mem_nil _

theorem CoversDraft.mono {d : Draft k.Elem} (h : W.CoversDraft k d) (he : W.Extends W') :
    W'.CoversDraft k d := fun x hx => (h x hx).mono he

theorem CoversDraft.extend {d : Draft k.Elem} {xs : List k.Elem} (h : W.CoversDraft k d)
    (hxs : ∀ x ∈ xs, W.CoversElem k x) : W.CoversDraft k (d.extend xs) := by
  intro y hy
  rw [Draft.toList_extend, List.mem_append] at hy
  exact hy.elim (h y) (hxs y)

theorem CoversDraft.push {d : Draft k.Elem} {x : k.Elem} (h : W.CoversDraft k d)
    (hx : W.CoversElem k x) : W.CoversDraft k (d.push x) := by
  intro y hy
  rw [Draft.toList_push, List.mem_append, List.mem_singleton] at hy
  rcases hy with hy | rfl
  · exact h y hy
  · exact hx

end World

variable {σ α β : Type} {holds : σ → Value → Prop} {W W' : World}

/-- The supply has come to where the world ends, and the world owns every chain in the memory, of
which `holds` says which values are in it. -/
structure Scratch.In (holds : σ → Value → Prop) (W : World) (s : Scratch σ) : Prop where
  supply_eq : s.supply = W.next
  covers : ∀ v, holds s.memory v → W.Covers v

/-! ## Actions -/

namespace Act

/-- From every scratch in the world the action comes to one in a later world, in which the result
is as said. -/
def Ensures (holds : σ → Value → Prop) (W : World) (a : Act σ α) (post : World → α → Prop) : Prop :=
  ∀ s, Scratch.In holds W s →
    ∃ W', W.Extends W' ∧ Scratch.In holds W' (a s).2 ∧ post W' (a s).1

theorem ensures_pure {x : α} {post : World → α → Prop} (h : post W x) :
    Ensures holds W (pure x) post := fun _ hs => ⟨W, .refl W, hs, h⟩

theorem Ensures.bind {a : Act σ α} {rest : α → Act σ β} {mid : World → α → Prop}
    {post : World → β → Prop} (h : Ensures holds W a mid)
    (hrest : ∀ W', W.Extends W' → ∀ x, mid W' x → Ensures holds W' (rest x) post) :
    Ensures holds W (a >>= rest) post := by
  intro s hs
  obtain ⟨W', he, hs', hmid⟩ := h s hs
  obtain ⟨W'', he', hs'', hpost⟩ := hrest W' he _ hmid _ hs'
  exact ⟨W'', he.trans he', hs'', hpost⟩

theorem Ensures.mono {a : Act σ α} {post post' : World → α → Prop} (h : Ensures holds W a post)
    (himp : ∀ W', W.Extends W' → ∀ x, post W' x → post' W' x) : Ensures holds W a post' := by
  intro s hs
  obtain ⟨W', he, hs', hpost⟩ := h s hs
  exact ⟨W', he, hs', himp W' he _ hpost⟩

/-- Looking at the scratch changes nothing. -/
theorem ensures_get : Ensures holds W (get : Act σ (Scratch σ)) fun _ _ => True :=
  fun _ hs => ⟨W, .refl W, hs, trivial⟩

theorem ensures_note (args : Args) : Ensures holds W (note args) fun _ _ => True :=
  fun _ hs => ⟨W, .refl W, ⟨hs.supply_eq, hs.covers⟩, trivial⟩

theorem ensures_alloc {make : Fresh α} {post : World → α → Prop} (h : Fresh.Makes W make post) :
    Ensures holds W (alloc make) post := by
  intro s hs
  obtain ⟨W', he, hnext, hpost⟩ := h
  rw [← hs.supply_eq] at hnext hpost
  exact ⟨W', he, ⟨hnext.symm, fun v hv => (hs.covers v hv).mono he⟩, hpost⟩

/-- What an action leaves to be made is made in the world to which the action has come. -/
theorem Ensures.build {a : Act σ (Fresh α)} {post : World → α → Prop}
    (h : Ensures holds W a fun W' make => Fresh.Makes W' make post) :
    Ensures holds W (build a) post := h.bind fun _ _ _ hmake => ensures_alloc hmake

/-- A loop keeps what every round keeps. -/
theorem ensures_foldlM {xs : List α} {f : β → α → Act σ β} {inv : World → β → Prop} {init : β}
    (hinit : inv W init)
    (hround : ∀ W', W.Extends W' → ∀ x ∈ xs, ∀ b, inv W' b → Ensures holds W' (f b x) inv) :
    Ensures holds W (xs.foldlM f init) inv := by
  induction xs generalizing W init with
  | nil => exact ensures_pure hinit
  | cons x xs ih =>
    rw [List.foldlM_cons]
    refine (hround W (.refl W) x List.mem_cons_self init hinit).bind fun W' he b hb => ?_
    exact ih hb fun W'' he' y hy => hround W'' (he.trans he') y (List.mem_cons_of_mem x hy)

/-- A closure sees of a covered element a covered value. -/
theorem ensures_view {k : Kind} {x : k.Elem} (hx : W.CoversElem k x) :
    Ensures holds W (view k x) fun W' v => W'.Covers v := by
  refine ensures_alloc ?_
  cases k with
  | vals => exact Fresh.makes_pure hx
  | pairs =>
    obtain ⟨hfst, hsnd⟩ := World.coversElem_pairs_iff.mp hx
    have hboth : ∀ v ∈ [x.1, x.2], W.CoversElem .vals v := by
      rw [List.forall_mem_cons, List.forall_mem_singleton]
      exact ⟨hfst, hsnd⟩
    have hmake : Fresh.Makes W (Chain.ofList [x.1, x.2]) fun W' ys => W'.CoversChain .vals ys := by
      rw [Chain.ofList_eq]
      exact Fresh.makes_prepend (k := .vals) hboth (W.coversChain_empty .vals)
    exact hmake.bind fun W' _ ys hys => Fresh.makes_pure (World.covers_list_iff.mpr hys)
  | nested => exact Fresh.makes_pure hx
  | floats => exact Fresh.makes_pure (W.covers_str _)

end Act

/-! ## Closures -/

namespace Closure

/-- In this world and in all later ones, a call with covered arguments gives a covered value. -/
def Safe (holds : σ → Value → Prop) (W : World) (f : Closure σ) : Prop :=
  ∀ W', W.Extends W' → ∀ args, W'.CoversArgs args →
    Act.Ensures holds W' (f.run args) fun W'' v => W''.Covers v

variable {f : Closure σ} {args : Args}

theorem Safe.mono (h : Safe holds W f) (he : W.Extends W') : Safe holds W' f :=
  fun W'' he' => h W'' (he.trans he')

/-- **An honest closure is safe** in a world that covers what it captured. -/
theorem Honest.safe {captured : Value → Prop} (hf : Closure.Honest holds captured f)
    (hcaptured : ∀ v, captured v → W.Covers v) : Safe holds W f := by
  intro W' he args hargs s hs
  have hmakes := (hf args s.memory).makes (W := W') fun v hv => by
    rcases hv with ⟨name, harg⟩ | hv | hv
    · exact hargs _ harg
    · exact hs.covers v hv
    · exact (hcaptured v hv).mono he
  obtain ⟨W'', he', hnext, hout⟩ := hmakes
  rw [← hs.supply_eq] at hnext hout
  exact ⟨W'', he', ⟨hnext.symm, fun v hv => hout v (.inr hv)⟩, hout _ (.inl rfl)⟩

theorem Safe.call (hf : Safe holds W f) (hargs : W.CoversArgs args) :
    Act.Ensures holds W (f.call args) fun W' v => W'.Covers v :=
  (Act.ensures_note args).bind fun W' he _ _ => hf W' he args (hargs.mono he)

theorem Safe.tell (hf : Safe holds W f) (hargs : W.CoversArgs args) :
    Act.Ensures holds W (f.tell args) fun _ _ => True :=
  (hf.call hargs).bind fun _ _ _ _ => Act.ensures_pure trivial

theorem Safe.test (hf : Safe holds W f) (hargs : W.CoversArgs args) :
    Act.Ensures holds W (f.test args) fun _ _ => True :=
  (hf.call hargs).bind fun _ _ _ _ => Act.ensures_pure trivial

theorem Safe.order (hf : Safe holds W f) (hargs : W.CoversArgs args) :
    Act.Ensures holds W (f.order args) fun _ _ => True :=
  (hf.call hargs).bind fun _ _ _ _ => Act.ensures_pure trivial

end Closure

/-! ## Actions that may end in a fault -/

namespace Attempt

/-- Whether or not it ends in a fault, the attempt comes to a scratch in a later world; if it does
not, the result is as said. -/
def Ensures (holds : σ → Value → Prop) (W : World) (a : Attempt σ α) (post : World → α → Prop) :
    Prop :=
  Act.Ensures holds W a.run fun W' result => ∀ x, result = .ok x → post W' x

theorem ensures_pure {x : α} {post : World → α → Prop} (h : post W x) :
    Ensures holds W (pure x) post :=
  Act.ensures_pure fun _ hx => Except.ok.inj hx ▸ h

theorem ensures_throw {fault : Fault} {post : World → α → Prop} :
    Ensures holds W (throw fault) post := Act.ensures_pure nofun

theorem Ensures.bind {a : Attempt σ α} {rest : α → Attempt σ β} {mid : World → α → Prop}
    {post : World → β → Prop} (h : Ensures holds W a mid)
    (hrest : ∀ W', W.Extends W' → ∀ x, mid W' x → Ensures holds W' (rest x) post) :
    Ensures holds W (a >>= rest) post := by
  show Act.Ensures holds W (a.run >>= ExceptT.bindCont rest) _
  refine Act.Ensures.bind h fun W' he result hmid => ?_
  cases result with
  | ok x => exact hrest W' he x (hmid x rfl)
  | error fault => exact Act.ensures_pure nofun

theorem ensures_act {a : Act σ α} {post : World → α → Prop} (h : Act.Ensures holds W a post) :
    Ensures holds W (act a) post := by
  refine Act.Ensures.bind h fun W' _ x hx => Act.ensures_pure fun y hy => ?_
  cases hy
  exact hx

theorem ensures_read {r : Except Fault α} {post : World → α → Prop}
    (h : ∀ x, r = .ok x → post W x) : Ensures holds W (read r) post := Act.ensures_pure h

/-- What holds of every result of a row of attempts, and goes on holding, holds of all together. -/
theorem ensures_mapM {xs : List α} {f : α → Attempt σ β} {post : World → β → Prop}
    (hpost : ∀ W' W'' y, W'.Extends W'' → post W' y → post W'' y)
    (hf : ∀ W', W.Extends W' → ∀ x ∈ xs, Ensures holds W' (f x) post) :
    Ensures holds W (xs.mapM f) fun W' ys => ∀ y ∈ ys, post W' y := by
  induction xs generalizing W with
  | nil => exact ensures_pure (List.forall_mem_nil _)
  | cons x xs ih =>
    rw [List.mapM_cons]
    refine (hf W (.refl W) x List.mem_cons_self).bind fun W' he y hy => ?_
    have hrest := ih fun W'' he' z hz => hf W'' (he.trans he') z (List.mem_cons_of_mem x hz)
    refine hrest.bind fun W'' he' ys hys => ensures_pure ?_
    exact List.forall_mem_cons.mpr ⟨hpost W' W'' y he' hy, hys⟩

end Attempt

end SharedList
