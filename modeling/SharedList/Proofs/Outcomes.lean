import SharedList.Proofs.Calling
import SharedList.Session.Command

/-!
# What commands are given and what they leave

* `Command.closures`, `Command.elements` — what a caller hands to a command.
* `Command.alters` — the registers that a command fills anew or empties by itself.
* `Command.Safe` — the closures are safe and the elements covered.
* `Outcome.Sound` — the outcome is covered and changes nothing but what is altered.
* `ensures_chain`, `ensures_ofKind`, `ensures_draft` and the like — what registers are read as.
* `ensures_shown`, `ensures_folded`, `ensures_answered`, `ensures_made` — the usual ends of
  commands.
* `Creation.ensures_element` — an element that is written in a command.
-/

set_option autoImplicit false

namespace SharedList

variable {σ α β : Type} {holds : σ → Value → Prop} {W W' : World} {k : Kind}

/-! ## What is handed to commands and what they alter -/

/-- The closure that a creation calls. -/
def Creation.closures : Creation σ → List (Closure σ)
  | tabulate _ f => [f]
  | _ => []

/-- The closures that a traversal calls. -/
def Traversal.closures : Traversal σ → List (Closure σ)
  | all p | any p | findIdx p | find p | contains _ p | filter p | filterIdx p | partition p => [p]
  | filterMap test f => [test, f]
  | map f | mapIdx f | mapReverse f | visit f | visitIdx f => [f]
  | foldl _ f | foldlIdx _ f | foldr _ f => [f]

/-- The closure that a pairing calls. -/
def Pairing.closures : Pairing σ → List (Closure σ)
  | all p | any p | equal p => [p]
  | zipWith f | zipWithReverse f | compare f | visit f | foldl _ f | foldr _ f => [f]

/-- The closure by which a command sorts. -/
def Reshaping.closures : Reshaping σ → List (Closure σ)
  | sortBy _ f => [f]
  | _ => []

/-- The closures that a command calls. -/
def Command.closures : Command σ → List (Closure σ)
  | creation c => c.closures
  | traversal _ c => c.closures
  | pairing _ _ c => c.closures
  | reshaping c => c.closures
  | association _ _ eq _ => [eq]
  | reading _ | drafting _ | exchange _ => []

/-- The elements that a source delivers. -/
def Exchange.elements : Exchange → List Value
  | ofSource source => source.deliveries.filterMap Except.toOption
  | _ => []

/-- The elements handed to a command as they are. -/
def Command.elements : Command σ → List Value
  | exchange c => c.elements
  | _ => []

/-- The register that a creation empties by itself. -/
def Creation.alters : Creation σ → List String
  | discard source => [source]
  | _ => []

/-- The register that a command on drafts fills anew or empties by itself. -/
def Drafting.alters : Drafting → List String
  | push source _ | extend source _ | freeze source | freezeOnto source _ => [source]
  | empty _ | ofChain _ => []

/-- The registers that a command fills anew or empties by itself. -/
def Command.alters : Command σ → List String
  | creation c => c.alters
  | drafting c => c.alters
  | _ => []

/-- What a caller hands to a command is safe in a world. -/
structure Command.Safe (holds : σ → Value → Prop) (W : World) (c : Command σ) : Prop where
  closures : ∀ f ∈ c.closures, f.Safe holds W
  elements : ∀ v ∈ c.elements, W.Covers v

/-! ## Outcomes -/

/-- The world owns every chain in the registers that an outcome leaves to be stored or fills, and
the outcome changes no registers but those named. -/
structure Outcome.Sound (W : World) (names : List String) (o : Outcome) : Prop where
  first : ∀ r, o.first = some r → W.CoversRegister r
  second : ∀ r, o.second = some r → W.CoversRegister r
  changes : ∀ name change, (name, change) ∈ o.changes →
    name ∈ names ∧ ∀ r, change = some r → W.CoversRegister r

namespace Outcome

variable {names : List String} {shown : Json} {o : Outcome}

theorem sound_only : (only shown).Sound W names := ⟨nofun, nofun, nofun⟩

theorem sound_register {r : Register} (h : W.CoversRegister r) :
    (register shown r).Sound W names := ⟨fun _ hr => Option.some.inj hr ▸ h, nofun, nofun⟩

theorem sound_chain {xs : Chain k.Elem} (h : W.CoversChain k xs) : (chain k xs).Sound W names :=
  sound_register (World.coversRegister_chain_iff.mpr h)

theorem sound_chain? {xs? : Option (Chain k.Elem)} (h : ∀ xs, xs? = some xs → W.CoversChain k xs) :
    (chain? k xs?).Sound W names := by
  cases xs? with
  | none => exact sound_only
  | some xs => exact sound_chain (h xs rfl)

theorem sound_value {v : Value} (h : W.Covers v) : (value v).Sound W names := by
  cases v with
  | list xs =>
    have hxs : W.CoversChain .vals xs := World.covers_list_iff.mp h
    exact sound_register (World.coversRegister_chain_iff.mpr hxs)
  | bool b => exact sound_only
  | int n => exact sound_only
  | str s => exact sound_only

theorem sound_chains {k₁ k₂ : Kind} {xs : Chain k₁.Elem} {ys : Chain k₂.Elem}
    (hxs : W.CoversChain k₁ xs) (hys : W.CoversChain k₂ ys) :
    (chains k₁ k₂ xs ys).Sound W names := by
  refine ⟨fun r hr => ?_, fun r hr => ?_, nofun⟩
  · cases hr
    exact World.coversRegister_chain_iff.mpr hxs
  · cases hr
    exact World.coversRegister_chain_iff.mpr hys

theorem Sound.traced (h : o.Sound W names) (events : List Event) :
    (o.traced events).Sound W names :=
  ⟨h.first, h.second, h.changes⟩

theorem Sound.changing (h : o.Sound W names) {name : String} {change : Option Register}
    (hname : name ∈ names) (hchange : ∀ r, change = some r → W.CoversRegister r) :
    (o.changing [(name, change)]).Sound W names := by
  refine ⟨h.first, h.second, fun name' change' hmem => ?_⟩
  cases List.mem_singleton.mp hmem
  exact ⟨hname, hchange⟩

end Outcome

/-! ## Reading registers -/

/-- The world owns every chain in the registers. -/
def World.CoversRegisters (W : World) (rs : Registers) : Prop :=
  ∀ entry ∈ rs.entries, W.CoversRegister entry.2

theorem World.CoversRegisters.mono {rs : Registers} (h : W.CoversRegisters rs)
    (he : W.Extends W') : W'.CoversRegisters rs := fun entry hentry => (h entry hentry).mono he

namespace Attempt

variable {rs : Registers} {name : String}

/-- Reading one thing and then another. -/
theorem ensures_read_bind {r : Except Fault α} {rest : α → Except Fault β}
    {mid : World → α → Prop} {post : World → β → Prop}
    (h : Ensures holds W (read r) mid)
    (hrest : ∀ W', W.Extends W' → ∀ x, mid W' x → Ensures holds W' (read (rest x)) post) :
    Ensures holds W (read (r >>= rest)) post := by
  have heq : (read (r >>= rest) : Attempt σ β) = read r >>= fun x => read (rest x) := by
    cases r <;> rfl
  rw [heq]
  exact h.bind hrest

theorem ensures_read_any (r : Except Fault α) :
    Ensures holds W (read r) fun _ _ => True := ensures_read fun _ _ => trivial

theorem ensures_get_register (hrs : W.CoversRegisters rs) :
    Ensures holds W (read (rs.get name)) fun W' r => W'.CoversRegister r := by
  refine ensures_read fun r hr => ?_
  unfold Registers.get at hr
  split at hr
  · rename_i found hfound
    cases hr
    obtain ⟨before, after, hentries, -⟩ := List.lookup_eq_some_iff.mp hfound
    exact hrs (name, _) (hentries ▸ List.mem_append_right before List.mem_cons_self)
  · cases hr

theorem ensures_chain (hrs : W.CoversRegisters rs) :
    Ensures holds W (read (rs.chain name)) fun W' p => W'.CoversChain p.1 p.2 := by
  refine ensures_read_bind (ensures_get_register hrs) fun W' _ r hr => ?_
  cases r with
  | chain k xs =>
    refine ensures_read fun p hp => ?_
    cases hp
    exact World.coversRegister_chain_iff.mp hr
  | draft d => exact ensures_read nofun

theorem ensures_closable (hrs : W.CoversRegisters rs) :
    Ensures holds W (read (rs.closable name)) fun W' p => W'.CoversChain p.1 p.2 := by
  refine ensures_read_bind (ensures_chain hrs) fun W' _ p hp => ensures_read fun q hq => ?_
  obtain ⟨k, xs⟩ := p
  dsimp only at hq
  split at hq
  · cases hq
    exact hp
  · cases hq

theorem ensures_ofKind (hrs : W.CoversRegisters rs) :
    Ensures holds W (read (rs.ofKind k name)) fun W' xs => W'.CoversChain k xs := by
  refine ensures_read_bind (ensures_chain hrs) fun W' _ p hp => ensures_read fun xs hxs => ?_
  obtain ⟨k', ys⟩ := p
  dsimp only at hxs
  split at hxs
  · rename_i hk
    subst hk
    cases hxs
    exact hp
  · cases hxs

theorem ensures_draft (hrs : W.CoversRegisters rs) :
    Ensures holds W (read (rs.draft name)) fun W' d => W'.CoversDraft .vals d := by
  refine ensures_read_bind (ensures_get_register hrs) fun W' _ r hr => ?_
  cases r with
  | chain k xs => exact ensures_read nofun
  | draft d =>
    refine ensures_read fun e he => ?_
    cases he
    exact World.coversRegister_draft_iff.mp hr

/-- The registers stay covered while several of them are read. -/
theorem ensures_ofKinds (hrs : W.CoversRegisters rs) (names : List String) :
    Ensures holds W (read (names.mapM (rs.ofKind k))) fun W' chains =>
      ∀ xs ∈ chains, W'.CoversChain k xs := by
  induction names generalizing W with
  | nil => exact ensures_pure (List.forall_mem_nil _)
  | cons name names ih =>
    rw [List.mapM_cons]
    refine ensures_read_bind (ensures_ofKind hrs) fun W' he xs hxs => ?_
    refine ensures_read_bind (ih (hrs.mono he)) fun W'' he' rest hrest => ?_
    exact ensures_pure (List.forall_mem_cons.mpr ⟨hxs.mono he', hrest⟩)

theorem ensures_alloc {make : Fresh α} {post : World → α → Prop} (h : Fresh.Makes W make post) :
    Ensures holds W (act (Act.alloc make)) post := ensures_act (Act.ensures_alloc h)

end Attempt

/-! ## The usual ends of commands -/

section Ends

open Outcome

variable {names : List String}

/-- What an action comes to is only shown. -/
theorem Attempt.ensures_shown {a : Act σ α} {mid : World → α → Prop} {shown : α → Json}
    (h : Act.Ensures holds W a mid) :
    Ensures holds W (act (do return Outcome.only (shown (← a))))
      fun W' o => Sound W' names o :=
  ensures_act (h.bind fun _ _ _ _ => Act.ensures_pure sound_only)

/-- The value to which an action comes is the outcome. -/
theorem Attempt.ensures_folded {a : Act σ Value}
    (h : Act.Ensures holds W a fun W' v => W'.Covers v) :
    Ensures holds W (act (do return Outcome.value (← a))) fun W' o => Sound W' names o :=
  ensures_act (h.bind fun _ _ _ hv => Act.ensures_pure (sound_value hv))

/-- The chain to which an action comes is the outcome. -/
theorem Attempt.ensures_answered {a : Act σ (Chain k.Elem)}
    (h : Act.Ensures holds W a fun W' ys => W'.CoversChain k ys) :
    Ensures holds W (act (do return Outcome.chain k (← a))) fun W' o => Sound W' names o :=
  ensures_act (h.bind fun _ _ _ hys => Act.ensures_pure (sound_chain hys))

/-- The chain that is made is the outcome. -/
theorem Attempt.ensures_made {make : Fresh (Chain k.Elem)}
    (h : Fresh.Makes W make fun W' ys => W'.CoversChain k ys) :
    Ensures holds W (do return Outcome.chain k (← (act (Act.alloc make) : Attempt σ _)))
      fun W' o => Sound W' names o :=
  (ensures_alloc h).bind fun _ _ _ hys => ensures_pure (sound_chain hys)

end Ends

/-! ## Written elements -/

theorem Fresh.makes_ofDatum (W : World) (d : Datum) :
    Makes W (Value.ofDatum d) fun W' v => W'.Covers v := by
  have honest : Honest (fun v w => w = v) (fun _ => False) (Value.ofDatum d) :=
    Value.ofDatum_honest d
  exact (honest.makes nofun).mono fun _ _ v hv => hv v rfl

theorem Fresh.makes_ofData (W : World) (ds : List Datum) :
    Makes W (Value.ofData [] ds) fun W' vs => ∀ v ∈ vs, W'.Covers v := by
  have honest : Honest (fun vs w => w ∈ vs) (fun _ => False) (Value.ofData [] ds) :=
    Value.ofData_honest ds (List.forall_mem_nil _)
  exact honest.makes nofun

/-- The element that a datum writes is covered. -/
theorem Fresh.makes_ofDatum? {d : Datum} {make : Fresh k.Elem} (h : k.ofDatum? d = some make)
    (W : World) : Makes W make fun W' x => W'.CoversElem k x := by
  unfold Kind.ofDatum? at h
  split at h
  · cases h
    exact makes_ofDatum W _
  · cases h
    refine (makes_ofDatum W _).bind fun W' _ x hx => ?_
    refine (makes_ofDatum W' _).bind fun W'' he y hy => makes_pure ?_
    exact World.coversElem_pairs_iff.mpr ⟨hx.mono he, hy⟩
  · cases h
    refine (makes_ofData W _).bind fun W' _ vs hvs => ?_
    rw [Chain.ofList_eq]
    refine (makes_prepend (k := .vals) hvs (W'.coversChain_empty .vals)).mono fun W'' _ ys hys => ?_
    exact World.coversElem_nested_iff.mpr hys
  · obtain ⟨x, -, rfl⟩ := Option.map_eq_some_iff.mp h
    exact makes_pure (W.coversElem_floats x)
  · cases h

theorem Creation.ensures_element (k : Kind) (d : Datum) :
    Attempt.Ensures holds W (element k d) fun W' x => W'.CoversElem k x := by
  unfold element
  split
  · rename_i make hmake
    exact Attempt.ensures_alloc (Fresh.makes_ofDatum? hmake W)
  · exact Attempt.ensures_throw

/-- Elements written one after the other. -/
theorem Creation.ensures_elements (k : Kind) (data : List Datum) :
    Attempt.Ensures holds W (data.mapM (element k)) fun W' xs => ∀ x ∈ xs, W'.CoversElem k x :=
  Attempt.ensures_mapM (fun _ _ _ he hx => World.CoversElem.mono hx he)
    fun _ _ d _ => ensures_element k d

end SharedList
