import Mathlib.Logic.Function.Basic
import SharedList.Proofs.Nesting
import SharedList.Session.Register

/-!
# Worlds: what every label stands for

A **world** says, for every label handed out so far, which cells come from the cell of that label
on.  A chain that agrees with a world is well formed, and two chains that agree with one world and
meet in a cell are equal from there on; so that an invariant about all pairs of chains becomes one
about each chain alone.

* `Kind.Holds`, `Register.Holds` — a chain occurs in an element of a kind, or is in a register.
* `World.Owns` — a chain counts its cells right and agrees with the world from each cell on.
* `World.Covers`, `CoversElem`, `CoversChain`, `CoversRegister` — so do all chains inside.
* `World.Extends` — a later world, which has more labels and says the same of the old ones.
* `Fresh.Makes` — from one world a computation comes to a later one, in which its result is as
  said; `Fresh.makes_cons` is the one step at which cells are made.
* `World.Owns.wellFormed`, `World.Owns.cells_eq` — what agreement is good for.
-/

set_option autoImplicit false

namespace SharedList

/-! ## Which chains there are -/

/-- The chain occurs in the element, at whatever depth. -/
def Kind.Holds : (k : Kind) → k.Elem → Chain Value → Prop
  | vals, (v : Value), xs => v.Holds xs
  | pairs, (p : Value × Value), xs => p.1.Holds xs ∨ p.2.Holds xs
  | nested, (ys : Chain Value), xs => (Value.list ys).Holds xs
  | floats, _, _ => False

/-- The chain is in the register: it is the content, or it occurs in one of the elements. -/
inductive Register.Holds : Register → (k : Kind) → Chain k.Elem → Prop
  | content {k : Kind} (xs : Chain k.Elem) : Holds (.chain k xs) k xs
  | element {k : Kind} {xs : Chain k.Elem} {x : k.Elem} {ys : Chain Value} :
      x ∈ xs.toList → k.Holds x ys → Holds (.chain k xs) .vals ys
  | drafted {d : Draft Value} {x : Value} {ys : Chain Value} :
      x ∈ d.toList → x.Holds ys → Holds (.draft d) .vals ys

/-! ## Worlds -/

/-- The next unused label, and for each kind and label the cells from that label's cell on. -/
structure World where
  next : Label
  cellsFrom : (k : Kind) → Label → List (Cell k.Elem)

namespace World

/-- Every cell has a label in use, and the cells from there on are those the world knows. -/
def Roots (W : World) (k : Kind) (cells : List (Cell k.Elem)) : Prop :=
  ∀ cell rest, cell :: rest <:+ cells →
    cell.label < W.next ∧ W.cellsFrom k cell.label = cell :: rest

/-- The chain counts its cells right, and the world knows them. -/
def Owns (W : World) (k : Kind) (xs : Chain k.Elem) : Prop :=
  xs.length = xs.cells.length ∧ W.Roots k xs.cells

/-- The world owns every chain in the value. -/
def Covers (W : World) (v : Value) : Prop := ∀ xs, v.Holds xs → W.Owns .vals xs

/-- The world owns every chain in the element. -/
def CoversElem (W : World) (k : Kind) (x : k.Elem) : Prop := ∀ xs, k.Holds x xs → W.Owns .vals xs

/-- The world owns the chain and every chain in its elements. -/
def CoversChain (W : World) (k : Kind) (xs : Chain k.Elem) : Prop :=
  W.Owns k xs ∧ ∀ x ∈ xs.toList, W.CoversElem k x

/-- The world owns every chain in the register. -/
def CoversRegister (W : World) (r : Register) : Prop := ∀ k xs, r.Holds k xs → W.Owns k xs

/-- A later world. -/
structure Extends (W W' : World) : Prop where
  next_le : W.next ≤ W'.next
  agree : ∀ k label, label < W.next → W'.cellsFrom k label = W.cellsFrom k label

theorem Extends.refl (W : World) : W.Extends W := ⟨Nat.le_refl _, fun _ _ _ => rfl⟩

theorem Extends.trans {W W' W'' : World} (h : W.Extends W') (h' : W'.Extends W'') :
    W.Extends W'' := by
  refine ⟨Nat.le_trans h.next_le h'.next_le, fun k label hlt => ?_⟩
  rw [h'.agree k label (Nat.lt_of_lt_of_le hlt h.next_le), h.agree k label hlt]

variable {W W' : World} {k : Kind}

/-! ## Owning cells -/

theorem roots_nil (W : World) (k : Kind) : W.Roots k [] := by
  intro cell rest h
  cases List.suffix_nil.mp h

theorem roots_cons_iff {cell : Cell k.Elem} {rest : List (Cell k.Elem)} :
    W.Roots k (cell :: rest) ↔
      (cell.label < W.next ∧ W.cellsFrom k cell.label = cell :: rest) ∧ W.Roots k rest := by
  constructor
  · intro h
    exact ⟨h cell rest (List.suffix_refl _),
      fun c r hr => h c r (hr.trans (List.suffix_cons cell rest))⟩
  · rintro ⟨hhead, hrest⟩ c r hr
    rcases List.suffix_cons_iff.mp hr with heq | hr
    · cases heq
      exact hhead
    · exact hrest c r hr

theorem Roots.suffix {cells rest : List (Cell k.Elem)} (h : W.Roots k cells)
    (hrest : rest <:+ cells) : W.Roots k rest := fun c r hr => h c r (hr.trans hrest)

theorem Roots.mono {cells : List (Cell k.Elem)} (h : W.Roots k cells) (he : W.Extends W') :
    W'.Roots k cells := by
  intro cell rest hr
  obtain ⟨hlt, hcells⟩ := h cell rest hr
  exact ⟨Nat.lt_of_lt_of_le hlt he.next_le, by rw [he.agree k cell.label hlt, hcells]⟩

theorem owns_empty (W : World) (k : Kind) : W.Owns k Chain.empty := ⟨rfl, W.roots_nil k⟩

theorem Owns.mono {xs : Chain k.Elem} (h : W.Owns k xs) (he : W.Extends W') : W'.Owns k xs :=
  ⟨h.1, h.2.mono he⟩

theorem Owns.suffix {xs : Chain k.Elem} (h : W.Owns k xs) (count : Nat) :
    W.Owns k (xs.suffix count) := by
  refine ⟨?_, h.2.suffix (List.drop_suffix count xs.cells)⟩
  rw [Chain.suffix, List.length_drop, h.1]

/-- In an owned chain no cell is met twice: the cells from each one on are of different numbers. -/
theorem Owns.wellFormed {xs : Chain k.Elem} (h : W.Owns k xs) : xs.WellFormed := by
  obtain ⟨hlen, hroots⟩ := h
  refine ⟨hlen, ?_⟩
  generalize xs.cells = cells at hroots
  induction cells with
  | nil => exact List.nodup_nil
  | cons cell rest ih =>
    obtain ⟨⟨-, hcell⟩, hrest⟩ := roots_cons_iff.mp hroots
    rw [List.map_cons, List.nodup_cons]
    refine ⟨fun hmem => ?_, ih hrest⟩
    obtain ⟨other, hother, hlabel⟩ := List.mem_map.mp hmem
    obtain ⟨before, after, rfl⟩ := List.append_of_mem hother
    have hafter := (hrest other after (List.suffix_append before _)).2
    rw [hlabel, hcell] at hafter
    have := congrArg List.length hafter
    simp at this
    omega

/-- Two owned chains that start at the same cell have all cells in common. -/
theorem Owns.cells_eq {xs ys : Chain k.Elem} (hx : W.Owns k xs) (hy : W.Owns k ys)
    (h : xs.same ys = true) : xs.cells = ys.cells := by
  unfold Chain.same at h
  split at h
  · rename_i hxs hys
    rw [hxs, hys]
  · rename_i x xrest y yrest hxs hys
    have hlabel : x.label = y.label := eq_of_beq h
    have hxc := (hx.2 x xrest (hxs ▸ List.suffix_refl _)).2
    have hyc := (hy.2 y yrest (hys ▸ List.suffix_refl _)).2
    rw [hxs, hys, ← hxc, ← hyc, hlabel]
  · cases h

/-! ## Covering values, elements and registers -/

theorem covers_bool (W : World) (b : Bool) : W.Covers (.bool b) := nofun

theorem covers_int (W : World) (n : Int64) : W.Covers (.int n) := nofun

theorem covers_str (W : World) (s : String) : W.Covers (.str s) := nofun

theorem covers_list_iff {xs : Chain Value} : W.Covers (.list xs) ↔ W.CoversChain .vals xs := by
  constructor
  · intro h
    exact ⟨h xs (.here xs), fun x hx ys hys => h ys (.deeper hx hys)⟩
  · rintro ⟨hself, helems⟩ ys hys
    rcases Value.holds_list_iff.mp hys with rfl | ⟨x, hx, hys⟩
    · exact hself
    · exact helems x hx ys hys

theorem coversElem_pairs_iff {p : Value × Value} :
    W.CoversElem .pairs p ↔ W.Covers p.1 ∧ W.Covers p.2 := by
  constructor
  · intro h
    exact ⟨fun xs hxs => h xs (.inl hxs), fun xs hxs => h xs (.inr hxs)⟩
  · rintro ⟨hfst, hsnd⟩ xs (hxs | hxs)
    · exact hfst xs hxs
    · exact hsnd xs hxs

theorem coversElem_nested_iff {xs : Chain Value} :
    W.CoversElem .nested xs ↔ W.CoversChain .vals xs := covers_list_iff

theorem coversElem_floats (W : World) (x : Double) : W.CoversElem .floats x := nofun

theorem Covers.mono {v : Value} (h : W.Covers v) (he : W.Extends W') : W'.Covers v :=
  fun xs hxs => (h xs hxs).mono he

theorem CoversElem.mono {x : k.Elem} (h : W.CoversElem k x) (he : W.Extends W') :
    W'.CoversElem k x := fun xs hxs => (h xs hxs).mono he

/-- A row of covered elements stays covered. -/
theorem Extends.row (he : W.Extends W') {row : List k.Elem} (h : ∀ x ∈ row, W.CoversElem k x) :
    ∀ x ∈ row, W'.CoversElem k x := fun x hx => (h x hx).mono he

theorem CoversChain.mono {xs : Chain k.Elem} (h : W.CoversChain k xs) (he : W.Extends W') :
    W'.CoversChain k xs := ⟨h.1.mono he, he.row h.2⟩

theorem CoversRegister.mono {r : Register} (h : W.CoversRegister r) (he : W.Extends W') :
    W'.CoversRegister r := fun k xs hxs => (h k xs hxs).mono he

theorem coversChain_empty (W : World) (k : Kind) : W.CoversChain k Chain.empty :=
  ⟨W.owns_empty k, fun _ h => absurd h List.not_mem_nil⟩

theorem CoversChain.suffix {xs : Chain k.Elem} (h : W.CoversChain k xs) (count : Nat) :
    W.CoversChain k (xs.suffix count) := by
  refine ⟨h.1.suffix count, fun x hx => h.2 x ?_⟩
  rw [Chain.toList_suffix] at hx
  exact List.mem_of_mem_drop hx

theorem coversRegister_chain_iff {xs : Chain k.Elem} :
    W.CoversRegister (.chain k xs) ↔ W.CoversChain k xs := by
  constructor
  · intro h
    exact ⟨h k xs (.content xs), fun x hx ys hys => h .vals ys (.element hx hys)⟩
  · rintro ⟨hself, helems⟩ k' ys hys
    cases hys with
    | content => exact hself
    | element hx hys => exact helems _ hx _ hys

theorem coversRegister_draft_iff {d : Draft Value} :
    W.CoversRegister (.draft d) ↔ ∀ x ∈ d.toList, W.Covers x := by
  constructor
  · intro h x hx ys hys
    exact h .vals ys (.drafted hx hys)
  · intro h k ys hys
    cases hys with
    | drafted hx hys => exact h _ hx _ hys

/-! ## Chains that occur inside -/

/-- The elements of a chain that occurs in a covered value are covered, too. -/
theorem Covers.chain {v : Value} {xs : Chain Value} (h : W.Covers v) (hxs : v.Holds xs) :
    W.CoversChain .vals xs := by
  induction hxs with
  | here xs => exact covers_list_iff.mp h
  | deeper hx _ ih => exact ih ((covers_list_iff.mp h).2 _ hx)

theorem CoversElem.chain {x : k.Elem} {xs : Chain Value} (h : W.CoversElem k x)
    (hxs : k.Holds x xs) : W.CoversChain .vals xs := by
  cases k with
  | vals => exact Covers.chain h hxs
  | pairs =>
    obtain ⟨hfst, hsnd⟩ := coversElem_pairs_iff.mp h
    exact hxs.elim hfst.chain hsnd.chain
  | nested => exact Covers.chain h hxs
  | floats => exact hxs.elim

theorem CoversRegister.chain {r : Register} {xs : Chain k.Elem} (h : W.CoversRegister r)
    (hxs : r.Holds k xs) : W.CoversChain k xs := by
  cases hxs with
  | content => exact coversRegister_chain_iff.mp h
  | element hx hys => exact ((coversRegister_chain_iff.mp h).2 _ hx).chain hys
  | drafted hx hys => exact (coversRegister_draft_iff.mp h _ hx).chain hys

/-! ## Making a cell -/

/-- The world in which the next label stands for `cells`. -/
def grow (W : World) (k : Kind) (cells : List (Cell k.Elem)) : World where
  next := W.next + 1
  cellsFrom := Function.update W.cellsFrom k (Function.update (W.cellsFrom k) W.next cells)

theorem extends_grow (W : World) (k : Kind) (cells : List (Cell k.Elem)) :
    W.Extends (W.grow k cells) := by
  refine ⟨Nat.le_succ _, fun k' label hlt => ?_⟩
  by_cases hk : k' = k
  · subst hk
    simp only [grow, Function.update_self]
    exact Function.update_of_ne (Nat.ne_of_lt hlt) _ _
  · simp only [grow]
    rw [Function.update_of_ne hk]

theorem cellsFrom_grow (W : World) (k : Kind) (cells : List (Cell k.Elem)) :
    (W.grow k cells).cellsFrom k W.next = cells := by
  simp [grow]

end World

/-! ## Computations that make cells -/

namespace Fresh

variable {α β : Type} {W W' : World} {k : Kind}

/-- Run with the world's next label, the computation comes to a later world, whose next label is
the one it hands on, and in which its result is as said. -/
def Makes (W : World) (make : Fresh α) (post : World → α → Prop) : Prop :=
  ∃ W', W.Extends W' ∧ W'.next = (make W.next).2 ∧ post W' (make W.next).1

theorem makes_pure {a : α} {post : World → α → Prop} (h : post W a) : Makes W (pure a) post :=
  ⟨W, .refl W, rfl, h⟩

theorem Makes.bind {make : Fresh α} {rest : α → Fresh β} {mid : World → α → Prop}
    {post : World → β → Prop} (h : Makes W make mid)
    (hrest : ∀ W', W.Extends W' → ∀ a, mid W' a → Makes W' (rest a) post) :
    Makes W (make >>= rest) post := by
  obtain ⟨W', he, hnext, hmid⟩ := h
  obtain ⟨W'', he', hnext', hpost⟩ := hrest W' he _ hmid
  rw [hnext] at hnext' hpost
  exact ⟨W'', he.trans he', hnext', hpost⟩

theorem Makes.mono {make : Fresh α} {post post' : World → α → Prop} (h : Makes W make post)
    (himp : ∀ W', W.Extends W' → ∀ a, post W' a → post' W' a) : Makes W make post' := by
  obtain ⟨W', he, hnext, hpost⟩ := h
  exact ⟨W', he, hnext, himp W' he _ hpost⟩

/-- A label drawn stands for no cells yet. -/
theorem makes_label (W : World) : Makes W label fun _ _ => True :=
  ⟨W.grow .vals [], W.extends_grow .vals [], rfl, trivial⟩

/-- A new cell in front of an owned chain. -/
theorem makes_cons {x : k.Elem} {xs : Chain k.Elem} (hx : W.CoversElem k x)
    (hxs : W.CoversChain k xs) : Makes W (xs.cons x) fun W' ys => W'.CoversChain k ys := by
  have he := W.extends_grow k (⟨W.next, x⟩ :: xs.cells)
  refine ⟨W.grow k (⟨W.next, x⟩ :: xs.cells), he, rfl, ⟨?_, ?_⟩, ?_⟩
  · exact congrArg (· + 1) hxs.1.1
  · exact World.roots_cons_iff.mpr ⟨⟨Nat.lt_succ_self _, W.cellsFrom_grow k _⟩, hxs.1.2.mono he⟩
  · intro y hy
    rcases List.mem_cons.mp hy with rfl | hy
    · exact hx.mono he
    · exact (hxs.2 y hy).mono he

/-- New cells in front of an owned chain. -/
theorem makes_prepend {xs : List k.Elem} {rest : Chain k.Elem} (hxs : ∀ x ∈ xs, W.CoversElem k x)
    (hrest : W.CoversChain k rest) :
    Makes W (Chain.prepend xs rest) fun W' ys => W'.CoversChain k ys := by
  induction xs with
  | nil => exact makes_pure hrest
  | cons x xs ih =>
    obtain ⟨hx, hxs⟩ := List.forall_mem_cons.mp hxs
    rw [Chain.prepend_cons]
    exact (ih hxs).bind fun W' he ys hys => makes_cons (hx.mono he) hys

end Fresh

end SharedList
