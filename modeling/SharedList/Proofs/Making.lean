import SharedList.Chain.Map
import SharedList.Chain.Shuffle
import SharedList.Proofs.Ensures
import SharedList.Proofs.Joining
import SharedList.Proofs.MergeSort
import SharedList.Proofs.Sources

/-!
# What operations make

Whatever an operation makes from covered chains and elements is covered by the world to which it
comes.  Each operation takes its elements from its operands and puts them in front of a chain that
it keeps, so `Fresh.makes_prepend` says it for all of them.

* `makes_freezeOnto`, `makes_stack` — what a draft or a row of elements comes to.
* `makes_append`, `makes_appendAll`, `makes_flatten`, `makes_reverseAppend` — joining.
* `makes_take?`, `makes_splitAt?`, `makes_zip`, `makes_unzip` — cutting and pairing.
* `makes_sortBy`, `makes_shuffle` — rearranging, which adds no element.
* `makes_ofSource`, `makes_decode` — reading.
-/

set_option autoImplicit false

namespace SharedList

variable {α β : Type}

/-! ## Which elements a chain is made of -/

namespace Chain

/-- Drafting the answers of a function without effects is mapping it. -/
theorem foldlM_push (xs : List α) (f : α → β) (d : Draft β) :
    Id.run (xs.foldlM (fun (d : Draft β) x => return d.push (f x)) d) = d.extend (xs.map f) := by
  induction xs generalizing d with
  | nil => rfl
  | cons x xs ih => exact ih (d.push (f x))

theorem zip_eq (xs : Chain α) (ys : Chain β) :
    xs.zip ys = prepend (xs.toList.zip ys.toList) empty := by
  have hdraft := foldlM_push (xs.toList.zip ys.toList) id
    (.withCapacity (min xs.length ys.length))
  show (Id.run ((xs.toList.zip ys.toList).foldlM
    (fun (d : Draft (α × β)) pair => return d.push (id pair))
    (.withCapacity (min xs.length ys.length)))).freeze = _
  rw [hdraft, freeze_eq, Draft.toList_extend, List.map_id]
  rfl

/-- Drafting the components of pairs side by side is drafting each row of them. -/
theorem foldl_push_components (pairs : List (α × β)) (firsts : Draft α) (seconds : Draft β) :
    pairs.foldl (fun (drafts : Draft α × Draft β) pair =>
      (drafts.1.push pair.1, drafts.2.push pair.2)) (firsts, seconds) =
      (firsts.extend (pairs.map (·.1)), seconds.extend (pairs.map (·.2))) := by
  induction pairs generalizing firsts seconds with
  | nil => rfl
  | cons pair pairs ih => exact ih (firsts.push pair.1) (seconds.push pair.2)

theorem unzip_eq (xs : Chain (α × β)) :
    xs.unzip = do
      return (← prepend (xs.toList.map (·.1)) empty, ← prepend (xs.toList.map (·.2)) empty) := by
  have hdrafts := foldl_push_components xs.toList (.withCapacity xs.length)
    (.withCapacity xs.length)
  let drafts : Draft α × Draft β := xs.toList.foldl (fun drafts pair =>
    (drafts.1.push pair.1, drafts.2.push pair.2)) (.withCapacity xs.length, .withCapacity xs.length)
  show ((do return (← drafts.1.freeze, ← drafts.2.freeze)) : Fresh (Chain α × Chain β)) = _
  rw [show drafts = _ from hdrafts]
  simp only [freeze_eq, Draft.toList_extend, Draft.toList_withCapacity, List.nil_append]

theorem shuffle_eq (xs : Chain α) (words : WordStream) :
    (xs.shuffle words).value.chain =
      prepend (applySwaps (swapIndices words xs.toList.toArray.size).1 xs.toList.toArray).toList
        empty :=
  ofArray_eq (applySwaps _ xs.toList.toArray)

theorem reverse_eq (xs : Chain α) : xs.reverse = prepend xs.toList.reverse empty := by
  rw [reverse, reverseAppend, stack_eq]

theorem toList_reverse (xs : Chain α) (next : Label) :
    (xs.reverse next).1.toList = xs.toList.reverse := by
  rw [reverse_eq, toList_prepend_empty]

end Chain

/-- Exchanging elements neither adds nor removes any. -/
theorem applySwaps_perm (indices : List Nat) (xs : Array α) : (applySwaps indices xs).Perm xs := by
  unfold applySwaps
  generalize indices.zipIdx = swaps
  induction swaps generalizing xs with
  | nil => exact .refl xs
  | cons swap swaps ih =>
    refine (ih _).trans ?_
    show (xs.swapIfInBounds swap.2 swap.1).Perm xs
    rw [Array.swapIfInBounds_def]
    split
    · split
      · exact Array.swap_perm _ _
      · exact .refl xs
    · exact .refl xs

/-! ## Which items a pair is decoded from -/

/-- A pair is decoded from a sequence of two, of which each is decoded. -/
theorem Serial.decodePair_eq_ok {first : Decoder α} {second : Decoder β} {s : Serial}
    {make : Fresh (α × β)} (h : decodePair first second s = .ok make) :
    ∃ announced a b makeFirst makeSecond, s = .seq announced [a, b] ∧ first a = .ok makeFirst ∧
      second b = .ok makeSecond ∧ make = do return (← makeFirst, ← makeSecond) := by
  unfold decodePair at h
  split at h
  · rename_i announced items
    cases items with
    | nil => cases h
    | cons a rest =>
      cases ha : first a with
      | error e =>
        simp only [ha] at h
        cases h
      | ok makeFirst =>
        simp only [ha] at h
        cases rest with
        | nil => cases h
        | cons b rest =>
          cases hb : second b with
          | error e =>
            simp only [hb] at h
            cases h
          | ok makeSecond =>
            simp only [hb] at h
            cases rest with
            | nil =>
              cases h
              exact ⟨announced, a, b, makeFirst, makeSecond, rfl, ha, hb, rfl⟩
            | cons c rest => cases h
  · cases h

/-! ## Drafts -/

namespace Fresh

variable {W : World} {k : Kind}

theorem makes_freezeOnto {d : Draft k.Elem} {tail : Chain k.Elem} (hd : W.CoversDraft k d)
    (htail : W.CoversChain k tail) :
    Makes W (d.freezeOnto tail) fun W' ys => W'.CoversChain k ys := by
  rw [Chain.freezeOnto_eq]
  exact makes_prepend hd htail

theorem makes_freeze {d : Draft k.Elem} (hd : W.CoversDraft k d) :
    Makes W d.freeze fun W' ys => W'.CoversChain k ys :=
  makes_freezeOnto hd (W.coversChain_empty k)

theorem makes_stack {xs : List k.Elem} {onto : Chain k.Elem} (hxs : ∀ x ∈ xs, W.CoversElem k x)
    (honto : W.CoversChain k onto) :
    Makes W (Chain.stack xs onto) fun W' ys => W'.CoversChain k ys := by
  rw [Chain.stack_eq]
  exact makes_prepend (fun x hx => hxs x (List.mem_reverse.mp hx)) honto

/-! ## Joining -/

variable {xs ys : Chain k.Elem}

theorem makes_append (hxs : W.CoversChain k xs) (hys : W.CoversChain k ys) :
    Makes W (xs.append ys) fun W' zs => W'.CoversChain k zs := by
  cases hx : xs.isEmpty with
  | true =>
    rw [Chain.append_of_isEmpty_left ys hx]
    exact makes_pure hys
  | false =>
    cases hy : ys.isEmpty with
    | true =>
      rw [Chain.append_of_isEmpty_right hx hy]
      exact makes_pure hxs
    | false =>
      rw [Chain.append_eq hx hy]
      exact makes_prepend hxs.2 hys

theorem makes_appendAll {chains : List (Chain k.Elem)} (h : ∀ xs ∈ chains, W.CoversChain k xs) :
    Makes W (Chain.appendAll chains) fun W' zs => W'.CoversChain k zs := by
  induction chains with
  | nil => exact makes_pure (W.coversChain_empty k)
  | cons xs chains ih =>
    obtain ⟨hxs, hrest⟩ := List.forall_mem_cons.mp h
    cases chains with
    | nil => exact makes_pure hxs
    | cons ys chains =>
      rw [Chain.appendAll_cons (List.cons_ne_nil ys chains)]
      exact (ih hrest).bind fun W' he zs hzs => makes_append (hxs.mono he) hzs

theorem makes_reverseAppend (hxs : W.CoversChain k xs) (hys : W.CoversChain k ys) :
    Makes W (xs.reverseAppend ys) fun W' zs => W'.CoversChain k zs := makes_stack hxs.2 hys

/-- While chains are passed, what was copied stays covered, and so does the chain held back. -/
theorem covers_pass {j : Chain.Joining k.Elem}
    (hj : W.CoversDraft k j.copied ∧ ∀ last, j.latest = some last → W.CoversChain k last)
    (hxs : W.CoversChain k xs) :
    W.CoversDraft k (j.pass xs).copied ∧
      ∀ last, (j.pass xs).latest = some last → W.CoversChain k last := by
  unfold Chain.Joining.pass
  split
  · exact hj
  · split
    · refine ⟨hj.1, fun last hlast => ?_⟩
      cases hlast
      exact hxs
    · rename_i previous hprevious
      refine ⟨hj.1.extend (hj.2 previous hprevious).2, fun last hlast => ?_⟩
      cases hlast
      exact hxs

theorem makes_flatten {chains : Chain (Chain Value)} (h : W.CoversChain .nested chains) :
    Makes W chains.flatten fun W' zs => W'.CoversChain .vals zs := by
  have hpassed := List.foldlRecOn (motive := fun j : Chain.Joining Value =>
      W.CoversDraft .vals j.copied ∧ ∀ last, j.latest = some last → W.CoversChain .vals last)
    chains.toList Chain.Joining.pass (b := ⟨.empty, none⟩) ⟨W.coversDraft_empty .vals, nofun⟩
    fun j hj xs hxs => covers_pass (k := .vals) hj (World.coversElem_nested_iff.mp (h.2 xs hxs))
  obtain ⟨hcopied, hlatest⟩ := hpassed
  unfold Chain.flatten
  dsimp only
  split
  · exact makes_pure (W.coversChain_empty .vals)
  · rename_i last hlast
    exact makes_freezeOnto (k := .vals) hcopied (hlatest last hlast)

/-! ## Cutting and pairing -/

theorem makes_take? {front : Fresh (Chain k.Elem)} {count : Nat} (hxs : W.CoversChain k xs)
    (h : xs.take? count = some front) : Makes W front fun W' ys => W'.CoversChain k ys := by
  obtain rfl := Chain.take?_eq_some h
  exact makes_prepend (fun x hx => hxs.2 x (List.mem_of_mem_take hx)) (W.coversChain_empty k)

theorem makes_splitAt? {parts : Fresh (Chain k.Elem × Chain k.Elem)} {index : Nat}
    (hxs : W.CoversChain k xs) (h : xs.splitAt? index = some parts) :
    Makes W parts fun W' p => W'.CoversChain k p.1 ∧ W'.CoversChain k p.2 := by
  obtain ⟨front, hfront, rfl⟩ := Option.map_eq_some_iff.mp h
  refine (makes_take? hxs hfront).bind fun W' he ys hys => makes_pure ⟨hys, ?_⟩
  exact (hxs.suffix index).mono he

theorem makes_zip {xs ys : Chain Value} (hxs : W.CoversChain .vals xs)
    (hys : W.CoversChain .vals ys) :
    Makes W (xs.zip ys) fun W' zs => W'.CoversChain .pairs zs := by
  rw [Chain.zip_eq]
  refine makes_prepend (k := .pairs) (fun pair hpair => ?_) (W.coversChain_empty .pairs)
  obtain ⟨hfst, hsnd⟩ := List.of_mem_zip (a := pair.1) (b := pair.2) hpair
  exact World.coversElem_pairs_iff.mpr ⟨hxs.2 _ hfst, hys.2 _ hsnd⟩

theorem makes_unzip {xs : Chain (Value × Value)} (hxs : W.CoversChain .pairs xs) :
    Makes W xs.unzip fun W' p => W'.CoversChain .vals p.1 ∧ W'.CoversChain .vals p.2 := by
  have hfirsts : ∀ x ∈ xs.toList.map (·.1), W.CoversElem .vals x := by
    intro x hx
    obtain ⟨pair, hpair, rfl⟩ := List.mem_map.mp hx
    exact (World.coversElem_pairs_iff.mp (hxs.2 pair hpair)).1
  have hseconds : ∀ x ∈ xs.toList.map (·.2), W.CoversElem .vals x := by
    intro x hx
    obtain ⟨pair, hpair, rfl⟩ := List.mem_map.mp hx
    exact (World.coversElem_pairs_iff.mp (hxs.2 pair hpair)).2
  rw [Chain.unzip_eq]
  refine (makes_prepend (k := .vals) hfirsts (W.coversChain_empty .vals)).bind
    fun W' he ys hys => ?_
  refine (makes_prepend (k := .vals) (he.row (k := .vals) hseconds)
    (W'.coversChain_empty .vals)).bind fun W'' he' zs hzs => ?_
  exact makes_pure ⟨hys.mono he', hzs⟩

/-! ## Rearranging -/

theorem makes_sortBy {cmp : k.Elem → k.Elem → Ordering} (hxs : W.CoversChain k xs) :
    Makes W (xs.sortBy cmp).value fun W' ys => W'.CoversChain k ys := by
  rw [Chain.sortBy_eq]
  exact makes_prepend (fun x hx => hxs.2 x (List.mem_mergeSort.mp hx)) (W.coversChain_empty k)

theorem makes_shuffle (hxs : W.CoversChain k xs) (words : WordStream) :
    Makes W (xs.shuffle words).value.chain fun W' ys => W'.CoversChain k ys := by
  rw [Chain.shuffle_eq]
  refine makes_prepend (fun x hx => hxs.2 x ?_) (W.coversChain_empty k)
  exact (applySwaps_perm _ xs.toList.toArray).toList.mem_iff.mp hx

/-! ## Reading -/

/-- What is drafted from a source is delivered by it. -/
theorem mem_intake {ε : Type} {s : Source ε α} {d : Draft α} (h : s.intake.result = .ok d) :
    ∀ x ∈ d.toList, .ok x ∈ s.deliveries := by
  obtain ⟨xs, stop, rest, hstops⟩ := s.exists_stops
  unfold Source.Intake.result at h
  cases hstop : s.intake.stop with
  | error e => rw [hstop] at h; cases h
  | ok _ =>
    rw [hstop] at h
    cases h
    rw [Source.toList_intake_of_stops hstops]
    exact hstops.mem_deliveries

/-- What is read into a chain is drafted and frozen. -/
theorem ofSource_eq_ok {ε : Type} {s : Source ε α} {make : Fresh (Chain α)}
    (h : Chain.ofSource s = .ok make) :
    ∃ d : Draft α, (∀ x ∈ d.toList, .ok x ∈ s.deliveries) ∧ make = d.freeze := by
  unfold Chain.ofSource at h
  cases hdraft : s.intake.result with
  | error e => rw [hdraft] at h; cases h
  | ok d =>
    rw [hdraft] at h
    cases h
    exact ⟨d, mem_intake hdraft, rfl⟩

theorem makes_ofSource {ε : Type} {s : Source ε k.Elem} {make : Fresh (Chain k.Elem)}
    (hs : ∀ x, .ok x ∈ s.deliveries → W.CoversElem k x) (h : Chain.ofSource s = .ok make) :
    Makes W make fun W' ys => W'.CoversChain k ys := by
  obtain ⟨d, hd, rfl⟩ := ofSource_eq_ok h
  exact makes_freeze fun x hx => hs x (hd x hx)

/-- Elements that are yet to be made are made one after the other. -/
theorem makes_mapM {makes : List (Fresh k.Elem)}
    (h : ∀ make ∈ makes, ∀ W', W.Extends W' → Makes W' make fun W'' x => W''.CoversElem k x) :
    Makes W (makes.mapM id) fun W' xs => ∀ x ∈ xs, W'.CoversElem k x := by
  induction makes generalizing W with
  | nil => exact makes_pure (List.forall_mem_nil _)
  | cons make makes ih =>
    rw [List.mapM_cons]
    refine (h make List.mem_cons_self W (.refl W)).bind fun W' he x hx => ?_
    have hrest := ih fun make hmake W'' he' =>
      h make (List.mem_cons_of_mem _ hmake) W'' (he.trans he')
    refine hrest.bind fun W'' he' xs hxs => makes_pure ?_
    exact List.forall_mem_cons.mpr ⟨hx.mono he', hxs⟩

theorem makes_make {d : Draft (Fresh k.Elem)}
    (h : ∀ make ∈ d.toList, ∀ W', W.Extends W' → Makes W' make fun W'' x => W''.CoversElem k x) :
    Makes W d.make fun W' made => W'.CoversDraft k made := by
  unfold Draft.make
  rw [Array.mapM_eq_mapM_toList, map_eq_pure_bind, bind_assoc]
  exact (makes_mapM h).bind fun W' _ xs hxs => makes_pure hxs

/-- Whatever is decoded is, once it is made, a covered element. -/
def Decodes (k : Kind) (decode : Decoder k.Elem) : Prop :=
  ∀ s make, decode s = .ok make → ∀ W, Makes W make fun W' x => W'.CoversElem k x

/-- What is decoded into a chain is drafted as elements that are yet to be made, which are made
before the draft is frozen. -/
theorem decode_eq_ok {element : Decoder α} {s : Serial} {make : Fresh (Chain α)}
    (h : Chain.decode element s = .ok make) :
    ∃ d : Draft (Fresh α), (∀ made ∈ d.toList, ∃ item, element item = .ok made) ∧
      make = d.make >>= Draft.freeze := by
  unfold Chain.decode at h
  split at h
  · rename_i announced items
    cases hdraft : (Source.intake ⟨announced, items.map element⟩).result with
    | error e => rw [hdraft] at h; cases h
    | ok d =>
      rw [hdraft] at h
      cases h
      refine ⟨d, fun made hmade => ?_, by simp⟩
      obtain ⟨item, -, hitem⟩ := List.mem_map.mp (mem_intake hdraft made hmade)
      exact ⟨item, hitem⟩
  · cases h

/-- The chain decoded from elements that are decoded so. -/
theorem makes_decode {element : Decoder k.Elem} (h : Decodes k element) {s : Serial}
    {make : Fresh (Chain k.Elem)} (hs : Chain.decode element s = .ok make) (W : World) :
    Makes W make fun W' ys => W'.CoversChain k ys := by
  obtain ⟨d, hd, rfl⟩ := decode_eq_ok hs
  refine (makes_make fun made hmade W' _ => ?_).bind fun W' _ made hmade => makes_freeze hmade
  obtain ⟨item, hitem⟩ := hd made hmade
  exact h item made hitem W'

theorem decodes_pair {first second : Decoder Value} (hfirst : Decodes .vals first)
    (hsecond : Decodes .vals second) : Decodes .pairs (Serial.decodePair first second) := by
  intro s make hs W
  obtain ⟨announced, a, b, makeFirst, makeSecond, -, ha, hb, rfl⟩ := Serial.decodePair_eq_ok hs
  refine (hfirst a makeFirst ha W).bind fun W' he x hx => ?_
  refine (hsecond b makeSecond hb W').bind fun W'' he' y hy => makes_pure ?_
  exact World.coversElem_pairs_iff.mpr ⟨World.Covers.mono hx he', hy⟩

end Fresh

end SharedList
