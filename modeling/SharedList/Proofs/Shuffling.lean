import Mathlib.Algebra.Group.End
import Mathlib.Logic.Equiv.Basic
import SharedList.Proofs.Building
import SharedList.Proofs.Freshness
import SharedList.Proofs.Rolling

/-!
# Shuffling rearranges positions

A shuffle exchanges the elements at two positions, again and again, and which positions is decided by
the words and the length alone.  So every shuffle is a permutation of positions; no position is ever
out of bounds; and every permutation of positions is the one of some shuffle.

* `exchange`, `arrangement` — one exchange, and exchanges one after the other, as permutations of the
  positions below `n`.
* `Rearranged` — one row holds the elements of another, rearranged by a permutation of positions.
* `exists_arrangement` — every permutation is made of exchanges of each position with one that is not
  after it.
* `swapIndices_notAfter`, `swapIndices_congr`, `exists_swapIndices` — which exchanges the words give.
* `Session.step_shuffle` — a shuffle changes no register but the one in which its result is stored.
* `Chain.shuffles_by_position` — every shuffle is decided by the words and the length.
* `Chain.shuffles_to_every_order` — every order is the result of a shuffle by finitely many words.
-/

set_option autoImplicit false

namespace SharedList

variable {α β σ : Type}

/-! ## Exchanges as permutations -/

/-- The exchange of two positions.  Where one of them is out of bounds nothing is exchanged. -/
def exchange (n i j : Nat) : Equiv.Perm (Fin n) :=
  if h : i < n ∧ j < n then Equiv.swap ⟨i, h.1⟩ ⟨j, h.2⟩ else 1

/-- The positions from which elements come, after each position in turn was exchanged with the one
given for it. -/
def arrangement (n : Nat) (indices : List Nat) : Equiv.Perm (Fin n) :=
  indices.zipIdx.foldl (fun τ p => τ * exchange n p.2 p.1) 1

/-- The second row holds at each position the element that the first one holds at the position to
which the permutation takes it. -/
structure Rearranged {n : Nat} (τ : Equiv.Perm (Fin n)) (xs ys : List α) : Prop where
  length_left : xs.length = n
  length_right : ys.length = n
  getElem?_eq : ∀ k : Fin n, ys[k.val]? = xs[(τ k).val]?

namespace Rearranged

variable {n : Nat} {τ : Equiv.Perm (Fin n)} {xs ys zs : List α}

theorem map (h : Rearranged τ xs ys) (f : α → β) : Rearranged τ (xs.map f) (ys.map f) := by
  refine ⟨?_, ?_, fun k => ?_⟩
  · rw [List.length_map, h.length_left]
  · rw [List.length_map, h.length_right]
  · rw [List.getElem?_map, List.getElem?_map, h.getElem?_eq k]

/-- The row and the permutation leave no choice. -/
theorem eq (hy : Rearranged τ xs ys) (hz : Rearranged τ xs zs) : ys = zs := by
  apply List.ext_getElem?
  intro k
  by_cases hk : k < n
  · rw [hy.getElem?_eq ⟨k, hk⟩, hz.getElem?_eq ⟨k, hk⟩]
  · have hys : ys.length ≤ k := by
      rw [hy.length_right]
      omega
    have hzs : zs.length ≤ k := by
      rw [hz.length_right]
      omega
    rw [List.getElem?_eq_none hys, List.getElem?_eq_none hzs]

end Rearranged

/-- One exchange in a row. -/
theorem getElem?_swapIfInBounds {n : Nat} {xs : Array α} (hxs : xs.size = n) (i j : Nat)
    (k : Fin n) : (xs.swapIfInBounds i j)[k.val]? = xs[(exchange n i j k).val]? := by
  rw [Array.swapIfInBounds_def]
  unfold exchange
  by_cases h : i < n ∧ j < n
  · have hi : i < xs.size := by omega
    have hj : j < xs.size := by omega
    rw [dif_pos hi, dif_pos hj, dif_pos h, Array.getElem?_swap, Equiv.swap_apply_def]
    by_cases hki : k.val = i
    · have hk : k = ⟨i, h.1⟩ := Fin.ext hki
      rw [if_pos hk, Array.getElem?_eq_getElem hj]
      split
      · rename_i hjk
        have hij : i = j := by omega
        subst hij
        rfl
      · rw [if_pos hki.symm]
    · have hk : k ≠ ⟨i, h.1⟩ := fun heq => hki (congrArg Fin.val heq)
      rw [if_neg hk]
      by_cases hkj : k.val = j
      · have hk' : k = ⟨j, h.2⟩ := Fin.ext hkj
        rw [if_pos hkj.symm, if_pos hk', Array.getElem?_eq_getElem hi]
      · have hk' : k ≠ ⟨j, h.2⟩ := fun heq => hkj (congrArg Fin.val heq)
        rw [if_neg (Ne.symm hkj), if_neg (Ne.symm hki), if_neg hk']
  · rw [dif_neg h]
    by_cases hi : i < xs.size
    · rw [dif_pos hi, dif_neg (by omega)]
      rfl
    · rw [dif_neg hi]
      rfl

/-- **All exchanges**: the row that they leave is the row rearranged. -/
theorem rearranged_applySwaps {n : Nat} {xs : Array α} (hxs : xs.size = n) (indices : List Nat) :
    Rearranged (arrangement n indices) xs.toList (applySwaps indices xs).toList := by
  -- The induction is on the exchanges that are left, from any row that is rearranged already.
  have hloop : ∀ (swaps : List (Nat × Nat)) (ys : Array α) (τ : Equiv.Perm (Fin n)),
      Rearranged τ xs.toList ys.toList →
        Rearranged (swaps.foldl (fun τ p => τ * exchange n p.2 p.1) τ) xs.toList
          (swaps.foldl (fun ys p => ys.swapIfInBounds p.2 p.1) ys).toList := by
    intro swaps
    induction swaps with
    | nil => exact fun ys τ h => h
    | cons swap swaps ih =>
      intro ys τ h
      have hys : ys.size = n := h.length_right
      rw [List.foldl_cons, List.foldl_cons]
      apply ih
      refine ⟨h.length_left, ?_, fun k => ?_⟩
      · rw [Array.length_toList, Array.size_swapIfInBounds, hys]
      · rw [Array.getElem?_toList, getElem?_swapIfInBounds hys, ← Array.getElem?_toList,
          h.getElem?_eq]
        rfl
  exact hloop indices.zipIdx xs 1 ⟨hxs, hxs, fun k => rfl⟩

/-- The exchange of two positions that have to be in bounds. -/
def checkedSwap (xs : Array α) (i j : Nat) : Option (Array α) :=
  if h : i < xs.size ∧ j < xs.size then some (xs.swap i j h.1 h.2) else none

/-- All exchanges; nothing if a position of one of them is out of bounds. -/
def checkedSwaps (indices : List Nat) (xs : Array α) : Option (Array α) :=
  indices.zipIdx.foldlM (fun xs p => checkedSwap xs p.2 p.1) xs

theorem checkedSwap_eq {xs : Array α} {i j : Nat} (hi : i < xs.size) (hj : j < xs.size) :
    checkedSwap xs i j = some (xs.swapIfInBounds i j) := by
  rw [checkedSwap, dif_pos ⟨hi, hj⟩, Array.swapIfInBounds_def, dif_pos hi, dif_pos hj]

/-- Where no index is beyond its position, and no position beyond the row, all are in bounds. -/
theorem checkedSwaps_eq {indices : List Nat} {xs : Array α} (hindices : Dice.NotAfter 0 indices)
    (hlength : indices.length ≤ xs.size) :
    checkedSwaps indices xs = some (applySwaps indices xs) := by
  have hloop : ∀ (swaps : List (Nat × Nat)) (ys : Array α),
      (∀ p ∈ swaps, p.1 ≤ p.2 ∧ p.2 < ys.size) →
        swaps.foldlM (fun ys p => checkedSwap ys p.2 p.1) ys =
          some (swaps.foldl (fun ys p => ys.swapIfInBounds p.2 p.1) ys) := by
    intro swaps
    induction swaps with
    | nil => exact fun ys _ => rfl
    | cons swap swaps ih =>
      intro ys hswaps
      obtain ⟨⟨hle, hlt⟩, hrest⟩ := List.forall_mem_cons.mp hswaps
      rw [List.foldlM_cons, checkedSwap_eq hlt (by omega), List.foldl_cons]
      apply ih
      simpa using hrest
  apply hloop
  intro p hp
  have hlt := List.snd_lt_of_mem_zipIdx hp
  exact ⟨hindices p hp, by omega⟩

/-! ## Every permutation is made of exchanges -/

theorem arrangement_concat (n : Nat) (indices : List Nat) (j : Nat) :
    arrangement n (indices ++ [j]) = arrangement n indices * exchange n indices.length j := by
  simp [arrangement, List.zipIdx_append]

theorem exchange_mul_self (n i j : Nat) : exchange n i j * exchange n i j = 1 := by
  unfold exchange
  split
  · exact Equiv.swap_mul_self _ _
  · exact mul_one 1

/-- Where a permutation moves no position beyond `count`, one exchange puts the element that belongs
there into position `count`, and what is left to do moves only positions below it. -/
theorem exists_last_exchange {n count : Nat} (hcount : count < n) (τ : Equiv.Perm (Fin n))
    (hτ : ∀ k : Fin n, count + 1 ≤ k.val → τ k = k) :
    ∃ j ≤ count, ∀ k : Fin n, count ≤ k.val → (τ * exchange n count j) k = k := by
  let last : Fin n := ⟨count, hcount⟩
  let j : Fin n := τ.symm last
  have hlast : τ j = last := τ.apply_symm_apply last
  have hj : j.val ≤ count := by
    by_contra hbeyond
    have hfixed : τ j = j := hτ j (by omega)
    rw [hlast] at hfixed
    rw [← hfixed] at hbeyond
    exact hbeyond (Nat.le_refl count)
  have hexchange : exchange n count j.val = Equiv.swap last j := by
    unfold exchange
    rw [dif_pos ⟨hcount, j.isLt⟩]
  refine ⟨j.val, hj, fun k hk => ?_⟩
  rw [hexchange, Equiv.Perm.mul_apply]
  by_cases hklast : k = last
  · rw [hklast, Equiv.swap_apply_left]
    exact hlast
  · have hbeyond : count + 1 ≤ k.val := by
      have hne : k.val ≠ count := fun heq => hklast (Fin.ext heq)
      omega
    have hkj : k ≠ j := by
      intro heq
      rw [heq] at hbeyond
      omega
    rw [Equiv.swap_apply_of_ne_of_ne hklast hkj]
    exact hτ k hbeyond

/-- A permutation that moves positions below `count` only is made of as many exchanges. -/
theorem exists_exchanges {n count : Nat} (hcount : count ≤ n) (τ : Equiv.Perm (Fin n))
    (hτ : ∀ k : Fin n, count ≤ k.val → τ k = k) :
    ∃ indices, indices.length = count ∧ Dice.NotAfter 0 indices ∧ arrangement n indices = τ := by
  induction count generalizing τ with
  | zero =>
    refine ⟨[], rfl, Dice.notAfter_nil 0, ?_⟩
    ext k
    rw [hτ k (Nat.zero_le _)]
    rfl
  | succ count ih =>
    obtain ⟨j, hj, hrest⟩ := exists_last_exchange hcount τ hτ
    obtain ⟨indices, hlength, hindices, harranged⟩ := ih (by omega) _ hrest
    refine ⟨indices ++ [j], by simp [hlength], ?_, ?_⟩
    · rw [Dice.notAfter_append_iff]
      exact ⟨hindices, Dice.notAfter_cons_iff.mpr ⟨by omega, Dice.notAfter_nil _⟩⟩
    · rw [arrangement_concat, hlength, harranged, mul_assoc, exchange_mul_self, mul_one]

/-- Every permutation is made of exchanges of each position with one that is not after it. -/
theorem exists_arrangement {n : Nat} (τ : Equiv.Perm (Fin n)) :
    ∃ indices, indices.length = n ∧ Dice.NotAfter 0 indices ∧ arrangement n indices = τ :=
  exists_exchanges (Nat.le_refl n) τ fun k hk => absurd k.isLt (Nat.not_lt.mpr hk)

/-! ## Which exchanges the words give -/

section Words

variable {words words' : WordStream} {n : Nat} {indices : List Nat} {d : Dice}

theorem swapIndices_of_le (words : WordStream) (hn : n ≤ 1) : swapIndices words n = ([], 0) := by
  rw [swapIndices, if_pos hn]

theorem swapIndices_of_yields (h : Dice.Yields words 0 .start indices d)
    (hlength : 1 < indices.length) : swapIndices words indices.length = (indices, d.drawn) := by
  rw [swapIndices, if_neg (by omega), h.rolls_eq]
  rfl

/-- What the words give for more than one position is rolled for one position after the other. -/
theorem exists_yields_swapIndices (words : WordStream) (hn : 1 < n) :
    ∃ indices d, indices.length = n ∧ Dice.Yields words 0 .start indices d ∧
      swapIndices words n = (indices, d.drawn) := by
  obtain ⟨indices, d, hlength, hyields⟩ := Dice.exists_yields words n 0 .start
  subst hlength
  exact ⟨indices, d, rfl, hyields, swapIndices_of_yields hyields hn⟩

theorem ready_start : Dice.start.Ready 0 := .inr ⟨Nat.one_pos, by decide⟩

/-- Every position is exchanged with one that is not after it. -/
theorem swapIndices_notAfter (words : WordStream) (hn : n < wordRange) :
    Dice.NotAfter 0 (swapIndices words n).1 := by
  rcases Nat.lt_or_ge 1 n with hmore | hle
  · obtain ⟨indices, d, hlength, hyields, heq⟩ := exists_yields_swapIndices words hmore
    rw [heq]
    exact hyields.notAfter ready_start (by omega)
  · rw [swapIndices_of_le words hle]
    exact Dice.notAfter_nil 0

theorem length_swapIndices (words : WordStream) (hn : 1 < n) :
    (swapIndices words n).1.length = n := by
  obtain ⟨indices, d, hlength, -, heq⟩ := exists_yields_swapIndices words hn
  rw [heq, hlength]

/-- Words that are not drawn do not matter. -/
theorem swapIndices_congr (h : ∀ k, k < (swapIndices words n).2 → words' k = words k) :
    swapIndices words' n = swapIndices words n := by
  rcases Nat.lt_or_ge 1 n with hmore | hle
  · obtain ⟨indices, d, hlength, hyields, heq⟩ := exists_yields_swapIndices words hmore
    rw [heq] at h ⊢
    have hyields' := hyields.congr fun k _ hk => h k hk
    subst hlength
    exact swapIndices_of_yields hyields' hmore
  · rw [swapIndices_of_le words' hle, swapIndices_of_le words hle]

/-- Every row of indices of which none is beyond its position is given by some words, which are all
drawn. -/
theorem exists_swapIndices (hindices : Dice.NotAfter 0 indices) (hmore : 1 < indices.length)
    (hlast : indices.length < wordRange) :
    ∃ ws : List UInt32, ∀ words : WordStream, words.Delivers 0 ws →
      swapIndices words indices.length = (indices, ws.length) := by
  cases indices with
  | nil => cases hmore
  | cons j rest =>
    obtain ⟨hj, hrest⟩ := Dice.notAfter_cons_iff.mp hindices
    obtain rfl : j = 0 := by omega
    rw [List.length_cons] at hlast
    obtain ⟨ws, hws⟩ := Dice.exists_words hrest (by omega)
    refine ⟨ws, fun words hwords => ?_⟩
    -- For the first position there is a chunk of zero before any word is drawn.
    obtain ⟨d, hyields, hdrawn⟩ := hws words ⟨0, 0, 0⟩ (fun _ => rfl) hwords
    have hstart : Dice.Yields words 0 .start (0 :: rest) d := .cons rfl hyields
    rw [swapIndices_of_yields hstart hmore, hdrawn]
    simp

end Words

/-! ## Shuffled chains -/

namespace Session

/-- A shuffle changes no register but the one in which its result is stored. -/
theorem step_shuffle {s : Session σ} {st : Step σ} {source : String} {ws : Array UInt32}
    (hst : st.command = .reshaping (.shuffleWith source ws)) {name : String}
    (hname : name ∉ st.writes) : (s.step st).2.registers.find? name = s.registers.find? name := by
  apply step_alters _ hname
  rw [hst]
  exact .bind fun ⟨k, xs⟩ => .bind fun ys => .pure nofun

end Session

namespace Chain

/-- A shuffle by the words rearranges the elements by a permutation of positions, into a chain that
counts them right, and draws so many words. -/
structure ShufflesBy {n : Nat} (words : WordStream) (τ : Equiv.Perm (Fin n)) (drawn : Nat)
    (xs : Chain α) : Prop where
  rearranged : ∀ next, Rearranged τ xs.toList ((xs.shuffle words).value.chain next).1.toList
  length_eq : ∀ next, ((xs.shuffle words).value.chain next).1.length = n
  drawn_eq : (xs.shuffle words).value.drawn = drawn

theorem shufflesBy_swapIndices {n : Nat} {xs : Chain α} (hxs : xs.toList.length = n)
    (words : WordStream) :
    xs.ShufflesBy words (arrangement n (swapIndices words n).1) (swapIndices words n).2 := by
  subst hxs
  have hsize : xs.toList.toArray.size = xs.toList.length := rfl
  have hrow := rearranged_applySwaps hsize (swapIndices words xs.toList.length).1
  refine ⟨fun next => ?_, fun next => ?_, rfl⟩
  · rw [shuffle_eq, toList_prepend_empty]
    exact hrow
  · rw [shuffle_eq, length_prepend_empty]
    exact hrow.length_right

/-- It makes no difference whether elements are mapped before a shuffle or after it. -/
theorem shuffle_map (xs : Chain α) (words : WordStream) (f : α → β) :
    let mapped := Id.run (xs.mapM fun x => pure (f x))
    Alike (mapped >>= fun ys => (ys.shuffle words).value.chain)
        ((xs.shuffle words).value.chain >>= fun ys => Id.run (ys.mapM fun x => pure (f x))) ∧
      ∀ next, ((mapped next).1.shuffle words).value.drawn = (xs.shuffle words).value.drawn := by
  intro mapped
  have hmapped : ∀ next, (mapped next).1.toList = xs.toList.map f := by
    intro next
    show (Id.run (xs.mapM fun x => pure (f x)) next).1.toList = _
    rw [mapM_pure, toList_ofList]
  have hlength : ∀ next, (mapped next).1.toList.length = xs.toList.length := by
    intro next
    rw [hmapped, List.length_map]
  have hplain := shufflesBy_swapIndices (rfl : xs.toList.length = _) words
  refine ⟨fun next next' => ?_, fun next => ?_⟩
  · have hbefore := (shufflesBy_swapIndices (hlength next) words).rearranged (mapped next).2
    have hafter := (hplain.rearranged next').map f
    rw [hmapped] at hbefore
    rw [Fresh.bind_apply, Fresh.bind_apply, mapM_pure, toList_ofList]
    exact hbefore.eq hafter
  · rw [(shufflesBy_swapIndices (hlength next) words).drawn_eq, hplain.drawn_eq]

/-- **A shuffle is decided by the words and the length.**  No exchange is out of bounds, as every
index is at most its position; up to one element no word is drawn; all chains of the length are
rearranged by one permutation, by as many words, and words that are not drawn do not matter; so it
makes no difference whether elements are mapped before or after; and what was there before stays. -/
theorem shuffles_by_position (words : WordStream) {n : Nat} (hn : n < wordRange - 1) :
    let indices := (swapIndices words n).1
    let drawn := (swapIndices words n).2
    -- Bounds
    (∀ p ∈ indices.zipIdx, p.1 ≤ p.2 ∧ p.2 < n) ∧
    (∀ (α : Type) (xs : Array α), xs.size = n →
      checkedSwaps indices xs = some (applySwaps indices xs)) ∧
    -- Words
    (n ≤ 1 → drawn = 0) ∧
    -- Positions
    (∀ words' : WordStream, (∀ k, k < drawn → words' k = words k) →
      ∀ (α : Type) (xs : Chain α), xs.WellFormed → xs.length = n →
        xs.ShufflesBy words' (arrangement n indices) drawn) ∧
    -- Elements
    (∀ (α β : Type) (xs : Chain α) (f : α → β),
      let mapped := Id.run (xs.mapM fun x => pure (f x))
      Alike (mapped >>= fun ys => (ys.shuffle words).value.chain)
          ((xs.shuffle words).value.chain >>= fun ys => Id.run (ys.mapM fun x => pure (f x))) ∧
        ∀ next, ((mapped next).1.shuffle words).value.drawn = (xs.shuffle words).value.drawn) ∧
    -- What was there before
    (∀ (α : Type) (xs : Chain α), MakesNew (xs.shuffle words).value.chain) ∧
    ∀ (σ : Type) (s : Session σ) (st : Step σ) (source : String) (ws : Array UInt32),
      st.command = .reshaping (.shuffleWith source ws) → ∀ name, name ∉ st.writes →
        (s.step st).2.registers.find? name = s.registers.find? name := by
  intro indices drawn
  have hlt : n < wordRange := by omega
  have hnot : Dice.NotAfter 0 indices := swapIndices_notAfter words hlt
  have hlength : indices.length ≤ n := by
    rcases Nat.lt_or_ge 1 n with hmore | hle
    · exact Nat.le_of_eq (length_swapIndices words hmore)
    · have hnone : indices = [] := congrArg Prod.fst (swapIndices_of_le words hle)
      simp [hnone]
  refine ⟨fun p hp => ⟨hnot p hp, ?_⟩, fun α xs hxs => ?_, fun hle => ?_,
    fun words' hwords α xs hxs hlen => ?_, fun α β xs f => xs.shuffle_map words f,
    fun α xs => makesNew_shuffle xs words, fun σ s st source ws hst name hname => ?_⟩
  · have hlast := List.snd_lt_of_mem_zipIdx hp
    omega
  · apply checkedSwaps_eq hnot
    omega
  · exact congrArg Prod.snd (swapIndices_of_le words hle)
  · have hshuffled := shufflesBy_swapIndices (hxs.toList_length.trans hlen) words'
    rwa [swapIndices_congr hwords] at hshuffled
  · exact Session.step_shuffle hst hname

/-- Two words are drawn for three elements, of which the second corrects the chunk. -/
theorem shuffles_by_position_with_correction :
    let words : WordStream := .cycle #[8, 4294967295]
    let xs : Chain Nat := ⟨[⟨2, 10⟩, ⟨1, 20⟩, ⟨0, 30⟩], 3⟩
    3 < wordRange - 1 ∧ xs.WellFormed ∧ swapIndices words 3 = ([0, 1, 0], 2) ∧
      xs.ShufflesBy words (arrangement 3 [0, 1, 0]) 2 ∧
      ((xs.shuffle words).value.chain 3).1.toList = [30, 20, 10] := by
  intro words xs
  have hlt : 3 < wordRange - 1 := by decide
  have hxs : xs.WellFormed := ⟨rfl, by decide⟩
  have hgiven : swapIndices words 3 = ([0, 1, 0], 2) := by cbv
  obtain ⟨-, -, -, hpositions, -⟩ := shuffles_by_position words hlt
  have hshuffled := hpositions words (fun _ _ => rfl) Nat xs hxs rfl
  rw [hgiven] at hshuffled
  have hreversed : Rearranged (arrangement 3 [0, 1, 0]) xs.toList [30, 20, 10] :=
    ⟨rfl, rfl, by decide⟩
  exact ⟨hlt, hxs, hgiven, hshuffled, (hshuffled.rearranged 3).eq hreversed⟩

/-- **Every order is the result of a shuffle.**  For every permutation of positions there are
finitely many words such that a shuffle by them, whatever words follow, draws them all and rearranges
every chain of the length by this permutation. -/
theorem shuffles_to_every_order {n : Nat} (hn : n < wordRange - 1) (τ : Equiv.Perm (Fin n)) :
    ∃ ws : List UInt32, ∀ words : WordStream, words.Delivers 0 ws →
      ∀ (α : Type) (xs : Chain α), xs.WellFormed → xs.length = n →
        xs.ShufflesBy words τ ws.length := by
  obtain ⟨indices, hlength, hnot, harranged⟩ := exists_arrangement τ
  have hgiven : ∃ ws : List UInt32, ∀ words : WordStream, words.Delivers 0 ws →
      arrangement n (swapIndices words n).1 = τ ∧ (swapIndices words n).2 = ws.length := by
    rcases Nat.lt_or_ge 1 n with hmore | hle
    · obtain ⟨ws, hws⟩ := exists_swapIndices hnot (by omega) (by omega)
      refine ⟨ws, fun words hwords => ?_⟩
      have hindices := hws words hwords
      rw [hlength] at hindices
      rw [hindices]
      exact ⟨harranged, rfl⟩
    · -- Up to one position there is one permutation, and no word is needed for it.
      refine ⟨[], fun words _ => ?_⟩
      rw [swapIndices_of_le words hle]
      have hone : Subsingleton (Fin n) := Fin.subsingleton_iff_le_one.mpr hle
      exact ⟨Subsingleton.elim _ _, rfl⟩
  obtain ⟨ws, hws⟩ := hgiven
  refine ⟨ws, fun words hwords α xs hxs hlen => ?_⟩
  obtain ⟨hτ, hdrawn⟩ := hws words hwords
  have hshuffled := shufflesBy_swapIndices (hxs.toList_length.trans hlen) words
  rwa [hτ, hdrawn] at hshuffled

/-- Some words, replayed as often as need be, bring the first of three elements behind the others. -/
theorem shuffles_to_first_last :
    let τ : Equiv.Perm (Fin 3) := Equiv.swap 0 1 * Equiv.swap 1 2
    let xs : Chain Nat := ⟨[⟨2, 10⟩, ⟨1, 20⟩, ⟨0, 30⟩], 3⟩
    3 < wordRange - 1 ∧ xs.WellFormed ∧ Rearranged τ xs.toList [20, 30, 10] ∧
      ∃ ws : List UInt32, (xs.shuffle (.cycle ws.toArray)).value.drawn = ws.length ∧
        ((xs.shuffle (.cycle ws.toArray)).value.chain 3).1.toList = [20, 30, 10] := by
  intro τ xs
  have hlt : 3 < wordRange - 1 := by decide
  have hxs : xs.WellFormed := ⟨rfl, by decide⟩
  obtain ⟨ws, hws⟩ := shuffles_to_every_order hlt τ
  have hshuffled := hws _ (WordStream.delivers_cycle ws) Nat xs hxs rfl
  have hrotated : Rearranged τ xs.toList [20, 30, 10] := ⟨rfl, rfl, by decide⟩
  exact ⟨hlt, hxs, hrotated, ws, hshuffled.drawn_eq, (hshuffled.rearranged 3).eq hrotated⟩

end Chain

end SharedList
