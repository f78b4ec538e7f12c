import SharedList.Proofs.Cutting
import SharedList.Proofs.Reversing

/-!
# Pairing chains up and taking pairs apart

Two chains are paired up as far as the shorter one goes, and pairs are taken apart into two drafts
that are filled side by side.  So two chains come back cut to their common length, while pairs come
back whole.  What else is done with two chains is what is done with the chain of their pairs.

* `Chain.unzip_zip` — the pairs of two chains, taken apart, are the fronts of both.
* `Chain.zip_unzip` — the components of pairs, paired up, are the pairs.
* `Chain.zipWithM_eq_mapM_zip`, `zipWithReverseM_alike` — asking about two chains, front to back or
  in reverse.
* `Chain.zip_append` — pairs of joined chains, if the first parts are of one length.
* `Chain.zips_agree` — all of this together.
-/

set_option autoImplicit false

namespace SharedList.Chain

variable {α β γ : Type}

/-! ## The components of pairs -/

section Components

variable (ps : Chain (α × β)) (next : Label)

/-- The second components are put into cells after the first ones. -/
theorem unzip_apply :
    let firsts := prepend (ps.toList.map (·.1)) empty next
    let seconds := prepend (ps.toList.map (·.2)) empty firsts.2
    (ps.unzip next).1 = (firsts.1, seconds.1) := by
  rw [unzip_eq]
  rfl

theorem toList_unzip :
    (ps.unzip next).1.1.toList = ps.toList.map (·.1) ∧
      (ps.unzip next).1.2.toList = ps.toList.map (·.2) := by
  rw [unzip_apply]
  exact ⟨toList_prepend_empty _ _, toList_prepend_empty _ _⟩

/-- The same of pairs that are still to be made. -/
theorem toList_bind_unzip (make : Fresh (Chain (α × β))) :
    ((Prod.fst <$> (make >>= unzip)) next).1.toList = (make next).1.toList.map (·.1) ∧
      ((Prod.snd <$> (make >>= unzip)) next).1.toList = (make next).1.toList.map (·.2) :=
  toList_unzip (make next).1 (make next).2

variable {ps} in
/-- Both drafts get one entry from each pair. -/
theorem length_unzip (hps : ps.WellFormed) :
    (ps.unzip next).1.1.length = ps.length ∧ (ps.unzip next).1.2.length = ps.length := by
  rw [unzip_apply]
  simp only [length_prepend_empty, List.length_map, hps.toList_length, and_self]

/-- **The components of pairs, paired up again, are the pairs.** -/
theorem zip_unzip : Alike (ps.unzip >>= fun parts => parts.1.zip parts.2) (pure ps) := by
  intro next next'
  obtain ⟨hfirsts, hseconds⟩ := ps.toList_unzip next
  rw [Fresh.bind_apply, toList_zip, hfirsts, hseconds]
  exact (List.zip_of_prod rfl rfl).symm

end Components

/-! ## The pairs of two chains -/

section Pairs

variable {xs : Chain α} {ys : Chain β}

/-- The rows that are paired up are the fronts of both rows. -/
theorem toList_zip_take (hxs : xs.WellFormed) (hys : ys.WellFormed) (next : Label) :
    (xs.zip ys next).1.toList =
      (xs.toList.take (min xs.length ys.length)).zip
        (ys.toList.take (min xs.length ys.length)) := by
  rw [toList_zip, List.zip_eq_zip_take_min, hxs.toList_length, hys.toList_length]

/-- **The pairs of two chains, taken apart, are the fronts of both**: nothing of either chain is
kept past the end of the other. -/
theorem unzip_zip (hxs : xs.WellFormed) (hys : ys.WellFormed) :
    ∃ front front', xs.take? (min xs.length ys.length) = some front ∧
      ys.take? (min xs.length ys.length) = some front' ∧
      Alike (Prod.fst <$> (xs.zip ys >>= unzip)) front ∧
      Alike (Prod.snd <$> (xs.zip ys >>= unzip)) front' := by
  have hle : min xs.length ys.length ≤ xs.length := Nat.min_le_left _ _
  have hle' : min xs.length ys.length ≤ ys.length := Nat.min_le_right _ _
  have hcommon := (length_take_toList hxs.length_eq hle).trans
    (length_take_toList hys.length_eq hle').symm
  refine ⟨_, _, take?_eq hle, take?_eq hle', fun next next' => ?_, fun next next' => ?_⟩
  · rw [(toList_bind_unzip next (xs.zip ys)).1, toList_zip_take hxs hys, toList_prepend_empty,
      List.map_fst_zip (Nat.le_of_eq hcommon)]
  · rw [(toList_bind_unzip next (xs.zip ys)).2, toList_zip_take hxs hys, toList_prepend_empty,
      List.map_snd_zip (Nat.le_of_eq hcommon.symm)]

/-- **Pairs of joined chains** are joined pairs if the first parts are of one length. -/
theorem zip_append (hxs : xs.WellFormed) (hys : ys.WellFormed) (hlength : xs.length = ys.length)
    (xs' : Chain α) (ys' : Chain β) :
    Alike (do (← xs.append xs').zip (← ys.append ys'))
      (do (← xs.zip ys).append (← xs'.zip ys')) := by
  have hrows : xs.toList.length = ys.toList.length := by
    rw [hxs.toList_length, hys.toList_length, hlength]
  intro next next'
  simp only [Fresh.bind_apply, toList_zip, toList_append, List.zip_append hrows]

end Pairs

/-! ## Asking about two chains -/

section Closures

variable (xs : Chain α) (ys : Chain β) {m : Type → Type} [Monad m] [LawfulMonad m]

/-- Asking about two chains is asking about the chain of their pairs: the same questions in the same
order, and the same chain made from the answers. -/
theorem zipWithM_eq_mapM_zip (f : α → β → m γ) (next : Label) :
    xs.zipWithM ys f = (xs.zip ys next).1.mapM fun p => f p.1 p.2 := by
  rw [(xs.callsEach_zipWithM ys).eq m fun p => f p.1 p.2, (xs.zip ys next).1.callsEach_mapM.eq,
    toList_zip]

/-- In reverse, the same questions are asked in the same order, and the answers reversed. -/
theorem zipWithReverseM_alike (f : α → β → m γ) (next next' : Label) :
    (fun make => (make next).1.toList) <$> xs.zipWithReverseM ys f =
      (fun make => ((make >>= reverse) next').1.toList) <$> xs.zipWithM ys f := by
  rw [(xs.callsEach_zipWithReverseM ys).eq m fun p => f p.1 p.2,
    (xs.callsEach_zipWithM ys).eq m fun p => f p.1 p.2, ← comp_map, ← comp_map]
  congr 1
  funext calls
  exact ofList_reverse (Call.answers calls) next next'

end Closures

/-! ## All of them -/

/-- **Pairing up and taking apart agree.**  The pairs of two chains are as many as the shorter chain
has elements, and taken apart they are the fronts of both chains; pairs that are taken apart give
two chains of their own length, and paired up again these are the pairs.  Whatever the closure does,
and so if it does nothing but answer, asking it about two chains is asking it about their pairs, and
asking in reverse is asking and then reversing.  And pairs of joined chains are joined pairs if the
first parts are of one length. -/
theorem zips_agree {xs : Chain α} {ys : Chain β} (hxs : xs.WellFormed) (hys : ys.WellFormed) :
    -- There and back
    (∀ next, (xs.zip ys next).1.length = min xs.length ys.length) ∧
    (∃ front front', xs.take? (min xs.length ys.length) = some front ∧
      ys.take? (min xs.length ys.length) = some front' ∧
      Alike (Prod.fst <$> (xs.zip ys >>= unzip)) front ∧
      Alike (Prod.snd <$> (xs.zip ys >>= unzip)) front') ∧
    (∀ ps : Chain (α × β), ps.WellFormed →
      (∀ next, (ps.unzip next).1.1.length = ps.length ∧
        (ps.unzip next).1.2.length = ps.length) ∧
      Alike (ps.unzip >>= fun parts => parts.1.zip parts.2) (pure ps)) ∧
    -- Asking about two chains
    (∀ (m : Type → Type) [Monad m] [LawfulMonad m] (γ : Type) (f : α → β → m γ) next next',
      xs.zipWithM ys f = (xs.zip ys next).1.mapM (fun p => f p.1 p.2) ∧
      (fun make => (make next).1.toList) <$> xs.zipWithReverseM ys f =
        (fun make => ((make >>= reverse) next').1.toList) <$> xs.zipWithM ys f) ∧
    -- Joined chains
    (xs.length = ys.length → ∀ xs' ys',
      Alike (do (← xs.append xs').zip (← ys.append ys'))
        (do (← xs.zip ys).append (← xs'.zip ys'))) := by
  refine ⟨length_zip hxs hys, unzip_zip hxs hys, fun ps hps => ⟨?_, ps.zip_unzip⟩, ?_,
    zip_append hxs hys⟩
  · intro next
    exact length_unzip next hps
  · intro m _ _ γ f next next'
    exact ⟨zipWithM_eq_mapM_zip xs ys f next, zipWithReverseM_alike xs ys f next next'⟩

/-- Three numbers are paired up with two that share no cell with them, and the pairs are taken apart
again; and the first of both go in front of what is paired up. -/
theorem zips_agree_of_unequal_lengths :
    let xs : Chain Nat := ⟨[⟨2, 10⟩, ⟨1, 20⟩, ⟨0, 30⟩], 3⟩
    let ys : Chain Nat := ⟨[⟨4, 1⟩, ⟨3, 2⟩], 2⟩
    let first : Chain Nat := ⟨[⟨5, 7⟩], 1⟩
    xs.WellFormed ∧ ys.WellFormed ∧ first.WellFormed ∧
      (xs.zip ys 5).1.length = 2 ∧
      ((xs.zip ys >>= unzip) 5).1.1.toList = [10, 20] ∧
      ((xs.zip ys >>= unzip) 5).1.2.toList = [1, 2] ∧
      ((xs.zip ys 5).1.unzip 7).1.1.length = 2 ∧
      Alike (do (← first.append xs).zip (← first.append ys))
        (do (← first.zip first).append (← xs.zip ys)) := by
  intro xs ys first
  have hxs : xs.WellFormed := ⟨rfl, by decide⟩
  have hys : ys.WellFormed := ⟨rfl, by decide⟩
  have hfirst : first.WellFormed := ⟨rfl, by decide⟩
  obtain ⟨hlength, ⟨front, front', htake, htake', hfirsts, hseconds⟩, hpairs, -, -⟩ :=
    zips_agree hxs hys
  obtain ⟨-, -, -, -, hjoined⟩ := zips_agree hfirst hfirst
  obtain rfl := Option.some.inj htake
  obtain rfl := Option.some.inj htake'
  have hzip : (xs.zip ys 5).1.WellFormed := ⟨rfl, by decide⟩
  obtain ⟨hcount, -⟩ := (hpairs _ hzip).1 7
  refine ⟨hxs, hys, hfirst, hlength 5, hfirsts 5 0, hseconds 5 0, ?_, hjoined rfl xs ys⟩
  rw [hcount, hlength 5]
  rfl

end SharedList.Chain
