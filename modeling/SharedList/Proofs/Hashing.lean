import SharedList.Proofs.TotalOrder
import SharedList.Value.Text

/-!
# What chains feed to a hasher tells them apart

A chain writes its length and then what its elements write.  Where equal elements write the same,
equal chains do, whatever cells they share.  Where what an element writes is never the beginning of
what an unequal one does, chains keep this, too: the length comes first, so that it is known after
how many elements the writes of a chain end.

* `WritesAlike`, `PrefixFree` — the two laws, for the elements of which a predicate holds.
* `PrefixFree.flatMap` — rows of equally many elements.
* `WritesAlike.chain`, `PrefixFree.chain` — from the elements to the chains.
* `Nest.writes`, `Nest.lengths` — the writes of chains of chains, and where inner chains end.
* `Value.writesAlike`, `Value.prefixFree` — values keep both laws.
* `writes_tell_chains_apart` — chains of any depth do.
-/

set_option autoImplicit false

namespace SharedList

variable {α : Type}

/-- Equal elements write the same. -/
def WritesAlike (good : α → Prop) (eq : α → α → Bool) (element : α → List Write) : Prop :=
  ∀ a b, good a → good b → eq a b = true → element a = element b

/-- Whatever is written after them, elements of which one writes what the other does are equal. -/
def PrefixFree (good : α → Prop) (eq : α → α → Bool) (element : α → List Write) : Prop :=
  ∀ a b s t, good a → good b → element a ++ s = element b ++ t → eq a b = true

section Elements

variable {good : α → Prop} {eq : α → α → Bool} {element : α → List Write}

/-- Of elements that keep both laws, not only the writes agree but also what follows them. -/
theorem PrefixFree.rest_eq (hfree : PrefixFree good eq element)
    (halike : WritesAlike good eq element) {a b : α} {s t : List Write} (ha : good a) (hb : good b)
    (h : element a ++ s = element b ++ t) : s = t := by
  rw [halike a b ha hb (hfree a b s t ha hb h)] at h
  exact List.append_cancel_left h

/-! ## Rows of elements -/

theorem WritesAlike.flatMap (halike : WritesAlike good eq element) {xs ys : List α}
    (hxs : ∀ x ∈ xs, good x) (hys : ∀ y ∈ ys, good y) (hlen : xs.length = ys.length)
    (heq : ∀ p ∈ xs.zip ys, eq p.1 p.2 = true) : xs.flatMap element = ys.flatMap element := by
  induction xs generalizing ys with
  | nil =>
    cases ys with
    | nil => rfl
    | cons y ys => cases hlen
  | cons x xs ih =>
    cases ys with
    | nil => cases hlen
    | cons y ys =>
      obtain ⟨hx, hxs⟩ := List.forall_mem_cons.mp hxs
      obtain ⟨hy, hys⟩ := List.forall_mem_cons.mp hys
      rw [List.zip_cons_cons, List.forall_mem_cons] at heq
      rw [List.flatMap_cons, List.flatMap_cons, halike x y hx hy heq.1,
        ih hxs hys (Nat.succ.inj hlen) heq.2]

/-- Rows of equally many elements that write the same, whatever follows, are equal, and so is what
follows. -/
theorem PrefixFree.flatMap (hfree : PrefixFree good eq element)
    (halike : WritesAlike good eq element) {xs ys : List α} {s t : List Write}
    (hxs : ∀ x ∈ xs, good x) (hys : ∀ y ∈ ys, good y) (hlen : xs.length = ys.length)
    (h : xs.flatMap element ++ s = ys.flatMap element ++ t) :
    (∀ p ∈ xs.zip ys, eq p.1 p.2 = true) ∧ s = t := by
  induction xs generalizing ys with
  | nil =>
    cases ys with
    | nil => exact ⟨nofun, h⟩
    | cons y ys => cases hlen
  | cons x xs ih =>
    cases ys with
    | nil => cases hlen
    | cons y ys =>
      obtain ⟨hx, hxs⟩ := List.forall_mem_cons.mp hxs
      obtain ⟨hy, hys⟩ := List.forall_mem_cons.mp hys
      rw [List.flatMap_cons, List.flatMap_cons, List.append_assoc, List.append_assoc] at h
      have hrest := hfree.rest_eq halike hx hy h
      obtain ⟨hall, hst⟩ := ih hxs hys (Nat.succ.inj hlen) hrest
      rw [List.zip_cons_cons, List.forall_mem_cons]
      exact ⟨⟨hfree x y _ _ hx hy h, hall⟩, hst⟩

/-! ## Chains of elements -/

theorem Chain.WellFormed.length_toList_congr {xs ys : Chain α} (hxs : xs.WellFormed)
    (hys : ys.WellFormed) (h : xs.length = ys.length) : xs.toList.length = ys.toList.length := by
  rw [hxs.toList_length, hys.toList_length, h]

theorem WritesAlike.chain (halike : WritesAlike good eq element) :
    WritesAlike (fun xs : Chain α => xs.WellFormed ∧ ∀ x ∈ xs.toList, good x)
      (fun xs ys => xs.equal ys eq) fun xs => xs.writes element := by
  intro xs ys hxs hys h
  obtain ⟨hlen, heq⟩ := (Chain.equal_eq_true_iff xs ys eq).mp h
  have hcount := hxs.1.length_toList_congr hys.1 hlen
  show xs.writes element = ys.writes element
  rw [Chain.writes, Chain.writes, hlen, halike.flatMap hxs.2 hys.2 hcount heq]

theorem PrefixFree.chain (hfree : PrefixFree good eq element)
    (halike : WritesAlike good eq element) :
    PrefixFree (fun xs : Chain α => xs.WellFormed ∧ ∀ x ∈ xs.toList, good x)
      (fun xs ys => xs.equal ys eq) fun xs => xs.writes element := by
  intro xs ys s t hxs hys h
  obtain ⟨hhead, h⟩ := List.cons.inj h
  have hlen : xs.length = ys.length := Write.usize.inj hhead
  -- The cached length, written first, is the number of elements whose writes come after it.
  have hcount := hxs.1.length_toList_congr hys.1 hlen
  exact (Chain.equal_eq_true_iff xs ys eq).mpr
    ⟨hlen, (hfree.flatMap halike hxs.2 hys.2 hcount h).1⟩

/-! ## Chains of chains -/

namespace Nest

/-- A chain writes its length and what its chains write, and so on down to the elements. -/
def writes (element : α → List Write) : (depth : Nat) → Nest α depth → List Write
  | 0 => element
  | depth + 1 => fun xs => Chain.writes xs (writes element depth)

/-- The lengths of a chain of chains and of all chains in it, in the order in which they begin. -/
def lengths : (depth : Nat) → Nest α depth → List Nat
  | 0, _ => []
  | depth + 1, (xs : Chain (Nest α depth)) => xs.length :: xs.toList.flatMap (lengths depth)

theorem writesAlike (h : WritesAlike (fun _ => True) eq element) (depth : Nat) :
    WritesAlike (WellFormed depth) (Nest.eq eq depth) (writes element depth) := by
  induction depth with
  | zero => exact h
  | succ depth ih => exact ih.chain

theorem prefixFree (hfree : PrefixFree (fun _ => True) eq element)
    (halike : WritesAlike (fun _ => True) eq element) (depth : Nat) :
    PrefixFree (WellFormed depth) (Nest.eq eq depth) (writes element depth) := by
  induction depth with
  | zero => exact hfree
  | succ depth ih => exact ih.chain (writesAlike halike depth)

/-- The lengths are told by an element that writes nothing. -/
theorem map_usize_lengths (depth : Nat) (xs : Nest α depth) :
    (lengths depth xs).map Write.usize = writes (fun _ => []) depth xs := by
  induction depth with
  | zero => rfl
  | succ depth ih =>
    show Write.usize _ :: (List.flatMap (lengths depth) _).map Write.usize = _ :: List.flatMap _ _
    rw [List.map_flatMap]
    simp only [ih]

/-- In equal chains of chains the inner chains end at the same places. -/
theorem lengths_eq {depth : Nat} {xs ys : Nest α depth} (hxs : WellFormed depth xs)
    (hys : WellFormed depth ys) (h : Nest.eq eq depth xs ys = true) :
    lengths depth xs = lengths depth ys := by
  have halike : WritesAlike (fun _ : α => True) eq fun _ => [] := fun _ _ _ _ _ => rfl
  have hwrites := writesAlike halike depth xs ys hxs hys h
  rw [← map_usize_lengths, ← map_usize_lengths] at hwrites
  exact (List.map_inj_right fun _ _ => Write.usize.inj).mp hwrites

end Nest

end Elements

/-! ## Texts as bytes -/

namespace Write

theorem toList_loop (bytes : ByteArray) (i : Nat) (read : List UInt8) :
    ByteArray.toList.loop bytes i read = read.reverse ++ bytes.data.toList.drop i := by
  induction i, read using ByteArray.toList.loop.induct bytes with
  | case1 i read hlt ih =>
    have hi : i < bytes.data.toList.length := hlt
    have hget : bytes.get! i = bytes.data.toList[i] := getElem!_pos bytes.data i hlt
    rw [ByteArray.toList.loop, if_pos hlt, ih, hget, List.reverse_cons, List.append_assoc,
      List.singleton_append, List.getElem_cons_drop]
  | case2 i read hge =>
    have hi : bytes.data.toList.length ≤ i := Nat.le_of_not_lt hge
    rw [ByteArray.toList.loop, if_neg hge, List.drop_of_length_le hi, List.append_nil]

/-- A text is known by its bytes. -/
theorem eq_of_toUTF8 {a b : String} (h : a.toUTF8.toList = b.toUTF8.toList) : a = b := by
  rw [ByteArray.toList, ByteArray.toList, toList_loop, toList_loop] at h
  exact String.toByteArray_inj.mp (ByteArray.ext (Array.toList_inj.mp h))

end Write

/-! ## Values -/

namespace Value

/-- Values of different kinds begin to write differently. -/
theorem rank_eq_of_writes {a b : Value} {s t : List Write} (h : a.writes ++ s = b.writes ++ t) :
    a.rank = b.rank := by
  cases a <;> cases b <;>
    first
    | rfl
    | simp [writes, Write.ofBool, Write.ofInt, Write.ofString] at h

/-- Values of bounded size keep both laws.  The elements of a chain are smaller than it. -/
theorem faithful_below (n : Nat) :
    WritesAlike (fun v : Value => v.WellFormed ∧ sizeOf v < n) eq writes ∧
      PrefixFree (fun v : Value => v.WellFormed ∧ sizeOf v < n) eq writes := by
  induction n with
  | zero => exact ⟨fun a _ ha => absurd ha.2 (Nat.not_lt_zero _),
      fun a _ _ _ ha => absurd ha.2 (Nat.not_lt_zero _)⟩
  | succ n ih =>
    obtain ⟨halike, hfree⟩ := ih
    constructor
    · intro a b ha hb h
      by_cases hrank : a.rank = b.rank
      · match a, b, hrank with
        | bool a, bool b, _ => rw [eq_of_beq (show (a == b) = true from h)]
        | int a, int b, _ => rw [eq_of_beq (show (a == b) = true from h)]
        | str a, str b, _ => rw [eq_of_beq (show (a == b) = true from h)]
        | list xs, list ys, _ =>
          rw [eq_list] at h
          rw [writes_list, writes_list]
          exact halike.chain xs ys (elements_below ha) (elements_below hb) h
      · rw [eq_of_rank_ne hrank] at h
        cases h
    · intro a b s t ha hb h
      match a, b, rank_eq_of_writes h with
      | bool a, bool b, _ => cases a <;> cases b <;> first | rfl | simp [writes, Write.ofBool] at h
      | int a, int b, _ =>
        simp only [writes, Write.ofInt, List.cons_append, List.cons.injEq, Write.i64.injEq] at h
        exact beq_iff_eq.mpr h.1
      | str a, str b, _ =>
        simp only [writes, Write.ofString, List.cons_append, List.cons.injEq,
          Write.bytes.injEq] at h
        exact beq_iff_eq.mpr (Write.eq_of_toUTF8 h.1)
      | list xs, list ys, _ =>
        rw [writes_list, writes_list] at h
        rw [eq_list]
        exact hfree.chain halike xs ys s t (elements_below ha) (elements_below hb) h

theorem writesAlike : WritesAlike WellFormed eq writes := fun a b ha hb =>
  (faithful_below (sizeOf a + sizeOf b + 1)).1 a b ⟨ha, by omega⟩ ⟨hb, by omega⟩

theorem prefixFree : PrefixFree WellFormed eq writes := fun a b s t ha hb =>
  (faithful_below (sizeOf a + sizeOf b + 1)).2 a b s t ⟨ha, by omega⟩ ⟨hb, by omega⟩

end Value

/-- **What chains feed to a hasher tells them apart.**  Where equal elements write the same, equal
chains of any depth do.  Where besides no element writes the beginning of what an unequal one does,
chains of any depth that write the same, whatever follows, are equal, and so is what follows; so
that chains in which inner ones end at different places never write the same.  Values, among them
chains of values, keep both laws. -/
theorem writes_tell_chains_apart {eq : α → α → Bool} {element : α → List Write}
    (halike : WritesAlike (fun _ => True) eq element) :
    (∀ (depth : Nat) (xs ys : Nest α depth), Nest.WellFormed depth xs → Nest.WellFormed depth ys →
      Nest.eq eq depth xs ys = true →
        Nest.writes element depth xs = Nest.writes element depth ys) ∧
    (PrefixFree (fun _ => True) eq element → ∀ (depth : Nat) (xs ys : Nest α depth),
      Nest.WellFormed depth xs → Nest.WellFormed depth ys → ∀ s t : List Write,
        (Nest.writes element depth xs ++ s = Nest.writes element depth ys ++ t →
          Nest.eq eq depth xs ys = true ∧ s = t) ∧
        (Nest.lengths depth xs ≠ Nest.lengths depth ys →
          Nest.writes element depth xs ++ s ≠ Nest.writes element depth ys ++ t)) ∧
    WritesAlike Value.WellFormed Value.eq Value.writes ∧
    PrefixFree Value.WellFormed Value.eq Value.writes := by
  refine ⟨fun depth xs ys => Nest.writesAlike halike depth xs ys,
    fun hfree depth xs ys hxs hys s t => ?_, Value.writesAlike, Value.prefixFree⟩
  have hnest := Nest.prefixFree hfree halike depth
  refine ⟨fun h => ⟨hnest xs ys s t hxs hys h, ?_⟩, fun hne h => hne ?_⟩
  · exact hnest.rest_eq (Nest.writesAlike halike depth) hxs hys h
  · exact Nest.lengths_eq hxs hys (hnest xs ys s t hxs hys h)

/-- The numbers 1, 2 and 3 in two chains, cut after the first or after the second of them. -/
theorem writes_tell_cuts_apart :
    let one : Chain Int64 := ⟨[⟨0, 1⟩], 1⟩
    let oneTwo : Chain Int64 := ⟨[⟨2, 1⟩, ⟨1, 2⟩], 2⟩
    let twoThree : Chain Int64 := ⟨[⟨4, 2⟩, ⟨3, 3⟩], 2⟩
    let three : Chain Int64 := ⟨[⟨5, 3⟩], 1⟩
    let xs : Nest Int64 2 := (⟨[⟨7, one⟩, ⟨6, twoThree⟩], 2⟩ : Chain (Chain Int64))
    let ys : Nest Int64 2 := (⟨[⟨9, oneTwo⟩, ⟨8, three⟩], 2⟩ : Chain (Chain Int64))
    WritesAlike (fun _ : Int64 => True) (· == ·) Write.ofInt ∧
      PrefixFree (fun _ : Int64 => True) (· == ·) Write.ofInt ∧
      Nest.WellFormed 2 xs ∧ Nest.WellFormed 2 ys ∧ Nest.lengths 2 xs ≠ Nest.lengths 2 ys ∧
      ∀ s t, Nest.writes Write.ofInt 2 xs ++ s ≠ Nest.writes Write.ofInt 2 ys ++ t := by
  intro one oneTwo twoThree three xs ys
  have halike : WritesAlike (fun _ : Int64 => True) (· == ·) Write.ofInt := fun a b _ _ h =>
    congrArg Write.ofInt (eq_of_beq h)
  have hfree : PrefixFree (fun _ : Int64 => True) (· == ·) Write.ofInt := fun a b s t _ _ h =>
    beq_iff_eq.mpr (Write.i64.inj (List.cons.inj h).1)
  have inner : ∀ x : Chain Int64, x.WellFormed → Nest.WellFormed (α := Int64) 1 x := fun _ wf =>
    ⟨wf, fun _ _ => trivial⟩
  have hxs : Nest.WellFormed 2 xs := ⟨⟨rfl, by decide⟩, List.forall_mem_cons.mpr
    ⟨inner one ⟨rfl, by decide⟩, List.forall_mem_singleton.mpr (inner twoThree ⟨rfl, by decide⟩)⟩⟩
  have hys : Nest.WellFormed 2 ys := ⟨⟨rfl, by decide⟩, List.forall_mem_cons.mpr
    ⟨inner oneTwo ⟨rfl, by decide⟩, List.forall_mem_singleton.mpr (inner three ⟨rfl, by decide⟩)⟩⟩
  have hne : Nest.lengths 2 xs ≠ Nest.lengths 2 ys := by decide
  obtain ⟨-, hapart, -⟩ := writes_tell_chains_apart halike
  exact ⟨halike, hfree, hxs, hys, hne, fun s t => (hapart hfree 2 xs ys hxs hys s t).2 hne⟩

end SharedList
