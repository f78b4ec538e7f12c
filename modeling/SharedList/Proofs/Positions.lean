import SharedList.Chain.Access
import SharedList.Proofs.Associating
import SharedList.Proofs.Cursors
import SharedList.Proofs.Cutting

/-!
# One notion of position

The element at a position is found in four ways: by a walk that counts down, by a reader after so
many steps, at the front of what a cut leaves, and by a search that asks about one element after the
other.  The walk and the search go along the cells; cuts, readers and failures go by the cached
length.  On a well-formed chain all of them come to the entry of the row of elements, at every
position and past the end.

* `Chain.get?_eq_none_iff`, `Chain.head?_drop?`, `Chain.next?_after` — the element at a position.
* `Chain.tryGet_of_lt`, `Chain.tryGet_of_le` — strict access, which always says where it failed.
* `Chain.Opens`, `Chain.Closed` — a chain that has a first element, and one that has none.
* `Chain.findIdx?_eq_some_iff`, `Chain.find?_eq_get?` — searches.
* `Chain.accesses_agree` — all of this together.
-/

set_option autoImplicit false

namespace SharedList.Chain

variable {α : Type}

/-! ## The element at a position -/

theorem get?_eq_none_iff {xs : Chain α} (hxs : xs.WellFormed) (i : Nat) :
    xs.get? i = none ↔ xs.length ≤ i := by
  rw [get?_eq, List.getElem?_eq_none_iff, hxs.toList_length]

theorem exists_get? {xs : Chain α} (hxs : xs.WellFormed) {i : Nat} (h : i < xs.length) :
    ∃ x, xs.get? i = some x := by
  refine Option.ne_none_iff_exists'.mp fun hnone => ?_
  exact Nat.not_le_of_lt h ((get?_eq_none_iff hxs i).mp hnone)

/-- A cut leaves the element at its position in front, and is refused past the end. -/
theorem head?_drop? {xs : Chain α} (hxs : xs.WellFormed) (i : Nat) :
    (xs.drop? i).bind head? = xs.get? i := by
  rw [get?_eq]
  by_cases h : i ≤ xs.length
  · rw [drop?, if_pos h, Option.bind_some, head?_eq, toList_suffix, List.head?_drop]
  · have hlength := hxs.toList_length
    rw [drop?, if_neg h, Option.bind_none, List.getElem?_eq_none (by omega)]

/-- Asked for the next element again and again, the reference moves on to the end of the row and
stays there. -/
theorem after_next (row : List α) (place steps : Nat) :
    Script.after (Row.reply row) (min place row.length) (List.replicate steps .next) =
      min (place + steps) row.length := by
  induction steps generalizing place with
  | zero => rfl
  | succ steps ih =>
    have hstep : min (min place row.length + 1) row.length = min (place + 1) row.length := by omega
    show Script.after (Row.reply row) (min (min place row.length + 1) row.length) _ = _
    rw [hstep, ih]
    congr 1
    omega

/-- After `i` steps a reader of either kind comes to the element at position `i`, and past the end
to none. -/
theorem next?_after {xs : Chain α} (hxs : xs.WellFormed) {r : Opened α} (hr : r ∈ xs.readers)
    (i : Nat) :
    (Script.after Opened.reply r (List.replicate i .next)).next?.map (·.1) = xs.get? i := by
  have hstands := (Opened.replies_spec hxs (standsAt_readers hr) (List.replicate i .next)).2
  have hplace := after_next xs.toList 0 i
  rw [Nat.zero_min, Nat.zero_add] at hplace
  rw [hplace] at hstands
  rw [hstands.next?_eq, Option.map_map, get?_eq]
  show xs.toList[min i xs.toList.length]?.map id = _
  rw [Option.map_id_fun, id]
  by_cases h : i ≤ xs.toList.length
  · rw [Nat.min_eq_left h]
  · rw [List.getElem?_eq_none (by omega), List.getElem?_eq_none (by omega)]

/-! ## Strict access -/

theorem tryGet_of_lt {xs : Chain α} (hxs : xs.WellFormed) {i : Nat} (h : i < xs.length) :
    ∃ x, xs.get? i = some x ∧ xs.tryGet i = .ok x := by
  obtain ⟨x, hx⟩ := exists_get? hxs h
  exact ⟨x, hx, by rw [tryGet, hx]⟩

/-- A failure names the position asked for and the number of elements there are. -/
theorem tryGet_of_le {xs : Chain α} (hxs : xs.WellFormed) {i : Nat} (h : xs.length ≤ i) :
    xs.tryGet i = .error (.indexOutOfBounds .get i xs.length) := by
  rw [tryGet, (get?_eq_none_iff hxs i).mpr h]

/-! ## The front -/

/-- The chain has `x` as its first element and goes on with the cells of `rest`, whichever way one
asks; and `x` in front of `rest` is what the chain is. -/
structure Opens (xs : Chain α) (x : α) (rest : Chain α) : Prop where
  head : xs.head? = some x ∧ xs.tryHead = .ok x
  tail : xs.tail? = some rest ∧ xs.tryTail = .ok rest
  /-- The chain that comes with the first element starts where the tail does. -/
  uncons : xs.uncons? = some (x, rest)
  get : xs.get? 0 = some x
  drop : xs.drop? 1 = some rest
  cons : ∀ next, (rest.cons x next).1.toList = xs.toList ∧ (rest.cons x next).1.length = xs.length

/-- The chain has no first element, whichever way one asks. -/
structure Closed (xs : Chain α) : Prop where
  head : xs.head? = none ∧ xs.tryHead = .error (.emptyChain .head)
  tail : xs.tail? = none ∧ xs.tryTail = .error (.emptyChain .tail)
  uncons : xs.uncons? = none

theorem exists_opens {xs : Chain α} (hxs : xs.WellFormed) (h : 0 < xs.length) :
    ∃ x rest, xs.Opens x rest := by
  obtain ⟨cells, length⟩ := xs
  obtain rfl : length = cells.length := hxs.length_eq
  cases cells with
  | nil => cases h
  | cons cell rest =>
    refine ⟨cell.value, ⟨rest, rest.length⟩, ⟨rfl, rfl⟩, ⟨rfl, rfl⟩, rfl, rfl, ?_,
      fun next => ⟨rfl, rfl⟩⟩
    rw [← tail?_eq_drop? hxs.length_eq]
    rfl

theorem closed_of_length_eq_zero {xs : Chain α} (hxs : xs.WellFormed) (h : xs.length = 0) :
    xs.Closed := by
  obtain ⟨cells, length⟩ := xs
  obtain rfl : length = cells.length := hxs.length_eq
  obtain rfl : cells = [] := List.eq_nil_of_length_eq_zero h
  exact ⟨⟨rfl, rfl⟩, ⟨rfl, rfl⟩, rfl⟩

/-! ## Searches -/

/-- The position of the first element of which `p` holds. -/
def findIdx? (xs : Chain α) (p : α → Bool) : Option Nat := Id.run (xs.findIdx?M fun x => pure (p x))

/-- The first element of which `p` holds. -/
def find? (xs : Chain α) (p : α → Bool) : Option α := Id.run (xs.find?M fun x => pure (p x))

/-- The search for a position counts on from `index`. -/
theorem findIdx?_ask (p : α → Bool) (index : Nat) (row : List α) :
    findIdx?M.ask (m := Id) (fun x => pure (p x)) index row =
      (row.findIdx? p).map (· + index) := by
  induction row generalizing index with
  | nil => rfl
  | cons x row ih =>
    rw [findIdx?M.ask, List.findIdx?_cons, ih]
    cases h : p x with
    | true => simp [pure, bind]
    | false => simp [pure, bind, Function.comp_def, Nat.add_assoc, Nat.add_comm 1]

theorem findIdx?_eq (xs : Chain α) (p : α → Bool) : xs.findIdx? p = xs.toList.findIdx? p := by
  show findIdx?M.ask (m := Id) (fun x => pure (p x)) 0 xs.toList = _
  rw [findIdx?_ask]
  simp

theorem find?_eq (xs : Chain α) (p : α → Bool) : xs.find? p = xs.toList.find? p :=
  find?_ask p xs.toList

/-- A position is found just when the element there passes and none before it does. -/
theorem findIdx?_eq_some_iff (xs : Chain α) (p : α → Bool) (i : Nat) :
    xs.findIdx? p = some i ↔
      (∃ x, xs.get? i = some x ∧ p x = true) ∧ ∀ j < i, ∀ y, xs.get? j = some y → p y = false := by
  simp only [findIdx?_eq, get?_eq, List.findIdx?_eq_some_iff_getElem, List.getElem?_eq_some_iff]
  constructor
  · rintro ⟨hi, hp, hbefore⟩
    refine ⟨⟨xs.toList[i], ⟨hi, rfl⟩, hp⟩, ?_⟩
    rintro j hj y ⟨hlt, rfl⟩
    exact Bool.eq_false_iff.mpr (hbefore j hj)
  · rintro ⟨⟨x, ⟨hi, rfl⟩, hp⟩, hbefore⟩
    exact ⟨hi, hp, fun j hj => Bool.eq_false_iff.mp (hbefore j hj _ ⟨_, rfl⟩)⟩

/-- The element found is the one at the position found. -/
theorem find?_eq_get? (xs : Chain α) (p : α → Bool) :
    xs.find? p = (xs.findIdx? p).bind xs.get? := by
  have hget : xs.get? = fun i => xs.toList[i]? := funext xs.get?_eq
  rw [find?_eq, findIdx?_eq, hget]
  induction xs.toList with
  | nil => rfl
  | cons x row ih =>
    rw [List.find?_cons, List.findIdx?_cons, ih]
    cases p x with
    | true => rfl
    | false => cases row.findIdx? p <;> rfl

/-! ## All accesses -/

/-- **All accesses agree.**  At every position the walk, a reader after so many steps and the front
of what a cut leaves come to the entry of the row of elements, and to none exactly from the length
on, where strict access names the position and the length.  All ways to ask about the front succeed
exactly if the length is not zero, and agree; an element in front of a chain is undone by taking the
tail, and the other way round.  And a search finds a position just when the element there passes and
none before it does. -/
theorem accesses_agree {xs : Chain α} (hxs : xs.WellFormed) :
    -- The element at a position
    (∀ i, xs.get? i = xs.toList[i]? ∧
      (∀ r ∈ xs.readers,
        (Script.after Opened.reply r (List.replicate i .next)).next?.map (·.1) = xs.get? i) ∧
      (xs.drop? i).bind head? = xs.get? i ∧ (xs.get? i = none ↔ xs.length ≤ i)) ∧
    (∀ i < xs.length, ∃ x, xs.get? i = some x ∧ xs.tryGet i = .ok x) ∧
    (∀ i, xs.length ≤ i → xs.tryGet i = .error (.indexOutOfBounds .get i xs.length)) ∧
    -- The front
    (0 < xs.length → ∃ x rest, xs.Opens x rest) ∧
    (xs.length = 0 → xs.Closed) ∧
    (∀ y next, (xs.cons y next).1.head? = some y ∧ (xs.cons y next).1.tail? = some xs) ∧
    -- Searches
    ∀ p : α → Bool,
      (∀ i, xs.findIdx? p = some i ↔
        (∃ x, xs.get? i = some x ∧ p x = true) ∧
          ∀ j < i, ∀ y, xs.get? j = some y → p y = false) ∧
      ∀ i, xs.findIdx? p = some i → xs.find? p = xs.get? i := by
  refine ⟨fun i => ⟨xs.get?_eq i, fun r hr => next?_after hxs hr i, head?_drop? hxs i,
    get?_eq_none_iff hxs i⟩, fun i => tryGet_of_lt hxs, fun i => tryGet_of_le hxs,
    exists_opens hxs, closed_of_length_eq_zero hxs, fun y next => ⟨rfl, rfl⟩,
    fun p => ⟨xs.findIdx?_eq_some_iff p, fun i hfound => ?_⟩⟩
  rw [find?_eq_get?, hfound, Option.bind_some]

/-- Three numbers, asked for at the last position, behind it, and at the greatest position of 64
bits; two of them are even. -/
theorem accesses_agree_at_the_end :
    let xs : Chain Nat := ⟨[⟨7, 11⟩, ⟨4, 20⟩, ⟨1, 30⟩], 3⟩
    let rest : Chain Nat := ⟨[⟨4, 20⟩, ⟨1, 30⟩], 2⟩
    xs.WellFormed ∧ xs.get? 2 = some 30 ∧
      (Script.after Cursor.reply xs.cursor [.next, .next]).next?.map (·.1) = some 30 ∧
      xs.get? 3 = none ∧ xs.tryGet 3 = .error (.indexOutOfBounds .get 3 3) ∧
      xs.tryGet (2 ^ 64 - 1) = .error (.indexOutOfBounds .get (2 ^ 64 - 1) 3) ∧
      xs.Opens 11 rest ∧ xs.findIdx? (· % 2 == 0) = some 1 ∧ xs.find? (· % 2 == 0) = some 20 := by
  intro xs rest
  have hxs : xs.WellFormed := ⟨rfl, by decide⟩
  obtain ⟨hplace, -, herror, hopens, -, -, hsearch⟩ := accesses_agree hxs
  obtain ⟨-, hreaders, -, -⟩ := hplace 2
  obtain ⟨x', rest', hopen⟩ := hopens (by decide)
  obtain rfl : 11 = x' := Option.some.inj hopen.head.1
  obtain rfl : rest = rest' := Option.some.inj hopen.tail.1
  obtain ⟨hfound, helement⟩ := hsearch (· % 2 == 0)
  have hone : xs.findIdx? (· % 2 == 0) = some 1 := by
    refine (hfound 1).mpr ⟨⟨20, rfl, rfl⟩, fun j hj y hy => ?_⟩
    obtain rfl : j = 0 := by omega
    cases hy
    rfl
  refine ⟨hxs, rfl, ?_, (hplace 3).2.2.2.mpr (by decide), herror 3 (by decide),
    herror (2 ^ 64 - 1) (by decide), hopen, hone, helement 1 hone⟩
  exact hreaders (.borrowing xs.cursor) List.mem_cons_self

end SharedList.Chain
