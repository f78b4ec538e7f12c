import SharedList.Chain.Assoc
import SharedList.Proofs.Growth

/-!
# Laws of association lists

Every update of an association list is about the first pair whose key matches: it takes the pair
away, or puts another in its place, or, where there is none, puts one in front.

* `replaceFirst`, `putFirst` — such updates of a row of elements; removal is `List.eraseP`.
* `find?_putFirst_self`, `putFirst_putFirst`, `eraseP_putFirst` — an update and what comes after it
  for the same key; `find?_putFirst`, `find?_eraseP`, `putFirst_comm`, `eraseP_putFirst_comm` —
  updates for keys that no pair matches both.
* `Chain.lookup_eq`, `hasKey_eq`, `toList_eraseKey`, `toList_setKey` — the operations of chains are
  these, and `eraseKey_of_match`, `setKey_of_match` and the like say which cells they keep.
* `updates_of_one_key`, `updates_of_two_keys` — the laws.
-/

set_option autoImplicit false

namespace SharedList

variable {α : Type}

/-! ## Rows and their first matches -/

/-- The row with `a` in place of the first element of which `p` holds. -/
def replaceFirst (p : α → Bool) (a : α) : List α → List α
  | [] => []
  | x :: xs => if p x then a :: xs else x :: replaceFirst p a xs

/-- The row with `a` in place of the first element of which `p` holds, or in front when there is
none. -/
def putFirst (p : α → Bool) (a : α) (xs : List α) : List α :=
  if xs.any p then replaceFirst p a xs else a :: xs

section Rows

variable {p q : α → Bool} {a b x : α} {front rest xs : List α}

theorem putFirst_of_any (h : xs.any p = true) : putFirst p a xs = replaceFirst p a xs := by
  simp [putFirst, h]

theorem putFirst_of_not_any (h : xs.any p = false) : putFirst p a xs = a :: xs := by
  simp [putFirst, h]

/-- A row has no match, or it can be cut around its first one. -/
theorem no_match_or_first (p : α → Bool) (xs : List α) :
    xs.any p = false ∨
      ∃ front x rest, xs = front ++ x :: rest ∧ (∀ y ∈ front, p y = false) ∧ p x = true := by
  cases h : xs.find? p with
  | none => exact .inl (by simpa using h)
  | some x =>
    obtain ⟨hx, front, rest, hxs, hfront⟩ := List.find?_eq_some_iff_append.mp h
    exact .inr ⟨front, x, rest, hxs, by simpa using hfront, hx⟩

theorem find?_split (hfront : ∀ y ∈ front, p y = false) (hx : p x = true) :
    (front ++ x :: rest).find? p = some x := by
  refine List.find?_eq_some_iff_append.mpr ⟨hx, front, rest, rfl, ?_⟩
  simpa using hfront

theorem eraseP_split (hfront : ∀ y ∈ front, p y = false) (hx : p x = true) :
    (front ++ x :: rest).eraseP p = front ++ rest := by
  rw [List.eraseP_append_right _ (by simpa using hfront), List.eraseP_cons_of_pos hx]

theorem putFirst_split (hfront : ∀ y ∈ front, p y = false) (hx : p x = true) :
    putFirst p a (front ++ x :: rest) = front ++ a :: rest := by
  rw [putFirst_of_any (by simp [hx])]
  induction front with
  | nil => simp [replaceFirst, hx]
  | cons y front ih =>
    obtain ⟨hy, hfront⟩ := List.forall_mem_cons.mp hfront
    simp [replaceFirst, hy, ih hfront]

/-! ### One key -/

/-- What is put is what is found. -/
theorem find?_putFirst_self (ha : p a = true) : (putFirst p a xs).find? p = some a := by
  rcases no_match_or_first p xs with hnone | ⟨front, x, rest, rfl, hfront, hx⟩
  · rw [putFirst_of_not_any hnone, List.find?_cons_of_pos ha]
  · rw [putFirst_split hfront hx, find?_split hfront ha]

/-- What is put last stays. -/
theorem putFirst_putFirst (ha : p a = true) :
    putFirst p b (putFirst p a xs) = putFirst p b xs := by
  rcases no_match_or_first p xs with hnone | ⟨front, x, rest, rfl, hfront, hx⟩
  · rw [putFirst_of_not_any hnone, putFirst_of_not_any hnone]
    exact putFirst_split (List.forall_mem_nil _) ha
  · rw [putFirst_split hfront hx, putFirst_split hfront ha, putFirst_split hfront hx]

/-- What was put in place of a match goes as the match would have gone. -/
theorem eraseP_putFirst (ha : p a = true) (h : xs.any p = true) :
    (putFirst p a xs).eraseP p = xs.eraseP p := by
  rcases no_match_or_first p xs with hnone | ⟨front, x, rest, rfl, hfront, hx⟩
  · rw [h] at hnone
    cases hnone
  · rw [putFirst_split hfront hx, eraseP_split hfront ha, eraseP_split hfront hx]

/-! ### Two keys -/

/-- An element that `q` does not hold of makes no difference to what is found. -/
theorem find?_append_cons_of_neg (hx : q x = false) :
    (front ++ x :: rest).find? q = (front ++ rest).find? q := by
  rw [List.find?_append, List.find?_append, List.find?_cons_of_neg (by simp [hx])]

theorem find?_putFirst (hpq : ∀ x, p x = true → q x = false) (ha : q a = false) :
    (putFirst p a xs).find? q = xs.find? q := by
  rcases no_match_or_first p xs with hnone | ⟨front, x, rest, rfl, hfront, hx⟩
  · rw [putFirst_of_not_any hnone, List.find?_cons_of_neg (by simp [ha])]
  · rw [putFirst_split hfront hx, find?_append_cons_of_neg ha, find?_append_cons_of_neg (hpq x hx)]

theorem find?_eraseP (hpq : ∀ x, p x = true → q x = false) :
    (xs.eraseP p).find? q = xs.find? q := by
  rcases no_match_or_first p xs with hnone | ⟨front, x, rest, rfl, hfront, hx⟩
  · rw [List.eraseP_of_forall_not (by simpa using hnone)]
  · rw [eraseP_split hfront hx, find?_append_cons_of_neg (hpq x hx)]

theorem any_putFirst (hpq : ∀ x, p x = true → q x = false) (ha : q a = false) :
    (putFirst p a xs).any q = xs.any q := by
  rw [← List.isSome_find?, find?_putFirst hpq ha, List.isSome_find?]

theorem any_eraseP (hpq : ∀ x, p x = true → q x = false) : (xs.eraseP p).any q = xs.any q := by
  rw [← List.isSome_find?, find?_eraseP hpq, List.isSome_find?]

theorem replaceFirst_comm (hpq : ∀ x, p x = true → q x = false) (ha : q a = false)
    (hb : p b = false) :
    replaceFirst p a (replaceFirst q b xs) = replaceFirst q b (replaceFirst p a xs) := by
  induction xs with
  | nil => rfl
  | cons x xs ih =>
    cases hp : p x with
    | true => simp [replaceFirst, hp, hpq x hp, ha]
    | false => cases hq : q x <;> simp [replaceFirst, hp, hq, hb, ih]

theorem eraseP_replaceFirst_comm (hpq : ∀ x, p x = true → q x = false) (hb : p b = false) :
    (replaceFirst q b xs).eraseP p = replaceFirst q b (xs.eraseP p) := by
  induction xs with
  | nil => rfl
  | cons x xs ih =>
    cases hp : p x with
    | true => simp [replaceFirst, hp, hpq x hp]
    | false => cases hq : q x <;> simp [replaceFirst, hp, hq, hb, ih]

theorem eraseP_putFirst_comm (hpq : ∀ x, p x = true → q x = false) (hb : p b = false) :
    (putFirst q b xs).eraseP p = putFirst q b (xs.eraseP p) := by
  cases h : xs.any q with
  | true =>
    rw [putFirst_of_any h, putFirst_of_any ((any_eraseP hpq).trans h),
      eraseP_replaceFirst_comm hpq hb]
  | false =>
    rw [putFirst_of_not_any h, putFirst_of_not_any ((any_eraseP hpq).trans h),
      List.eraseP_cons_of_neg (by simp [hb])]

/-- Putting in front of a row what `p` does not hold of leaves the rest to `p`. -/
theorem putFirst_cons_of_any (hb : p b = false) (h : xs.any p = true) :
    putFirst p a (b :: xs) = b :: putFirst p a xs := by
  rw [putFirst_of_any (by simp [h]), putFirst_of_any h, replaceFirst, if_neg (by simp [hb])]

theorem putFirst_comm (hpq : ∀ x, p x = true → q x = false) (ha : q a = false) (hb : p b = false)
    (h : xs.any p = true ∨ xs.any q = true) :
    putFirst p a (putFirst q b xs) = putFirst q b (putFirst p a xs) := by
  have hqp : ∀ x, q x = true → p x = false := fun x hq =>
    Bool.eq_false_iff.mpr fun hp => by simp [hpq x hp] at hq
  have hp' : (putFirst q b xs).any p = xs.any p := any_putFirst hqp hb
  have hq' : (putFirst p a xs).any q = xs.any q := any_putFirst hpq ha
  cases hp : xs.any p with
  | true =>
    cases hq : xs.any q with
    | true =>
      rw [putFirst_of_any (hp'.trans hp), putFirst_of_any (hq'.trans hq), putFirst_of_any hp,
        putFirst_of_any hq, replaceFirst_comm hpq ha hb]
    | false =>
      rw [putFirst_of_not_any hq, putFirst_of_not_any (hq'.trans hq), putFirst_cons_of_any hb hp]
  | false =>
    have hq : xs.any q = true := h.resolve_left (by simp [hp])
    rw [putFirst_of_not_any hp, putFirst_of_not_any (hp'.trans hp), putFirst_cons_of_any ha hq]

/-- Of two elements that `p` does not both hold of, either may come first. -/
theorem find?_cons_cons_comm (h : p a = false ∨ p b = false) :
    (a :: b :: xs).find? p = (b :: a :: xs).find? p := by
  rcases h with h | h <;> simp [List.find?_cons, h]

end Rows

/-! ## What the operations of chains come to -/

/-- Whether the pair's key, as the stored one, matches `key`. -/
def matching {κ ν θ : Type} (eq : κ → θ → Bool) (key : θ) (pair : κ × ν) : Bool := eq pair.1 key

namespace Chain

theorem toList_of_cut {xs : Chain α} {front rest : List (Cell α)} {cell : Cell α}
    (h : xs.cells = front ++ cell :: rest) :
    xs.toList = front.map (·.value) ++ cell.value :: rest.map (·.value) := by
  rw [toList, h, List.map_append, List.map_cons]

theorem find?_ask (p : α → Bool) (xs : List α) :
    find?M.ask (m := Id) (fun x => pure (p x)) xs = xs.find? p := by
  induction xs with
  | nil => rfl
  | cons x xs ih =>
    rw [find?M.ask, List.find?_cons, ← ih]
    cases h : p x <;> simp [pure, bind]

theorem any_ask (p : α → Bool) (xs : List α) :
    anyM.ask (m := Id) (fun x => pure (p x)) xs = xs.any p := by
  induction xs with
  | nil => rfl
  | cons x xs ih =>
    rw [anyM.ask, List.any_cons, ← ih]
    cases h : p x <;> simp [pure, bind]

variable {κ ν θ : Type} {key : θ} {eq : κ → θ → Bool}

theorem lookup_eq (xs : Chain (κ × ν)) (key : θ) (eq : κ → θ → Bool) :
    xs.lookup key eq = (xs.toList.find? (matching eq key)).map (·.2) := by
  rw [← find?_ask]
  rfl

theorem hasKey_eq (xs : Chain (κ × ν)) (key : θ) (eq : κ → θ → Bool) :
    xs.hasKey key eq = xs.toList.any (matching eq key) := by
  rw [← any_ask]
  rfl

/-- A key is there just when a lookup finds a value. -/
theorem hasKey_eq_isSome_lookup (xs : Chain (κ × ν)) (key : θ) (eq : κ → θ → Bool) :
    xs.hasKey key eq = (xs.lookup key eq).isSome := by
  rw [hasKey_eq, lookup_eq, Option.isSome_map, List.isSome_find?]

theorem hasKey_congr {xs ys : Chain (κ × ν)} (h : xs.lookup key eq = ys.lookup key eq) :
    xs.hasKey key eq = ys.hasKey key eq := by
  rw [hasKey_eq_isSome_lookup, hasKey_eq_isSome_lookup, h]

section Search

variable {xs : Chain (κ × ν)} {before : Draft (κ × ν)} {cells front rest : List (Cell (κ × ν))}
  {cell : Cell (κ × ν)}

/-- The search without effects. -/
def search (xs : Chain (κ × ν)) (key : θ) (eq : κ → θ → Bool) (before : Draft (κ × ν))
    (cells : List (Cell (κ × ν))) : Option (Draft (κ × ν) × Chain (κ × ν)) :=
  splitAtKeyM.search (m := Id) xs key (fun stored searched => pure (eq stored searched)) before
    cells

theorem search_cons (xs : Chain (κ × ν)) (before : Draft (κ × ν)) (cell : Cell (κ × ν))
    (rest : List (Cell (κ × ν))) :
    search xs key eq before (cell :: rest) =
      if matching eq key cell.value then some (before, ⟨rest, xs.length - before.size - 1⟩)
      else search xs key eq (before.push cell.value) rest := rfl

theorem search_of_not_any (h : (cells.map (·.value)).any (matching eq key) = false) :
    search xs key eq before cells = none := by
  induction cells generalizing before with
  | nil => rfl
  | cons cell rest ih =>
    obtain ⟨hcell, hrest⟩ : matching eq key cell.value = false ∧ _ := by simpa using h
    rw [search_cons, if_neg (by simp [hcell])]
    exact ih (by simpa using hrest)

theorem search_split (xs : Chain (κ × ν)) (before : Draft (κ × ν))
    (hfront : ∀ c ∈ front, matching eq key c.value = false)
    (hcell : matching eq key cell.value = true) :
    ∃ before', before'.toList = before.toList ++ front.map (·.value) ∧
      search xs key eq before (front ++ cell :: rest) =
        some (before', ⟨rest, xs.length - before'.size - 1⟩) := by
  induction front generalizing before with
  | nil =>
    refine ⟨before, by simp, ?_⟩
    rw [List.nil_append, search_cons, if_pos hcell]
  | cons c front ih =>
    obtain ⟨hc, hfront⟩ := List.forall_mem_cons.mp hfront
    obtain ⟨before', hbefore, hsearch⟩ := ih (before.push c.value) hfront
    refine ⟨before', by simpa using hbefore, ?_⟩
    rw [List.cons_append, search_cons, if_neg (by simp [hc]), hsearch]

/-- No key of a chain matches, or its cells can be cut around the first whose key does. -/
theorem miss_or_match (xs : Chain (κ × ν)) (key : θ) (eq : κ → θ → Bool) :
    xs.hasKey key eq = false ∨
      ∃ front cell rest, xs.cells = front ++ cell :: rest ∧
        (∀ c ∈ front, matching eq key c.value = false) ∧ matching eq key cell.value = true := by
  rw [hasKey_eq, toList, List.any_map]
  exact no_match_or_first (matching eq key ∘ (·.value)) xs.cells

theorem eraseKey_eq (xs : Chain (κ × ν)) (key : θ) (eq : κ → θ → Bool) :
    xs.eraseKey key eq =
      match search xs key eq .empty xs.cells with
      | some (before, rest) => before.freezeOnto rest
      | none => pure xs := rfl

theorem eraseKey_of_miss (h : xs.hasKey key eq = false) : xs.eraseKey key eq = pure xs := by
  rw [hasKey_eq] at h
  rw [eraseKey_eq, search_of_not_any h]

/-- The pairs in front of the match are copied and the cells behind it are kept. -/
theorem eraseKey_of_match (hcells : xs.cells = front ++ cell :: rest)
    (hfront : ∀ c ∈ front, matching eq key c.value = false)
    (hcell : matching eq key cell.value = true) :
    xs.eraseKey key eq =
      prepend (front.map (·.value)) ⟨rest, xs.length - front.length - 1⟩ := by
  obtain ⟨before, hbefore, hsearch⟩ := search_split xs .empty hfront hcell
  rw [Draft.toList_empty, List.nil_append] at hbefore
  rw [eraseKey_eq, hcells, hsearch]
  simp only [freezeOnto_eq, Draft.size_eq, hbefore, List.length_map]

theorem toList_eraseKey (xs : Chain (κ × ν)) (key : θ) (eq : κ → θ → Bool) (next : Label) :
    (xs.eraseKey key eq next).1.toList = xs.toList.eraseP (matching eq key) := by
  rcases miss_or_match xs key eq with hmiss | ⟨front, cell, rest, hcells, hfront, hcell⟩
  · rw [eraseKey_of_miss hmiss, List.eraseP_of_forall_not]
    · rfl
    · rw [hasKey_eq] at hmiss
      simpa using hmiss
  · rw [eraseKey_of_match hcells hfront hcell, toList_prepend, toList_of_cut hcells,
      eraseP_split (by simpa using hfront) hcell]
    rfl

end Search

section Setting

variable {key : κ} {value : ν} {eq : κ → κ → Bool} {xs : Chain (κ × ν)}
  {front rest : List (Cell (κ × ν))} {cell : Cell (κ × ν)}

theorem setKey_eq (xs : Chain (κ × ν)) (key : κ) (value : ν) (eq : κ → κ → Bool) :
    xs.setKey key value eq =
      match search xs key eq .empty xs.cells with
      | some (before, rest) => rest.cons (key, value) >>= before.freezeOnto
      | none => xs.cons (key, value) := rfl

theorem setKey_of_miss (h : xs.hasKey key eq = false) :
    xs.setKey key value eq = xs.cons (key, value) := by
  rw [hasKey_eq] at h
  rw [setKey_eq, search_of_not_any h]

/-- The new pair stands where the match stood. -/
theorem setKey_of_match (hcells : xs.cells = front ++ cell :: rest)
    (hfront : ∀ c ∈ front, matching eq key c.value = false)
    (hcell : matching eq key cell.value = true) :
    xs.setKey key value eq =
      prepend (front.map (·.value) ++ [(key, value)]) ⟨rest, xs.length - front.length - 1⟩ := by
  obtain ⟨before, hbefore, hsearch⟩ := search_split xs .empty hfront hcell
  rw [Draft.toList_empty, List.nil_append] at hbefore
  rw [setKey_eq, hcells, hsearch, prepend_append]
  simp only [funext (freezeOnto_eq before), Draft.size_eq, hbefore, List.length_map]
  rfl

theorem toList_setKey (xs : Chain (κ × ν)) (key : κ) (value : ν) (eq : κ → κ → Bool)
    (next : Label) :
    (xs.setKey key value eq next).1.toList =
      putFirst (matching eq key) (key, value) xs.toList := by
  rcases miss_or_match xs key eq with hmiss | ⟨front, cell, rest, hcells, hfront, hcell⟩
  · rw [setKey_of_miss hmiss, putFirst_of_not_any (by rwa [hasKey_eq] at hmiss)]
    rfl
  · rw [setKey_of_match hcells hfront hcell, toList_prepend, toList_of_cut hcells,
      putFirst_split (by simpa using hfront) hcell, List.append_assoc]
    rfl

/-- A pair put in front of a chain without a match is taken off again, and the chain is left. -/
theorem eraseKey_setKey_of_miss (hkey : eq key key = true) (h : xs.hasKey key eq = false)
    (next : Label) :
    ((xs.setKey key value eq >>= fun ys => ys.eraseKey key eq) next).1 = xs := by
  rw [Fresh.bind_apply, setKey_of_miss h]
  have hcells : (xs.cons (key, value) next).1.cells = [] ++ ⟨next, (key, value)⟩ :: xs.cells := rfl
  rw [eraseKey_of_match hcells (List.forall_mem_nil _) hkey]
  rfl

end Setting

/-! ## Updates of one key -/

/-- **Updates of one key.**  The value that was put is found; what is put last stays; and removing
what was put is removing what it was put in place of, or, where it was put in front, gives back the
very chain.  The equality of keys need only hold of the key and itself. -/
theorem updates_of_one_key (t : Chain (κ × ν)) (eq : κ → κ → Bool) {k : κ} (hk : eq k k = true)
    (v v₁ v₂ : ν) :
    (∀ next, (t.setKey k v eq next).1.lookup k eq = some v) ∧
    Alike (t.setKey k v₁ eq >>= fun u => u.setKey k v₂ eq) (t.setKey k v₂ eq) ∧
    (t.hasKey k eq = true →
      Alike (t.setKey k v eq >>= fun u => u.eraseKey k eq) (t.eraseKey k eq)) ∧
    (t.hasKey k eq = false → ∀ next,
      ((t.setKey k v eq >>= fun u => u.eraseKey k eq) next).1 = t ∧
      ((t.setKey k v eq >>= fun u => u.eraseKey k eq) next).1.same t = true) := by
  have hself : ∀ v : ν, matching eq k (k, v) = true := fun _ => hk
  refine ⟨fun next => ?_, fun next next' => ?_, fun hany next next' => ?_, fun hmiss next => ?_⟩
  · rw [lookup_eq, toList_setKey, find?_putFirst_self (hself v)]
    rfl
  · rw [Fresh.bind_apply, toList_setKey, toList_setKey, toList_setKey, putFirst_putFirst (hself v₁)]
  · rw [hasKey_eq] at hany
    rw [Fresh.bind_apply, toList_eraseKey, toList_setKey, toList_eraseKey,
      eraseP_putFirst (hself v) hany]
  · rw [eraseKey_setKey_of_miss hk hmiss]
    exact ⟨rfl, same_refl t⟩

/-- Keys that a stored key matches from itself upwards.  The key 4 has matches, among them a
duplicate, and the key 2 has none. -/
theorem updates_of_one_key_from_below :
    let below : Nat → Nat → Bool := fun stored searched => decide (stored ≤ searched)
    let t : Chain (Nat × Nat) := ⟨[⟨2, (5, 10)⟩, ⟨1, (3, 20)⟩, ⟨0, (3, 30)⟩], 3⟩
    below 4 4 = true ∧ below 2 2 = true ∧ t.hasKey 4 below = true ∧ t.hasKey 2 below = false ∧
      (t.setKey 4 40 below 3).1.lookup 4 below = some 40 ∧
      Alike (t.setKey 4 40 below >>= fun u => u.setKey 4 50 below) (t.setKey 4 50 below) ∧
      Alike (t.setKey 4 40 below >>= fun u => u.eraseKey 4 below) (t.eraseKey 4 below) ∧
      ((t.setKey 2 40 below >>= fun u => u.eraseKey 2 below) 3).1.same t = true := by
  intro below t
  have hmatch : t.hasKey 4 below = true := by decide
  have hmiss : t.hasKey 2 below = false := by decide
  obtain ⟨hfound, hstays, htaken, -⟩ :=
    updates_of_one_key t below (show below 4 4 = true by decide) 40 40 50
  obtain ⟨-, -, -, hback⟩ :=
    updates_of_one_key t below (show below 2 2 = true by decide) 40 40 50
  exact ⟨by decide, by decide, hmatch, hmiss, hfound 3, hstays, htaken hmatch,
    (hback hmiss 3).2⟩

/-! ## Updates of two keys -/

section TwoKeys

variable {eq : κ → κ → Bool} {k₁ k₂ : κ}

/-- No pair's key matches both of two keys that are not equal. -/
theorem matching_disjoint (heq : Equivalence fun a b => eq a b = true) (hne : eq k₁ k₂ = false)
    (pair : κ × ν) (h : matching eq k₁ pair = true) : matching eq k₂ pair = false := by
  refine Bool.eq_false_iff.mpr fun h₂ => ?_
  have := heq.trans (heq.symm h) h₂
  rw [hne] at this
  cases this

/-- Two new keys are put in front, the later one foremost. -/
theorem toList_setKey_setKey_of_miss {t : Chain (κ × ν)} (hmiss₁ : t.hasKey k₁ eq = false)
    (hmiss₂ : t.hasKey k₂ eq = false) (hne : eq k₁ k₂ = false) (v₁ v₂ : ν) (next : Label) :
    ((t.setKey k₁ v₁ eq >>= fun u => u.setKey k₂ v₂ eq) next).1.toList =
      (k₂, v₂) :: (k₁, v₁) :: t.toList := by
  rw [hasKey_eq] at hmiss₁ hmiss₂
  have hnone : ((k₁, v₁) :: t.toList).any (matching eq k₂) = false := by
    rw [List.any_cons, hmiss₂, Bool.or_false]
    exact hne
  rw [Fresh.bind_apply, toList_setKey, toList_setKey, putFirst_of_not_any hmiss₁,
    putFirst_of_not_any hnone]

/-- No lookup tells in which order two pairs are in front whose keys are not equal. -/
theorem lookup_new_pairs_comm {xs ys : Chain (κ × ν)} {rest : List (κ × ν)}
    (heq : Equivalence fun a b => eq a b = true) (hne : eq k₁ k₂ = false) {v₁ v₂ : ν}
    (hxs : xs.toList = (k₂, v₂) :: (k₁, v₁) :: rest)
    (hys : ys.toList = (k₁, v₁) :: (k₂, v₂) :: rest) (k : κ) :
    xs.lookup k eq = ys.lookup k eq := by
  rw [lookup_eq, lookup_eq, hxs, hys, find?_cons_cons_comm]
  cases h : matching eq k (k₂, v₂) with
  | false => exact .inl rfl
  | true =>
    -- Otherwise `k` would match both keys.
    refine .inr (Bool.eq_false_iff.mpr fun h₁ => ?_)
    rw [heq.trans h₁ (heq.symm h)] at hne
    cases hne

/-- **Updates of two keys that are not equal.**  Neither is seen by a lookup of the other; they may
be made in either order; and only where both keys are new does the order show, in that of the two
pairs in front, which no lookup sees. -/
theorem updates_of_two_keys (t : Chain (κ × ν)) (heq : Equivalence fun a b => eq a b = true)
    (hne : eq k₁ k₂ = false) (v₁ v₂ : ν) :
    (∀ next, (t.setKey k₁ v₁ eq next).1.lookup k₂ eq = t.lookup k₂ eq ∧
      (t.setKey k₁ v₁ eq next).1.hasKey k₂ eq = t.hasKey k₂ eq) ∧
    (∀ next, (t.eraseKey k₁ eq next).1.lookup k₂ eq = t.lookup k₂ eq ∧
      (t.eraseKey k₁ eq next).1.hasKey k₂ eq = t.hasKey k₂ eq) ∧
    Alike (t.eraseKey k₁ eq >>= fun u => u.eraseKey k₂ eq)
      (t.eraseKey k₂ eq >>= fun u => u.eraseKey k₁ eq) ∧
    Alike (t.eraseKey k₁ eq >>= fun u => u.setKey k₂ v₂ eq)
      (t.setKey k₂ v₂ eq >>= fun u => u.eraseKey k₁ eq) ∧
    (t.hasKey k₁ eq = true ∨ t.hasKey k₂ eq = true →
      Alike (t.setKey k₁ v₁ eq >>= fun u => u.setKey k₂ v₂ eq)
        (t.setKey k₂ v₂ eq >>= fun u => u.setKey k₁ v₁ eq)) ∧
    (t.hasKey k₁ eq = false → t.hasKey k₂ eq = false → ∀ next next',
      let one := ((t.setKey k₁ v₁ eq >>= fun u => u.setKey k₂ v₂ eq) next).1
      let other := ((t.setKey k₂ v₂ eq >>= fun u => u.setKey k₁ v₁ eq) next').1
      one.toList = (k₂, v₂) :: (k₁, v₁) :: t.toList ∧
      other.toList = (k₁, v₁) :: (k₂, v₂) :: t.toList ∧
      ∀ k, one.lookup k eq = other.lookup k eq ∧ one.hasKey k eq = other.hasKey k eq) := by
  have hne' : eq k₂ k₁ = false := Bool.eq_false_iff.mpr fun h => by
    rw [heq.symm h] at hne
    cases hne
  have hdisj : ∀ pair : κ × ν, matching eq k₁ pair = true → matching eq k₂ pair = false :=
    matching_disjoint heq hne
  have ha : matching eq k₂ (k₁, v₁) = false := hne
  have hb : matching eq k₁ (k₂, v₂) = false := hne'
  refine ⟨fun next => ?_, fun next => ?_, fun next next' => ?_, fun next next' => ?_,
    fun hany next next' => ?_, fun hmiss₁ hmiss₂ next next' => ?_⟩
  · have hlookup : (t.setKey k₁ v₁ eq next).1.lookup k₂ eq = t.lookup k₂ eq := by
      rw [lookup_eq, lookup_eq, toList_setKey, find?_putFirst hdisj ha]
    exact ⟨hlookup, hasKey_congr hlookup⟩
  · have hlookup : (t.eraseKey k₁ eq next).1.lookup k₂ eq = t.lookup k₂ eq := by
      rw [lookup_eq, lookup_eq, toList_eraseKey, find?_eraseP hdisj]
    exact ⟨hlookup, hasKey_congr hlookup⟩
  · rw [Fresh.bind_apply, Fresh.bind_apply, toList_eraseKey, toList_eraseKey, toList_eraseKey,
      toList_eraseKey]
    refine List.eraseP_comm fun pair _ => ?_
    cases h : matching eq k₁ pair with
    | true => exact .inr (by simp [hdisj pair h])
    | false => exact .inl (by simp)
  · rw [Fresh.bind_apply, Fresh.bind_apply, toList_setKey, toList_eraseKey, toList_eraseKey,
      toList_setKey, eraseP_putFirst_comm hdisj hb]
  · rw [hasKey_eq, hasKey_eq] at hany
    rw [Fresh.bind_apply, Fresh.bind_apply, toList_setKey, toList_setKey, toList_setKey,
      toList_setKey, putFirst_comm hdisj ha hb hany]
  · have hone := toList_setKey_setKey_of_miss hmiss₁ hmiss₂ hne v₁ v₂ next
    have hother := toList_setKey_setKey_of_miss hmiss₂ hmiss₁ hne' v₂ v₁ next'
    refine ⟨hone, hother, fun k => ?_⟩
    have hlookup := lookup_new_pairs_comm heq hne hone hother k
    exact ⟨hlookup, hasKey_congr hlookup⟩

/-- Keys that match when both are even or both are odd, in a chain with matches of both kinds and in
one without any. -/
theorem updates_of_two_keys_by_parity :
    let parity : Nat → Nat → Bool := fun stored searched => stored % 2 == searched % 2
    let t : Chain (Nat × Nat) := ⟨[⟨2, (1, 10)⟩, ⟨1, (3, 20)⟩, ⟨0, (2, 30)⟩], 3⟩
    (Equivalence fun a b => parity a b = true) ∧ parity 5 4 = false ∧
      t.hasKey 5 parity = true ∧
      (t.setKey 5 40 parity 3).1.lookup 4 parity = t.lookup 4 parity ∧
      Alike (t.setKey 5 40 parity >>= fun u => u.setKey 4 50 parity)
        (t.setKey 4 50 parity >>= fun u => u.setKey 5 40 parity) ∧
      (((empty.setKey 5 40 parity >>= fun u => u.setKey 4 50 parity) 0).1.toList =
        [(4, 50), (5, 40)]) := by
  intro parity t
  have hne : parity 5 4 = false := by decide
  have heq : Equivalence fun a b => parity a b = true := by
    refine ⟨fun a => ?_, fun {a b} h => ?_, fun {a b c} h h' => ?_⟩ <;> grind
  have hmatch : t.hasKey 5 parity = true := by decide
  obtain ⟨hunseen, -, -, -, hcomm, -⟩ := updates_of_two_keys t heq hne 40 50
  obtain ⟨-, -, -, -, -, hnew⟩ := updates_of_two_keys empty heq hne 40 50
  exact ⟨heq, hne, hmatch, (hunseen 3).1, hcomm (.inl hmatch), (hnew rfl rfl 0 0).1⟩

end TwoKeys

end Chain

end SharedList
