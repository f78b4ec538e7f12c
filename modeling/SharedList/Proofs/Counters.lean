import SharedList.Proofs.Appending
import SharedList.Proofs.Cursors

/-!
# Counters of 64 bits

A chain and a reader that borrows one each carry a counter.  It has 64 bits, and the operations count
it up and down without asking whether it wraps.  Here each of them is set beside its **checked** form,
which takes the same steps and is refused where a counter would wrap; so an operation whose checked
form comes to the same never wraps a counter.

* `up?`, `down?` — counters that are checked.
* `Checked` — the checked forms of all operations that count.
* `Chain.CountsDown`, `WellFormed.countsDown`, `Checked.splitAtKeyM_eq` — counting down never wraps,
  since as many cells are left as the counter says.
* `Checked.foldrM_cons_eq`, `appendAll_eq`, `flatten_eq`, `setKeyM_eq` — counting up does not wrap if
  the length of the result has 64 bits: whatever is counted on the way there is less.
-/

set_option autoImplicit false

namespace SharedList

variable {α β : Type}

/-! ## Checked operations -/

/-- One more, unless the counter would wrap. -/
def up? (n : Nat) : Option Nat := if n + 1 < 2 ^ 64 then some (n + 1) else none

/-- So many less, unless the counter would wrap. -/
def down? (n count : Nat) : Option Nat := if count ≤ n then some (n - count) else none

theorem up?_eq {n : Nat} (h : n + 1 < 2 ^ 64) : up? n = some (n + 1) := if_pos h

theorem down?_eq {n count : Nat} (h : count ≤ n) : down? n count = some (n - count) := if_pos h

/-- A computation that may make cells and is refused where a counter would wrap. -/
abbrev Checked := StateT Label Option

namespace Checked

/-! ### Counting down -/

def tail? (xs : Chain α) : Option (Option (Chain α)) :=
  match xs.cells with
  | [] => some none
  | _ :: rest => do return some ⟨rest, ← down? xs.length 1⟩

def uncons? (xs : Chain α) : Option (Option (α × Chain α)) :=
  match xs.cells with
  | [] => some none
  | cell :: rest => do return some (cell.value, ⟨rest, ← down? xs.length 1⟩)

/-- The countdown to the cell is a counter, too. -/
def get? (xs : Chain α) (index : Nat) : Option (Option α) :=
  walk xs.cells index
where
  walk : List (Cell α) → Nat → Option (Option α)
    | [], _ => some none
    | cell :: rest, remaining =>
      if remaining = 0 then some (some cell.value) else do walk rest (← down? remaining 1)

def suffix (xs : Chain α) (count : Nat) : Option (Chain α) := do
  return ⟨xs.cells.drop count, ← down? xs.length count⟩

def drop? (xs : Chain α) (count : Nat) : Option (Option (Chain α)) :=
  if count ≤ xs.length then do return some (← suffix xs count) else some none

def splitAt? (xs : Chain α) (index : Nat) : Option (Option (Fresh (Chain α × Chain α))) :=
  match xs.take? index with
  | none => some none
  | some front => do
    let rest ← suffix xs index
    return some (do return (← front, rest))

section Keys

variable {m : Type → Type} [Monad m] {κ ν θ : Type}

def splitAtKeyM (xs : Chain (κ × ν)) (key : θ) (eq : κ → θ → m Bool) :
    m (Option (Option (Draft (κ × ν) × Chain (κ × ν)))) :=
  search .empty xs.cells
where
  search (before : Draft (κ × ν)) : List (Cell (κ × ν)) →
      m (Option (Option (Draft (κ × ν) × Chain (κ × ν))))
    | [] => return some none
    | cell :: rest => do
      if ← eq cell.value.1 key then
        return do
          let behind ← down? xs.length before.size
          return some (before, ⟨rest, ← down? behind 1⟩)
      else
        search (before.push cell.value) rest

end Keys

def cursorNext? (c : Cursor α) : Option (Option (α × Cursor α)) :=
  match c.ahead with
  | [] => some none
  | cell :: rest => do return some (cell.value, ⟨rest, ← down? c.remaining 1⟩)

def drainNext? (d : Drain α) : Option (Option (α × Drain α)) :=
  match d.chain.cells with
  | [] => some none
  | cell :: rest => do return some (cell.value, ⟨⟨rest, ← down? d.chain.length 1⟩⟩)

def readAll : List (Cell α) → Nat → List α → Option (List α × Nat)
  | [], remaining, read => some (read.reverse, remaining)
  | cell :: rest, remaining, read => do readAll rest (← down? remaining 1) (cell.value :: read)

def next? : Opened α → Option (Option (α × Opened α))
  | .borrowing c => do return (← cursorNext? c).map fun (x, later) => (x, .borrowing later)
  | .owning d => do return (← drainNext? d).map fun (x, later) => (x, .owning later)

def exhaust : Opened α → Option (List α × Opened α)
  | .borrowing c => do
    let (read, remaining) ← readAll c.ahead c.remaining []
    return (read, .borrowing ⟨[], remaining⟩)
  | .owning d => do
    let (taken, length) ← readAll d.chain.cells d.chain.length []
    return (taken, .owning ⟨⟨[], length⟩⟩)

/-! ### Counting up -/

def cons (x : α) (xs : Chain α) : Checked (Chain α) := fun next => do
  return (⟨⟨next, x⟩ :: xs.cells, ← up? xs.length⟩, next + 1)

/-- The length is counted up once for each drafted element. -/
def freezeOnto (d : Draft α) (tail : Chain α) : Checked (Chain α) := d.items.foldrM cons tail

def stack (xs : List α) (onto : Chain α) : Checked (Chain α) :=
  xs.foldlM (fun stacked x => cons x stacked) onto

def append (xs ys : Chain α) : Checked (Chain α) :=
  if xs.isEmpty then return ys
  else if ys.isEmpty then return xs
  else freezeOnto xs.draft ys

def appendAll (chains : List (Chain α)) : Checked (Chain α) :=
  match chains.reverse with
  | [] => return .empty
  | last :: before => before.foldlM (fun joined xs => append xs joined) last

def flatten (chains : Chain (Chain α)) : Checked (Chain α) :=
  let joined := chains.toList.foldl Chain.Joining.pass ⟨.empty, none⟩
  match joined.latest with
  | none => return .empty
  | some last => freezeOnto joined.copied last

section Keys

variable {m : Type → Type} [Monad m] {κ ν θ : Type}

def eraseKeyM (xs : Chain (κ × ν)) (key : θ) (eq : κ → θ → m Bool) :
    m (Checked (Chain (κ × ν))) := do
  match ← splitAtKeyM xs key eq with
  | none => return failure
  | some (some (before, rest)) => return freezeOnto before rest
  | some none => return pure xs

def setKeyM (xs : Chain (κ × ν)) (key : κ) (value : ν) (eq : κ → κ → m Bool) :
    m (Checked (Chain (κ × ν))) := do
  match ← splitAtKeyM xs key eq with
  | none => return failure
  | some (some (before, rest)) => return (do freezeOnto before (← cons (key, value) rest))
  | some none => return cons (key, value) xs

end Keys

end Checked

/-! ## Counting down -/

namespace Checked

theorem tail?_eq {xs : Chain α} (hxs : xs.cells.length ≤ xs.length) :
    tail? xs = some xs.tail? := by
  unfold tail? Chain.tail?
  cases h : xs.cells with
  | nil => rfl
  | cons cell rest =>
    rw [h, List.length_cons] at hxs
    simp [down?_eq (show 1 ≤ xs.length by omega)]

theorem uncons?_eq {xs : Chain α} (hxs : xs.cells.length ≤ xs.length) :
    uncons? xs = some xs.uncons? := by
  unfold uncons? Chain.uncons?
  cases h : xs.cells with
  | nil => rfl
  | cons cell rest =>
    rw [h, List.length_cons] at hxs
    simp [down?_eq (show 1 ≤ xs.length by omega)]

/-- The walk counts down only where it is not at zero. -/
theorem walk_eq (cells : List (Cell α)) (index : Nat) :
    get?.walk cells index = some (Chain.get?.walk cells index) := by
  induction cells generalizing index with
  | nil => rfl
  | cons cell rest ih =>
    cases index with
    | zero => rfl
    | succ index =>
      rw [get?.walk, if_neg (Nat.succ_ne_zero index), down?_eq (Nat.le_add_left 1 index)]
      exact ih index

theorem suffix_eq {xs : Chain α} {count : Nat} (h : count ≤ xs.length) :
    suffix xs count = some (xs.suffix count) := by
  rw [suffix, down?_eq h]
  rfl

/-- The suffix is asked for only where the cut is not refused. -/
theorem drop?_eq (xs : Chain α) (count : Nat) : drop? xs count = some (xs.drop? count) := by
  unfold drop? Chain.drop?
  split
  · rename_i h
    rw [suffix_eq h]
    rfl
  · rfl

theorem splitAt?_eq (xs : Chain α) (index : Nat) : splitAt? xs index = some (xs.splitAt? index) := by
  unfold splitAt? Chain.splitAt?
  cases h : xs.take? index with
  | none => rfl
  | some front =>
    have hle : index ≤ xs.length := by
      by_contra hlt
      rw [Chain.take?, if_pos (Nat.lt_of_not_le hlt)] at h
      cases h
    simp only [suffix_eq hle]
    rfl

section Keys

variable {m : Type → Type} [Monad m] [LawfulMonad m] {κ ν θ γ : Type} {xs : Chain (κ × ν)}
  {done : Option (Option (Draft (κ × ν) × Chain (κ × ν))) → m γ}
  {done' : Option (Draft (κ × ν) × Chain (κ × ν)) → m γ}

/-- **Loop invariant**: the pairs drafted and the cells ahead are no more than the chain says it has.
So neither difference at a match wraps, and what comes after the cut may count on it that both parts
and the match are as many as the chain says. -/
theorem search_bind_eq (key : θ) (eq : κ → θ → m Bool) (hnone : done (some none) = done' none)
    (hsome : ∀ before rest, before.size + rest.length + 1 = xs.length →
      done (some (some (before, rest))) = done' (some (before, rest)))
    {before : Draft (κ × ν)} {cells : List (Cell (κ × ν))}
    (h : before.size + cells.length ≤ xs.length) :
    splitAtKeyM.search xs key eq before cells >>= done =
      Chain.splitAtKeyM.search xs key eq before cells >>= done' := by
  induction cells generalizing before with
  | nil => rw [splitAtKeyM.search, Chain.splitAtKeyM.search, pure_bind, pure_bind, hnone]
  | cons cell rest ih =>
    rw [List.length_cons] at h
    rw [splitAtKeyM.search, Chain.splitAtKeyM.search, bind_assoc, bind_assoc]
    congr 1
    funext found
    cases found with
    | true =>
      have hbehind : down? xs.length before.size = some (xs.length - before.size) :=
        down?_eq (by omega)
      have hmatch : down? (xs.length - before.size) 1 = some (xs.length - before.size - 1) :=
        down?_eq (by omega)
      have hparts : before.size + (xs.length - before.size - 1) + 1 = xs.length := by omega
      simp [hbehind, hmatch, hsome before ⟨rest, xs.length - before.size - 1⟩ hparts]
    | false =>
      have hpushed : (before.push cell.value).size = before.size + 1 := by simp [Draft.size_eq]
      simpa using @ih (before.push cell.value) (by omega)

theorem splitAtKeyM_bind_eq (hxs : xs.cells.length ≤ xs.length) (key : θ) (eq : κ → θ → m Bool)
    (hnone : done (some none) = done' none)
    (hsome : ∀ before rest, before.size + rest.length + 1 = xs.length →
      done (some (some (before, rest))) = done' (some (before, rest))) :
    splitAtKeyM xs key eq >>= done = xs.splitAtKeyM key eq >>= done' := by
  refine search_bind_eq key eq hnone hsome ?_
  rw [Draft.size_eq, Draft.toList_empty, List.length_nil]
  omega

/-- **Cutting around a match counts down right**, wherever the match is and whatever the closure
does. -/
theorem splitAtKeyM_eq (hxs : xs.cells.length ≤ xs.length) (key : θ) (eq : κ → θ → m Bool) :
    splitAtKeyM xs key eq = some <$> xs.splitAtKeyM key eq := by
  rw [← bind_pure (splitAtKeyM xs key eq), map_eq_pure_bind]
  exact splitAtKeyM_bind_eq hxs key eq rfl fun _ _ _ => rfl

end Keys

/-! ### Readers -/

theorem readAll_eq {cells : List (Cell α)} {remaining : Nat} (h : cells.length ≤ remaining)
    (read : List α) : readAll cells remaining read = some (Cell.readAll cells remaining read) := by
  induction cells generalizing remaining read with
  | nil => rfl
  | cons cell rest ih =>
    rw [List.length_cons] at h
    rw [readAll, down?_eq (by omega)]
    exact ih (by omega) (cell.value :: read)

theorem next?_eq {r : Opened α} (h : r.ahead.cells.length ≤ r.ahead.length) :
    next? r = some r.next? := by
  cases r with
  | borrowing c =>
    obtain ⟨cells, remaining⟩ := c
    cases cells with
    | nil => rfl
    | cons cell rest =>
      have hdown := down?_eq (show 1 ≤ remaining from Nat.le_trans (Nat.le_add_left 1 _) h)
      simp [next?, cursorNext?, hdown, Opened.next?, Cursor.next?]
  | owning d =>
    obtain ⟨⟨cells, length⟩⟩ := d
    cases cells with
    | nil => rfl
    | cons cell rest =>
      have hdown := down?_eq (show 1 ≤ length from Nat.le_trans (Nat.le_add_left 1 _) h)
      simp [next?, drainNext?, hdown, Opened.next?, Drain.next?]

theorem exhaust_eq {r : Opened α} (h : r.ahead.cells.length ≤ r.ahead.length) :
    exhaust r = some r.exhaust := by
  cases r with
  | borrowing c =>
    have hall : readAll c.ahead c.remaining [] = some _ := readAll_eq h []
    rw [exhaust, hall]
    rfl
  | owning d =>
    have hall : readAll d.chain.cells d.chain.length [] = some _ := readAll_eq h []
    rw [exhaust, hall]
    rfl

end Checked

namespace Chain

/-- No counter wraps where it is counted down: at the front, on the way to a position, at a cut, and
whatever a reader was asked before. -/
structure CountsDown (xs : Chain α) : Prop where
  tail : Checked.tail? xs = some xs.tail?
  uncons : Checked.uncons? xs = some xs.uncons?
  get : ∀ index, Checked.get? xs index = some (xs.get? index)
  drop : ∀ count, Checked.drop? xs count = some (xs.drop? count)
  splitAt : ∀ index, Checked.splitAt? xs index = some (xs.splitAt? index)
  readers : ∀ r ∈ xs.readers, ∀ script,
    Checked.next? (Script.after Opened.reply r script) =
        some (Script.after Opened.reply r script).next? ∧
      Checked.exhaust (Script.after Opened.reply r script) =
        some (Script.after Opened.reply r script).exhaust

/-- **Counting down never wraps.** -/
theorem WellFormed.countsDown {xs : Chain α} (hxs : xs.WellFormed) : xs.CountsDown := by
  have hcells : xs.cells.length ≤ xs.length := Nat.le_of_eq hxs.length_eq.symm
  refine ⟨Checked.tail?_eq hcells, Checked.uncons?_eq hcells, fun index => ?_,
    Checked.drop?_eq xs, Checked.splitAt?_eq xs, fun r hr script => ?_⟩
  · exact Checked.walk_eq xs.cells index
  · have hstands := (Opened.replies_spec hxs (standsAt_readers hr) script).2
    have hahead : (Script.after Opened.reply r script).ahead.cells.length ≤
        (Script.after Opened.reply r script).ahead.length := by
      refine Nat.le_of_eq ?_
      rw [hstands.ahead, suffix, List.length_drop, hxs.length_eq]
    exact ⟨Checked.next?_eq hahead, Checked.exhaust_eq hahead⟩

end Chain

/-! ## Counting up -/

namespace Checked

theorem cons_eq {xs : Chain α} (x : α) {next : Label} (h : (xs.cons x next).1.length < 2 ^ 64) :
    cons x xs next = some (xs.cons x next) := by
  rw [cons, up?_eq h]
  rfl

/-- A row in front of a chain is counted up to the length of the result. -/
theorem foldrM_cons_eq (row : List α) (rest : Chain α) {next : Label}
    (h : (Chain.prepend row rest next).1.length < 2 ^ 64) :
    row.foldrM cons rest next = some (Chain.prepend row rest next) := by
  induction row with
  | nil => rfl
  | cons x row ih =>
    rw [Chain.length_prepend, List.length_cons] at h
    have hlater := ih (by rw [Chain.length_prepend]; omega)
    rw [List.foldrM_cons]
    show (row.foldrM cons rest next).bind (fun made => cons x made.1 made.2) = _
    rw [hlater, Option.bind_some, Chain.prepend_cons, Fresh.bind_apply]
    refine cons_eq x ?_
    show (Chain.prepend row rest next).1.length + 1 < 2 ^ 64
    rw [Chain.length_prepend]
    omega

theorem length_freezeOnto (d : Draft α) (tail : Chain α) (next : Label) :
    (d.freezeOnto tail next).1.length = tail.length + d.size := by
  rw [Draft.freezeOnto_apply]

theorem freezeOnto_eq (d : Draft α) (tail : Chain α) {next : Label}
    (h : (d.freezeOnto tail next).1.length < 2 ^ 64) :
    freezeOnto d tail next = some (d.freezeOnto tail next) := by
  rw [Chain.freezeOnto_eq] at h ⊢
  rw [freezeOnto, ← Array.foldrM_toList]
  exact foldrM_cons_eq d.toList tail h

theorem stack_eq (row : List α) (onto : Chain α) {next : Label}
    (h : (Chain.stack row onto next).1.length < 2 ^ 64) :
    stack row onto next = some (Chain.stack row onto next) := by
  rw [Chain.stack_eq] at h ⊢
  rw [← foldrM_cons_eq row.reverse onto h, List.foldrM_reverse]
  rfl

/-! ### Joining -/

theorem append_eq (xs ys : Chain α) {next : Label}
    (h : (xs.append ys next).1.length < 2 ^ 64) :
    append xs ys next = some (xs.append ys next) := by
  unfold Chain.append at h
  unfold append Chain.append
  split
  · rfl
  · rename_i hxs
    rw [if_neg hxs] at h
    split
    · rfl
    · rename_i hys
      rw [if_neg hys] at h
      exact freezeOnto_eq xs.draft ys h

theorem appendAll_cons {xs : Chain α} {chains : List (Chain α)} (h : chains ≠ []) :
    appendAll (xs :: chains) = appendAll chains >>= append xs := by
  unfold appendAll
  rw [List.reverse_cons]
  cases hr : chains.reverse with
  | nil => exact absurd (List.reverse_eq_nil_iff.mp hr) h
  | cons last before => simp [List.foldlM_append]

/-- What was joined so far is never longer than what is joined in the end. -/
theorem appendAll_eq {chains : List (Chain α)} (wf : ∀ xs ∈ chains, xs.WellFormed) {next : Label}
    (h : (Chain.appendAll chains next).1.length < 2 ^ 64) :
    appendAll chains next = some (Chain.appendAll chains next) := by
  induction chains with
  | nil => rfl
  | cons xs chains ih =>
    cases chains with
    | nil => rfl
    | cons ys chains =>
      have hne := List.cons_ne_nil ys chains
      obtain ⟨hxs, wf⟩ := List.forall_mem_cons.mp wf
      have hjoined := Chain.length_appendAll wf next
      rw [Chain.appendAll_cons hne, Fresh.bind_apply] at h ⊢
      have hlength := Chain.length_append_eq hxs.length_eq hjoined
        (Chain.appendAll (ys :: chains) next).2
      rw [appendAll_cons hne]
      show (appendAll (ys :: chains) next).bind (fun made => append xs made.1 made.2) = _
      rw [ih wf (by omega), Option.bind_some]
      exact append_eq xs _ h

theorem flatten_eq (chains : Chain (Chain α)) {next : Label}
    (h : (Chain.flatten chains next).1.length < 2 ^ 64) :
    flatten chains next = some (Chain.flatten chains next) := by
  unfold Chain.flatten at h
  unfold flatten Chain.flatten
  generalize chains.toList.foldl Chain.Joining.pass ⟨.empty, none⟩ = joined at h ⊢
  obtain ⟨copied, latest⟩ := joined
  cases latest with
  | none => rfl
  | some last => exact freezeOnto_eq copied last h

/-! ### Erasing and replacing pairs -/

section Keys

variable {m : Type → Type} [Monad m] [LawfulMonad m] {κ ν θ : Type}

theorem eraseKeyM_eq {xs : Chain (κ × ν)} (hxs : xs.cells.length ≤ xs.length)
    (hlength : xs.length < 2 ^ 64) (key : θ) (eq : κ → θ → m Bool) (next : Label) :
    (fun make => make next) <$> eraseKeyM xs key eq =
      (fun make => some (make next)) <$> xs.eraseKeyM key eq := by
  unfold eraseKeyM Chain.eraseKeyM
  rw [map_bind, map_bind]
  refine splitAtKeyM_bind_eq hxs key eq ?_ fun before rest hparts => ?_
  · simp only [map_pure]
    rfl
  · simp only [map_pure]
    rw [freezeOnto_eq before rest (by rw [length_freezeOnto]; omega)]

/-- The new pair comes first, in front of the cells after the match or, without one, of all. -/
theorem setKeyM_eq {xs : Chain (κ × ν)} (hxs : xs.cells.length ≤ xs.length)
    (hlength : xs.length + 1 < 2 ^ 64) (key : κ) (value : ν) (eq : κ → κ → m Bool) (next : Label) :
    (fun make => make next) <$> setKeyM xs key value eq =
      (fun make => some (make next)) <$> xs.setKeyM key value eq := by
  unfold setKeyM Chain.setKeyM
  rw [map_bind, map_bind]
  refine splitAtKeyM_bind_eq hxs key eq ?_ fun before rest hparts => ?_
  · simp only [map_pure]
    rw [cons_eq (key, value) hlength]
  · have hcons : (rest.cons (key, value) next).1.length = rest.length + 1 := rfl
    simp only [map_pure]
    congr 1
    show (cons (key, value) rest next).bind (fun made => freezeOnto before made.1 made.2) = _
    rw [cons_eq (key, value) (by omega), Option.bind_some]
    exact freezeOnto_eq before _ (by rw [length_freezeOnto]; omega)

end Keys

end Checked

end SharedList
