import Mathlib.Logic.Function.Basic
import SharedList.Chain.Cursor
import SharedList.Proofs.Growth

/-!
# Readers and what they are asked

Both kinds of reader count down beside the cells that they go along, and what collects their
elements trusts the count.  The reference is a place in the row of a chain's elements: asked for the
next element it moves on by one, and the number of elements to come is what lies behind it.

* `Script` — the replies of whatever is asked again and again, and of several that are asked in
  turns.  `Script.replies_eq` is the run lemma: what replies alike once, and stays related, replies
  alike to every script; `Script.of_interleaved` takes one of several out.
* `Row.reply` — the reference.
* `Opened` — a reader of either kind; what it does is said of the chain that lies ahead of it.
* `Cell.readAll_eq` — what both kinds do to read all that is left.
* `Opened.reply_spec` — one request: a reader replies as the reference does, and moves along with
  it.
* `Opened.Exact` — what a reader tells is what is to come.
* `Chain.run_cursor`, `Chain.run_drain` — both kinds reply to a script as the reference does.
-/

set_option autoImplicit false

namespace SharedList

variable {α β σ τ ι : Type}

/-! ## Scripts -/

namespace Script

/-- What has become of it after the script. -/
def after (reply : σ → Request → Reply α × σ) (s : σ) (script : List Request) : σ :=
  script.foldl (fun s request => (reply s request).2) s

/-- **Run lemma**: what replies alike to one request, and stays related, does so for a script. -/
theorem replies_eq {reply : σ → Request → Reply α × σ} {reply' : τ → Request → Reply α × τ}
    {related : σ → τ → Prop}
    (hstep : ∀ s t, related s t → ∀ request,
      (reply s request).1 = (reply' t request).1 ∧ related (reply s request).2 (reply' t request).2)
    {s : σ} {t : τ} (h : related s t) (script : List Request) :
    replies reply s script = replies reply' t script ∧
      related (after reply s script) (after reply' t script) := by
  induction script generalizing s t with
  | nil => exact ⟨rfl, h⟩
  | cons request script ih =>
    obtain ⟨hreply, hrelated⟩ := hstep s t h request
    obtain ⟨hreplies, hafter⟩ := ih hrelated
    refine ⟨?_, hafter⟩
    rw [replies, replies, hreply, hreplies]

/-- What replies as what it contains does replies so to a script. -/
theorem replies_comp {reply : σ → Request → Reply α × σ} {reply' : τ → Request → Reply α × τ}
    (around : σ → τ) (hstep : ∀ s request,
      reply' (around s) request = ((reply s request).1, around (reply s request).2))
    (s : σ) (script : List Request) :
    replies reply' (around s) script = replies reply s script := by
  induction script generalizing s with
  | nil => rfl
  | cons request script ih => rw [replies, replies, hstep, ih]

/-- The replies of several that are asked in turns. -/
def interleaved [DecidableEq ι] (reply : σ → Request → Reply α × σ) :
    (ι → σ) → List (ι × Request) → List (ι × Reply α)
  | _, [] => []
  | states, (i, request) :: script =>
    (i, (reply (states i) request).1) ::
      interleaved reply (Function.update states i (reply (states i) request).2) script

/-- What is said to one of several, or by it. -/
def of [DecidableEq ι] (i : ι) (said : List (ι × β)) : List β :=
  said.filterMap fun entry => if entry.1 = i then some entry.2 else none

/-- One of several replies as it does by itself. -/
theorem of_interleaved [DecidableEq ι] (reply : σ → Request → Reply α × σ) (states : ι → σ)
    (script : List (ι × Request)) (i : ι) :
    of i (interleaved reply states script) = replies reply (states i) (of i script) := by
  induction script generalizing states with
  | nil => rfl
  | cons entry script ih =>
    obtain ⟨j, request⟩ := entry
    have ih := ih (Function.update states j (reply (states j) request).2)
    unfold of at ih ⊢
    rw [interleaved, List.filterMap_cons, List.filterMap_cons, ih]
    by_cases h : j = i
    · subst h
      simp [replies]
    · have hi : i ≠ j := fun heq => h heq.symm
      simp [h, Function.update_of_ne hi]

end Script

/-! ## The reference -/

/-- The reply to one request of a cursor at a place of a row, and the place after it. -/
def Row.reply (row : List α) (place : Nat) : Request → Reply α × Nat
  | .next => (.item row[place]?, min (place + 1) row.length)
  | .length => (.length (row.length - place), place)
  | .sizeHint => (.sizeHint (row.length - place) (some (row.length - place)), place)
  | .peekRest => (.items (row.drop place), place)
  | .rest => (.items (row.drop place), row.length)

/-- The reply to a request where nothing is to come any more. -/
def Reply.spent : Request → Reply α
  | .next => .item none
  | .length => .length 0
  | .sizeHint => .sizeHint 0 (some 0)
  | .peekRest | .rest => .items []

/-- At the end of the row the reference stays there. -/
theorem Row.replies_spent (row : List α) (script : List Request) :
    Script.replies (Row.reply row) row.length script = script.map Reply.spent := by
  induction script with
  | nil => rfl
  | cons request script ih =>
    have hreply : Row.reply row row.length request = (Reply.spent request, row.length) := by
      cases request <;> simp [Row.reply, Reply.spent]
    rw [Script.replies, hreply, ih, List.map_cons]

/-- Asked for the next element once more than there are elements to come, the reference gives out
these and then none. -/
theorem Row.replies_next (row : List α) {place n : Nat} (h : place + n = row.length) :
    Script.replies (Row.reply row) place (List.replicate (n + 1) .next) =
      (row.drop place).map (fun x => .item (some x)) ++ [.item none] := by
  induction n generalizing place with
  | zero =>
    obtain rfl : place = row.length := h
    rw [Row.replies_spent, List.drop_length]
    rfl
  | succ n ih =>
    have hplace : place < row.length := by omega
    have hmin : min (place + 1) row.length = place + 1 := by omega
    rw [List.replicate_succ, Script.replies, Row.reply, hmin, ih (by omega),
      List.getElem?_eq_getElem hplace, List.drop_eq_getElem_cons hplace, List.map_cons,
      List.cons_append]

/-! ## Readers of either kind -/

/-- A reader of either kind. -/
inductive Opened (α : Type) where
  | borrowing (c : Cursor α)
  | owning (d : Drain α)

theorem Cell.readAll_eq (cells : List (Cell α)) (remaining : Nat) (read : List α) :
    readAll cells remaining read =
      (read.reverse ++ cells.map (·.value), remaining - cells.length) := by
  induction cells generalizing remaining read with
  | nil => simp [readAll]
  | cons cell rest ih =>
    rw [readAll, ih, Nat.sub_sub, Nat.add_comm 1]
    simp

namespace Opened

/-- What lies ahead: the cells to come, and how many they are said to be. -/
def ahead : Opened α → Chain α
  | borrowing c => ⟨c.ahead, c.remaining⟩
  | owning d => d.chain

/-- A reader of the same kind with another chain ahead. -/
def moved : Opened α → Chain α → Opened α
  | borrowing _, xs => borrowing xs.cursor
  | owning _, xs => owning xs.drain

@[simp] theorem ahead_moved (r : Opened α) (xs : Chain α) : (r.moved xs).ahead = xs := by
  cases r <;> rfl

@[simp] theorem moved_ahead (r : Opened α) : r.moved r.ahead = r := by
  cases r <;> rfl

@[simp] theorem moved_moved (r : Opened α) (xs ys : Chain α) :
    (r.moved xs).moved ys = r.moved ys := by
  cases r <;> rfl

/-- The next element, and the reader after it. -/
def next? : Opened α → Option (α × Opened α)
  | borrowing c => c.next?.map fun (x, later) => (x, borrowing later)
  | owning d => d.next?.map fun (x, later) => (x, owning later)

/-- Least and greatest number of elements to come. -/
def sizeHint : Opened α → Nat × Option Nat
  | borrowing c => c.sizeHint
  | owning d => d.sizeHint

/-- All that is left, and the reader after that. -/
def exhaust : Opened α → List α × Opened α
  | borrowing c => (c.exhaust.1, borrowing c.exhaust.2)
  | owning d => (d.exhaust.1, owning d.exhaust.2)

/-- The reply to one request, and the reader after it. -/
def reply : Opened α → Request → Reply α × Opened α
  | borrowing c, request => ((c.reply request).1, borrowing (c.reply request).2)
  | owning d, request => ((d.reply request).1, owning (d.reply request).2)

/-! ### What a reader does is done to the chain ahead -/

theorem next?_eq (r : Opened α) :
    r.next? = r.ahead.uncons?.map fun (x, rest) => (x, r.moved rest) := by
  cases r with
  | borrowing c =>
    obtain ⟨cells, remaining⟩ := c
    cases cells <;> rfl
  | owning d =>
    obtain ⟨cells, length⟩ := d
    cases cells <;> rfl

theorem sizeHint_eq (r : Opened α) : r.sizeHint = (r.ahead.length, some r.ahead.length) := by
  cases r <;> rfl

theorem exhaust_eq (r : Opened α) :
    r.exhaust = (r.ahead.toList, r.moved ⟨[], r.ahead.length - r.ahead.cells.length⟩) := by
  cases r with
  | borrowing c =>
    rw [exhaust, Cursor.exhaust, Cell.readAll_eq]
    rfl
  | owning d =>
    rw [exhaust, Drain.exhaust, Cell.readAll_eq]
    rfl

/-- A reader of either kind replies by the three things that it does. -/
theorem reply_eq (r : Opened α) (request : Request) :
    r.reply request = request.reply next? sizeHint exhaust r := by
  cases request with
  | next =>
    obtain ⟨_ | ⟨cell, rest⟩, count⟩ | ⟨⟨_ | ⟨cell, rest⟩, count⟩⟩ := r <;> rfl
  | length | sizeHint | peekRest | rest => cases r <;> rfl

theorem replies_borrowing (c : Cursor α) (script : List Request) :
    Script.replies reply (.borrowing c) script = c.run script :=
  Script.replies_comp borrowing (fun _ _ => rfl) c script

theorem replies_owning (d : Drain α) (script : List Request) :
    Script.replies reply (.owning d) script = d.run script :=
  Script.replies_comp owning (fun _ _ => rfl) d script

/-- Reading all that is left is reading the next element for as long as there is one. -/
theorem exhaust_eq_next? (r : Opened α) :
    r.exhaust =
      match r.next? with
      | none => ([], r)
      | some (x, later) => (x :: later.exhaust.1, later.exhaust.2) := by
  have hahead := r.moved_ahead
  rw [next?_eq, exhaust_eq]
  unfold Chain.uncons? Chain.toList
  generalize r.ahead = xs at hahead ⊢
  obtain ⟨cells, length⟩ := xs
  cases cells with
  | nil => simpa using hahead
  | cons cell rest =>
    have hcount : length - (rest.length + 1) = length - 1 - rest.length := by omega
    simp [exhaust_eq, Chain.toList, hcount]

/-- The reader has the cells of a chain ahead, from a place of the chain on. -/
structure StandsAt (xs : Chain α) (r : Opened α) (place : Nat) : Prop where
  ahead : r.ahead = xs.suffix place
  le : place ≤ xs.length

/-- A reader that owns a chain stands at its front. -/
theorem standsAt_owning (d : Drain α) : (owning d).StandsAt d.chain 0 := ⟨rfl, Nat.zero_le _⟩

end Opened

namespace Chain

/-- The readers that a chain opens: one that borrows it, and one that owns a handle on it. -/
def readers (xs : Chain α) : List (Opened α) := [.borrowing xs.cursor, .owning xs.drain]

theorem standsAt_readers {xs : Chain α} {r : Opened α} (hr : r ∈ xs.readers) :
    r.StandsAt xs 0 := by
  rcases List.mem_cons.mp hr with rfl | hr
  · exact ⟨rfl, Nat.zero_le _⟩
  · rw [List.mem_singleton.mp hr]
    exact Opened.standsAt_owning xs.drain

theorem uncons?_suffix (xs : Chain α) (place : Nat) :
    (xs.suffix place).uncons? = xs.toList[place]?.map fun x => (x, xs.suffix (place + 1)) := by
  have hlater : xs.length - place - 1 = xs.length - (place + 1) := by omega
  unfold uncons? suffix toList
  rw [List.getElem?_map, ← List.head?_drop, ← List.tail_drop, ← hlater]
  cases xs.cells.drop place <;> rfl

end Chain

namespace Opened

section Standing

variable {xs : Chain α} {r : Opened α} {place : Nat}

theorem StandsAt.next?_eq (h : r.StandsAt xs place) :
    r.next? = xs.toList[place]?.map fun x => (x, r.moved (xs.suffix (place + 1))) := by
  rw [Opened.next?_eq, h.ahead, Chain.uncons?_suffix, Option.map_map]
  rfl

theorem StandsAt.sizeHint_eq (h : r.StandsAt xs place) :
    r.sizeHint = (xs.length - place, some (xs.length - place)) := by
  rw [Opened.sizeHint_eq, h.ahead]
  rfl

theorem StandsAt.exhaust_eq (hxs : xs.WellFormed) (h : r.StandsAt xs place) :
    r.exhaust = (xs.toList.drop place, r.moved (xs.suffix xs.length)) := by
  have hend : xs.suffix xs.length = ⟨[], 0⟩ := by
    rw [Chain.suffix, Nat.sub_self, hxs.length_eq, List.drop_length]
  have hcount : (xs.suffix place).length - (xs.suffix place).cells.length = 0 := by
    rw [Chain.suffix, List.length_drop, hxs.length_eq, Nat.sub_self]
  rw [Opened.exhaust_eq, h.ahead, hcount, Chain.toList_suffix, hend]

/-- **Step lemma**: a reader replies to a request as the reference does, and moves along with it. -/
theorem reply_spec (hxs : xs.WellFormed) (h : r.StandsAt xs place) (request : Request) :
    (r.reply request).1 = (Row.reply xs.toList place request).1 ∧
      (r.reply request).2.StandsAt xs (Row.reply xs.toList place request).2 := by
  have hlen := hxs.toList_length
  rw [reply_eq]
  cases request with
  | next =>
    rw [Request.reply, h.next?_eq, Row.reply, hlen]
    by_cases hplace : place < xs.length
    · have hmin : min (place + 1) xs.length = place + 1 := by omega
      rw [List.getElem?_eq_getElem (by omega), hmin]
      exact ⟨rfl, ahead_moved _ _, hplace⟩
    · have hmin : min (place + 1) xs.length = place := by
        have := h.le
        omega
      rw [List.getElem?_eq_none (by omega), hmin]
      exact ⟨rfl, h⟩
  | length =>
    rw [Request.reply, h.sizeHint_eq, Row.reply, hlen]
    exact ⟨rfl, h⟩
  | sizeHint =>
    rw [Request.reply, h.sizeHint_eq, Row.reply, hlen]
    exact ⟨rfl, h⟩
  | peekRest =>
    rw [Request.reply, h.exhaust_eq hxs]
    exact ⟨rfl, h⟩
  | rest =>
    rw [Request.reply, h.exhaust_eq hxs, Row.reply, hlen]
    exact ⟨rfl, ahead_moved _ _, Nat.le_refl _⟩

/-- The same for a script. -/
theorem replies_spec (hxs : xs.WellFormed) (h : r.StandsAt xs place) (script : List Request) :
    Script.replies reply r script = Script.replies (Row.reply xs.toList) place script ∧
      (Script.after reply r script).StandsAt xs
        (Script.after (Row.reply xs.toList) place script) := by
  have hstep : ∀ (r : Opened α) (place : Nat), r.StandsAt xs place → ∀ request,
      (r.reply request).1 = (Row.reply xs.toList place request).1 ∧
        (r.reply request).2.StandsAt xs (Row.reply xs.toList place request).2 :=
    fun r place => reply_spec hxs
  have hrun := Script.replies_eq hstep h script
  exact hrun

/-- What the reader tells is what is to come. -/
structure Exact (xs : Chain α) (r : Opened α) (place : Nat) : Prop where
  /-- The cells ahead are the chain's own. -/
  standsAt : r.StandsAt xs place
  /-- Reading on would give the elements from the place on. -/
  rest : r.exhaust.1 = xs.toList.drop place
  /-- The hint is the number of these, on either side. -/
  hint : r.sizeHint = (r.exhaust.1.length, some r.exhaust.1.length)
  /-- A step that gives an element counts down, and not from zero. -/
  counts : ∀ x later, r.next? = some (x, later) → r.sizeHint.1 = later.sizeHint.1 + 1
  /-- After a step that gives none no step ever gives one, and the count is zero and stays so. -/
  spent : r.next? = none → ∀ script, Script.replies reply r script = script.map Reply.spent
  /-- What a copy of the reader reads does not move the reader. -/
  copy : r.reply .peekRest = (.items r.exhaust.1, r)

theorem StandsAt.exact (hxs : xs.WellFormed) (h : r.StandsAt xs place) : r.Exact xs place := by
  have hlen := hxs.toList_length
  refine ⟨h, by rw [h.exhaust_eq hxs], ?_, fun x later hnext => ?_, fun hnone script => ?_,
    r.reply_eq .peekRest⟩
  · rw [h.sizeHint_eq, h.exhaust_eq hxs, List.length_drop, hlen]
  · rw [h.next?_eq, Option.map_eq_some_iff] at hnext
    obtain ⟨y, hy, hlater⟩ := hnext
    cases hlater
    obtain ⟨hplace, -⟩ := List.getElem?_eq_some_iff.mp hy
    rw [h.sizeHint_eq, Opened.sizeHint_eq, ahead_moved, Chain.suffix]
    show xs.length - place = xs.length - (place + 1) + 1
    omega
  · rw [h.next?_eq, Option.map_eq_none_iff, List.getElem?_eq_none_iff] at hnone
    have hend : place = xs.toList.length := by
      have := h.le
      omega
    rw [(replies_spec hxs h script).1, hend, Row.replies_spent]

end Standing

end Opened

/-! ## The readers of a chain -/

namespace Chain

section Replies

variable {xs : Chain α} (hxs : xs.WellFormed) (script : List Request)
include hxs

theorem run_cursor : xs.cursor.run script = Script.replies (Row.reply xs.toList) 0 script := by
  rw [← Opened.replies_borrowing]
  exact (Opened.replies_spec hxs (standsAt_readers List.mem_cons_self) script).1

theorem run_drain : xs.drain.run script = Script.replies (Row.reply xs.toList) 0 script := by
  rw [← Opened.replies_owning]
  exact (Opened.replies_spec hxs (Opened.standsAt_owning xs.drain) script).1

/-- An owning reader comes to where the reference comes. -/
theorem after_drain : Script.after Drain.reply xs.drain script =
    (xs.suffix (Script.after (Row.reply xs.toList) 0 script)).drain := by
  have hstep : ∀ (d : Drain α) (place : Nat), (Opened.owning d).StandsAt xs place → ∀ request,
      (d.reply request).1 = (Row.reply xs.toList place request).1 ∧
        (Opened.owning (d.reply request).2).StandsAt xs (Row.reply xs.toList place request).2 :=
    fun d place => Opened.reply_spec hxs
  have hchain := (Script.replies_eq hstep (Opened.standsAt_owning xs.drain) script).2.ahead
  exact congrArg Drain.mk hchain

end Replies

end Chain

end SharedList
