import SharedList.Proofs.Calling
import SharedList.Proofs.Traversing

/-!
# Where questions stop

A question about all elements, or about some, is settled by the first call of the closure that
answers so, and no call may come after it: the closure would do again whatever it does on a call.
The reference is the recursion that makes one call after the other until an answer decides; every
question about chains comes to it, and its answer is read off the calls that were made.

* `callUntil` — the reference.
* `StopsAt` — calls go through the arguments from the front, and the first that decides is the last.
* `CallsUntil` — an operation makes exactly the calls of the reference, and its result is made from
  them.
* `ask_callUntil` — a loop that stops where an answer decides; `decideFirst_callUntil` — the loop
  that compares two rows.
* `Chain.questions_stop_at_decision` — all questions do.
-/

set_option autoImplicit false

namespace SharedList

variable {m : Type → Type} [Monad m] {ι α β γ ρ : Type}

/-! ## Calls up to a decision -/

/-- Calls `f` with one argument after the other, and with no other after the first answer that
decides; gives the calls in their order. -/
def callUntil (decides : β → Bool) (f : ι → m β) : List ι → m (List (Call ι β))
  | [] => return []
  | arg :: args => do
    let answer ← f arg
    if decides answer then return [⟨arg, answer⟩]
    else return ⟨arg, answer⟩ :: (← callUntil decides f args)

namespace Call

/-- The first call whose answer decides. -/
def deciding (decides : β → Bool) (calls : List (Call ι β)) : Option (Call ι β) :=
  calls.find? fun call => decides call.answer

theorem deciding_cons_of_decides {decides : β → Bool} {call : Call ι β}
    (h : decides call.answer = true) (calls : List (Call ι β)) :
    deciding decides (call :: calls) = some call := List.find?_cons_of_pos h

theorem deciding_cons_of_not {decides : β → Bool} {call : Call ι β}
    (h : decides call.answer = false) (calls : List (Call ι β)) :
    deciding decides (call :: calls) = deciding decides calls :=
  List.find?_cons_of_neg (by simp [h])

/-- No call decides a question about all just when all were answered with yes. -/
theorem isNone_deciding_not (calls : List (Call ι Bool)) :
    (deciding (!·) calls).isNone = calls.all (·.answer) := by
  rw [deciding, Bool.eq_iff_iff, Option.isNone_iff_eq_none, List.find?_eq_none, List.all_eq_true]
  simp

/-- A call decides a question about some just when one was answered with yes. -/
theorem isSome_deciding_id (calls : List (Call ι Bool)) :
    (deciding id calls).isSome = calls.any (·.answer) := by
  rw [deciding, Bool.eq_iff_iff, List.find?_isSome, List.any_eq_true]
  rfl

end Call

/-- The calls are about `args`, one by one from the front; none before the last decides; and they
come to the end of `args` unless the last decides. -/
structure StopsAt (decides : β → Bool) (args : List ι) (calls : List (Call ι β)) : Prop where
  front : calls.map (·.arg) <+: args
  undecided : ∀ call ∈ calls.dropLast, decides call.answer = false
  complete : Call.deciding decides calls = none → calls.map (·.arg) = args

namespace StopsAt

variable {decides : β → Bool} {arg : ι} {args : List ι} {answer : β} {calls : List (Call ι β)}

theorem nil (decides : β → Bool) : StopsAt decides ([] : List ι) [] :=
  ⟨List.prefix_rfl, nofun, fun _ => rfl⟩

theorem decided (h : decides answer = true) : StopsAt decides (arg :: args) [⟨arg, answer⟩] := by
  refine ⟨List.prefix_append [arg] args, nofun, fun hnone => ?_⟩
  rw [Call.deciding_cons_of_decides h] at hnone
  cases hnone

theorem cons (h : decides answer = false) (hcalls : StopsAt decides args calls) :
    StopsAt decides (arg :: args) (⟨arg, answer⟩ :: calls) := by
  refine ⟨(List.prefix_cons_inj arg).mpr hcalls.front, fun call hcall => ?_, fun hnone => ?_⟩
  · cases calls with
    | nil => cases hcall
    | cons next calls =>
      rcases List.mem_cons.mp hcall with rfl | hcall
      · exact h
      · exact hcalls.undecided call hcall
  · rw [Call.deciding_cons_of_not h] at hnone
    rw [List.map_cons, hcalls.complete hnone]

end StopsAt

/-- The operation calls its closure for `args` from the front, up to the first answer that decides
and no further, whatever the closure does, and makes its result from these calls. -/
structure CallsUntil (decides : β → Bool) (args : List ι) (result : List (Call ι β) → ρ)
    (op : (m : Type → Type) → [Monad m] → (ι → m β) → m ρ) : Prop where
  /-- It does what the reference does. -/
  eq : ∀ (m : Type → Type) [Monad m] [LawfulMonad m] (f : ι → m β),
    op m f = result <$> callUntil decides f args
  /-- And where every call is noted, the calls of the reference are noted and no other. -/
  noted_eq : ∀ (m : Type → Type) [Monad m] [LawfulMonad m] (f : ι → m β),
    (op _ (noted f)).run [] = (fun calls => (result calls, calls)) <$> callUntil decides f args
  /-- The calls that were noted stop where one decides. -/
  stops : ∀ (m : Type → Type) [Monad m] [LawfulMonad m] (f : ι → m β),
    ∃ made : m {calls : List (Call ι β) // StopsAt decides args calls},
      (op _ (noted f)).run [] = (fun calls => (result calls.1, calls.1)) <$> made

section Lawful

variable [LawfulMonad m]

/-- The calls of the reference stop where one decides. -/
theorem exists_stopsAt (decides : β → Bool) (f : ι → m β) (args : List ι) :
    ∃ made : m {calls : List (Call ι β) // StopsAt decides args calls},
      callUntil decides f args = (fun calls => calls.1) <$> made := by
  induction args with
  | nil => exact ⟨pure ⟨[], .nil decides⟩, by simp [callUntil]⟩
  | cons arg args ih =>
    obtain ⟨made, hmade⟩ := ih
    refine ⟨f arg >>= fun answer =>
      if h : decides answer = true then pure ⟨[⟨arg, answer⟩], .decided h⟩
      else (fun calls => ⟨⟨arg, answer⟩ :: calls.1, calls.2.cons (by simpa using h)⟩) <$> made, ?_⟩
    rw [callUntil, map_bind, hmade]
    congr 1
    funext answer
    by_cases h : decides answer = true
    · simp [h]
    · simp [h]

/-- The reference notes the calls that it gives. -/
theorem callUntil_noted (decides : β → Bool) (f : ι → m β) (args : List ι)
    (before : List (Call ι β)) :
    (callUntil decides (noted f) args).run before =
      (fun calls => (calls, before ++ calls)) <$> callUntil decides f args := by
  induction args generalizing before with
  | nil => simp [callUntil]
  | cons arg args ih =>
    have hnote : (noted f arg).run before =
        (fun answer => (answer, before ++ [⟨arg, answer⟩])) <$> f arg := by
      rw [map_eq_pure_bind]
      rfl
    rw [callUntil, callUntil, StateT.run_bind, hnote, bind_map_left, map_bind]
    congr 1
    funext answer
    cases h : decides answer with
    | true => simp
    | false => simp [ih]

end Lawful

/-- What does as the reference does, for every closure, notes the same calls. -/
theorem CallsUntil.of_eq {decides : β → Bool} {args : List ι} {result : List (Call ι β) → ρ}
    {op : (m : Type → Type) → [Monad m] → (ι → m β) → m ρ}
    (h : ∀ (m : Type → Type) [Monad m] [LawfulMonad m] (f : ι → m β),
      op m f = result <$> callUntil decides f args) : CallsUntil decides args result op := by
  have hnoted : ∀ (m : Type → Type) [Monad m] [LawfulMonad m] (f : ι → m β),
      (op _ (noted f)).run [] =
        (fun calls => (result calls, calls)) <$> callUntil decides f args := by
    intro m _ _ f
    rw [h, StateT.run_map, callUntil_noted]
    simp
  refine ⟨h, hnoted, fun m _ _ f => ?_⟩
  obtain ⟨made, hmade⟩ := exists_stopsAt decides f args
  refine ⟨made, ?_⟩
  rw [hnoted, hmade, ← comp_map]
  rfl

/-! ## Loops that stop -/

section Loops

variable [LawfulMonad m]

/-- A loop that stops where an answer decides goes through the calls of the reference, and ends with
what is made of them, if nothing is made of the calls that do not decide. -/
theorem ask_callUntil {decides : β → Bool} {f : ι → m β} {result : List (Call ι β) → ρ}
    (ask : List ι → m ρ) (hnil : ask [] = pure (result []))
    (hcons : ∀ arg args, ask (arg :: args) = f arg >>= fun answer =>
      if decides answer then pure (result [⟨arg, answer⟩]) else ask args)
    (hpassed : ∀ call calls, decides call.answer = false → result (call :: calls) = result calls)
    (args : List ι) : ask args = result <$> callUntil decides f args := by
  induction args with
  | nil => simp [hnil, callUntil]
  | cons arg args ih =>
    rw [hcons, callUntil, map_bind]
    congr 1
    funext answer
    cases h : decides answer with
    | true => simp
    | false => simp [ih, hpassed ⟨arg, answer⟩ _ h]

theorem askAll_callUntil (p : ι → m Bool) (args : List ι) :
    Chain.allM.ask p args =
      (fun calls => (Call.deciding (!·) calls).isNone) <$> callUntil (!·) p args := by
  refine ask_callUntil (Chain.allM.ask p) rfl (fun arg args => ?_) (fun call calls h => ?_) args
  · rw [Chain.allM.ask]
    congr 1
    funext answer
    cases answer <;> rfl
  · rw [Call.deciding_cons_of_not h]

theorem askAny_callUntil (p : ι → m Bool) (args : List ι) :
    Chain.anyM.ask p args =
      (fun calls => (Call.deciding id calls).isSome) <$> callUntil id p args := by
  refine ask_callUntil (Chain.anyM.ask p) rfl (fun arg args => ?_) (fun call calls h => ?_) args
  · rw [Chain.anyM.ask]
    congr 1
    funext answer
    cases answer <;> rfl
  · rw [Call.deciding_cons_of_not h]

theorem askFind_callUntil (p : ι → m Bool) (args : List ι) :
    Chain.find?M.ask p args =
      (fun calls => (Call.deciding id calls).map (·.arg)) <$> callUntil id p args := by
  refine ask_callUntil (Chain.find?M.ask p) rfl (fun arg args => ?_) (fun call calls h => ?_) args
  · rw [Chain.find?M.ask]
    congr 1
    funext answer
    cases answer <;> rfl
  · rw [Call.deciding_cons_of_not h]

/-- The loop that looks for a position counts on from `index`. -/
theorem askFindIdx_callUntil (p : ι → m Bool) (index : Nat) (args : List ι) :
    Chain.findIdx?M.ask p index args =
      (fun calls => (calls.findIdx? (·.answer)).map (· + index)) <$> callUntil id p args := by
  induction args generalizing index with
  | nil => simp [Chain.findIdx?M.ask, callUntil]
  | cons arg args ih =>
    rw [Chain.findIdx?M.ask, callUntil, map_bind]
    congr 1
    funext answer
    cases answer with
    | true => simp
    | false => simp [ih, List.findIdx?_cons, Function.comp_def, Nat.add_assoc, Nat.add_comm 1]

/-- The loop that compares two rows ends with the order of their lengths where no pair decides. -/
theorem decideFirst_callUntil (cmp : α → β → m Ordering) (xs : List α) (ys : List β) :
    Chain.compareM.decideFirst cmp xs ys =
      (fun calls => ((Call.deciding (· != .eq) calls).map (·.answer)).getD
        (compare xs.length ys.length)) <$>
        callUntil (· != .eq) (fun pair => cmp pair.1 pair.2) (xs.zip ys) := by
  induction xs generalizing ys with
  | nil =>
    cases ys with
    | nil => simp [Chain.compareM.decideFirst, callUntil, Call.deciding]
    | cons y ys =>
      simp [Chain.compareM.decideFirst, callUntil, Call.deciding, Nat.compare_eq_ite_lt]
  | cons x xs ih =>
    cases ys with
    | nil => simp [Chain.compareM.decideFirst, callUntil, Call.deciding, Nat.compare_eq_ite_lt]
    | cons y ys =>
      -- One element less on both sides does not change which row is longer.
      have hlengths : compare (x :: xs).length (y :: ys).length = compare xs.length ys.length := by
        simp [Nat.compare_eq_ite_lt]
      rw [Chain.compareM.decideFirst, List.zip_cons_cons, callUntil, map_bind, hlengths]
      congr 1
      funext answer
      cases answer with
      | lt => simp [Call.deciding]
      | eq => simp [Call.deciding, ih]
      | gt => simp [Call.deciding]

/-- A question about all pairs is the opposite of one about some, with the opposite answers. -/
theorem askAll_eq_not_askAny (p : ι → m Bool) (args : List ι) :
    Chain.allM.ask p args = (!·) <$> Chain.anyM.ask (fun arg => (!·) <$> p arg) args := by
  induction args with
  | nil => simp [Chain.allM.ask, Chain.anyM.ask]
  | cons arg args ih =>
    rw [Chain.allM.ask, Chain.anyM.ask, map_bind, bind_map_left]
    congr 1
    funext answer
    cases answer with
    | true => simp [ih]
    | false => simp

end Loops

/-! ## Questions about chains -/

namespace Chain

variable (xs : Chain α) (ys : Chain β)

theorem callsUntil_allM :
    CallsUntil (!·) xs.toList (fun calls => (Call.deciding (!·) calls).isNone)
      fun _ _ p => xs.allM p :=
  .of_eq fun _ _ _ p => askAll_callUntil p xs.toList

theorem callsUntil_anyM :
    CallsUntil id xs.toList (fun calls => (Call.deciding id calls).isSome)
      fun _ _ p => xs.anyM p :=
  .of_eq fun _ _ _ p => askAny_callUntil p xs.toList

/-- Every call is given the element first and the value looked for second. -/
theorem callsUntil_containsM (y : β) :
    CallsUntil id (xs.toList.map (·, y)) (fun calls => (Call.deciding id calls).isSome)
      fun _ _ eq => xs.containsM y fun x y => eq (x, y) := by
  refine .of_eq fun _ _ _ eq => ?_
  rw [← askAny_callUntil]
  show anyM.ask (fun x => eq (x, y)) xs.toList = _
  induction xs.toList with
  | nil => rfl
  | cons x rest ih => rw [List.map_cons, anyM.ask, anyM.ask, ih]

theorem callsUntil_find?M :
    CallsUntil id xs.toList (fun calls => (Call.deciding id calls).map (·.arg))
      fun _ _ p => xs.find?M p :=
  .of_eq fun _ _ _ p => askFind_callUntil p xs.toList

theorem callsUntil_findIdx?M :
    CallsUntil id xs.toList (fun calls => calls.findIdx? (·.answer))
      fun _ _ p => xs.findIdx?M p := by
  refine .of_eq fun _ _ _ p => ?_
  have hask := askFindIdx_callUntil p 0 xs.toList
  simp only [Nat.add_zero, Option.map_id'] at hask
  exact hask

theorem callsUntil_allM₂ :
    CallsUntil (!·) (xs.toList.zip ys.toList) (fun calls => (Call.deciding (!·) calls).isNone)
      fun _ _ p => xs.allM₂ ys fun x y => p (x, y) := by
  refine .of_eq fun _ _ _ p => ?_
  rw [allM₂_eq]
  exact askAll_callUntil p (xs.toList.zip ys.toList)

theorem callsUntil_anyM₂ :
    CallsUntil id (xs.toList.zip ys.toList) (fun calls => (Call.deciding id calls).isSome)
      fun _ _ p => xs.anyM₂ ys fun x y => p (x, y) := by
  refine .of_eq fun _ _ _ p => ?_
  rw [anyM₂_eq]
  exact askAny_callUntil p (xs.toList.zip ys.toList)

theorem allM₂_eq_not_anyM₂ {m : Type → Type} [Monad m] [LawfulMonad m] (p : α → β → m Bool) :
    xs.allM₂ ys p = (!·) <$> xs.anyM₂ ys fun x y => (!·) <$> p x y := by
  rw [allM₂_eq, anyM₂_eq]
  exact askAll_eq_not_askAny (fun pair => p pair.1 pair.2) (xs.toList.zip ys.toList)

variable {xs ys}

theorem callsUntil_equalM (hlength : xs.length = ys.length) :
    CallsUntil (!·) (xs.toList.zip ys.toList) (fun calls => (Call.deciding (!·) calls).isNone)
      fun _ _ eq => xs.equalM ys fun x y => eq (x, y) := by
  refine .of_eq fun m _ _ eq => ?_
  rw [← (callsUntil_allM₂ xs ys).eq, equalM, if_pos hlength]

theorem callsUntil_compareM (hxs : xs.WellFormed) (hys : ys.WellFormed) :
    CallsUntil (· != .eq) (xs.toList.zip ys.toList)
      (fun calls => ((Call.deciding (· != .eq) calls).map (·.answer)).getD (xs.compareLength ys))
      fun _ _ cmp => xs.compareM ys fun x y => cmp (x, y) := by
  refine .of_eq fun m _ _ cmp => ?_
  have hlengths : xs.compareLength ys = compare xs.toList.length ys.toList.length := by
    rw [compareLength, hxs.toList_length, hys.toList_length]
  rw [hlengths]
  exact decideFirst_callUntil (fun x y => cmp (x, y)) xs.toList ys.toList

/-- **Every question stops right after the call that decides it**, whatever the closure does on a
call and wherever a chain ends.  The calls are about the elements, or about the pairs below the
shorter length, from the front; and the answer is that of the call that decides, or the one for
which there is none.  Chains of different lengths are not equal, and no call is made to see that;
and to ask whether all pairs are so is to ask, by the same calls, whether some are not. -/
theorem questions_stop_at_decision (hxs : xs.WellFormed) (hys : ys.WellFormed) :
    -- Of one chain
    CallsUntil (!·) xs.toList (fun calls => (Call.deciding (!·) calls).isNone)
      (fun _ _ p => xs.allM p) ∧
    CallsUntil id xs.toList (fun calls => (Call.deciding id calls).isSome)
      (fun _ _ p => xs.anyM p) ∧
    (∀ y : β, CallsUntil id (xs.toList.map (·, y)) (fun calls => (Call.deciding id calls).isSome)
      fun _ _ eq => xs.containsM y fun x y => eq (x, y)) ∧
    CallsUntil id xs.toList (fun calls => (Call.deciding id calls).map (·.arg))
      (fun _ _ p => xs.find?M p) ∧
    CallsUntil id xs.toList (fun calls => calls.findIdx? (·.answer))
      (fun _ _ p => xs.findIdx?M p) ∧
    -- Of two chains
    CallsUntil (!·) (xs.toList.zip ys.toList) (fun calls => (Call.deciding (!·) calls).isNone)
      (fun _ _ p => xs.allM₂ ys fun x y => p (x, y)) ∧
    CallsUntil id (xs.toList.zip ys.toList) (fun calls => (Call.deciding id calls).isSome)
      (fun _ _ p => xs.anyM₂ ys fun x y => p (x, y)) ∧
    (xs.length = ys.length →
      CallsUntil (!·) (xs.toList.zip ys.toList) (fun calls => (Call.deciding (!·) calls).isNone)
        fun _ _ eq => xs.equalM ys fun x y => eq (x, y)) ∧
    (xs.length ≠ ys.length → ∀ (m : Type → Type) [Monad m] (eq : α → β → m Bool),
      xs.equalM ys eq = pure false) ∧
    CallsUntil (· != .eq) (xs.toList.zip ys.toList)
      (fun calls => ((Call.deciding (· != .eq) calls).map (·.answer)).getD (xs.compareLength ys))
      (fun _ _ cmp => xs.compareM ys fun x y => cmp (x, y)) ∧
    -- All and some
    (∀ (m : Type → Type) [Monad m] [LawfulMonad m] (p : α × β → m Bool),
      (xs.allM₂ ys fun x y => p (x, y)) =
          (!·) <$> (xs.anyM₂ ys fun x y => (!·) <$> p (x, y)) ∧
        (xs.allM₂ ys fun x y => noted p (x, y)).run [] =
          (fun done => (!done.1, done.2)) <$>
            (xs.anyM₂ ys fun x y => (!·) <$> noted p (x, y)).run []) ∧
    -- What the answers amount to
    ∀ calls : List (Call α Bool), (Call.deciding (!·) calls).isNone = calls.all (·.answer) ∧
      (Call.deciding id calls).isSome = calls.any (·.answer) := by
  refine ⟨xs.callsUntil_allM, xs.callsUntil_anyM, xs.callsUntil_containsM, xs.callsUntil_find?M,
    xs.callsUntil_findIdx?M, xs.callsUntil_allM₂ ys, xs.callsUntil_anyM₂ ys, callsUntil_equalM,
    fun hne m _ eq => if_neg hne, callsUntil_compareM hxs hys, fun m _ _ p => ⟨?_, ?_⟩,
    fun calls => ⟨Call.isNone_deciding_not calls, Call.isSome_deciding_id calls⟩⟩
  · exact allM₂_eq_not_anyM₂ xs ys fun x y => p (x, y)
  · rw [allM₂_eq_not_anyM₂, StateT.run_map]

/-- A closure that counts its calls finds a number at the second, learns at the last that another is
there, and is not called again once two chains that share cells differ. -/
theorem questions_stop_in_shared :
    let xs : Chain Nat := ⟨[⟨2, 10⟩, ⟨1, 20⟩, ⟨0, 30⟩], 3⟩
    let ys : Chain Nat := ⟨[⟨1, 20⟩, ⟨0, 30⟩], 2⟩
    let isAt (n : Nat) : Nat → StateM Nat Bool := fun x calls => (x == n, calls + 1)
    let order : Nat × Nat → StateM Nat Ordering := fun p calls => (compare p.1 p.2, calls + 1)
    xs.WellFormed ∧ ys.WellFormed ∧
      xs.findIdx?M (isAt 20) 0 = (some 1, 2) ∧ xs.anyM (isAt 30) 0 = (true, 3) ∧
      (xs.compareM ys fun x y => order (x, y)) 0 = (.lt, 1) ∧
      (xs.equalM ys fun x => isAt x) 0 = (false, 0) := by
  intro xs ys isAt order
  have hxs : xs.WellFormed := ⟨rfl, by decide⟩
  have hys : ys.WellFormed := ⟨rfl, by decide⟩
  obtain ⟨-, hany, -, -, hfind, -, -, -, hunequal, hcompare, -⟩ :=
    questions_stop_at_decision hxs hys
  refine ⟨hxs, hys, ?_, ?_, ?_, ?_⟩
  · rw [hfind.eq]
    rfl
  · rw [hany.eq]
    rfl
  · rw [hcompare.eq]
    rfl
  · rw [hunequal (by decide)]
    rfl

end Chain

end SharedList
