import SharedList.Chain.Fold
import SharedList.Chain.Map
import SharedList.Proofs.Growth

/-!
# What traversals call

A closure may do anything on a call: change a state of its own, report, or fail.  So it matters how
often it is called, in which order and with what.  The reference is a recursion over the arguments
that makes one call after the other and gives the calls made; every full traversal of a chain comes
to it, and makes its result from those very calls.

* `callEach`, `callOn` — the reference, for closures that are given each argument, and for closures
  that are also given the answer to the call before.
* `noted` — a closure every call of which is noted.
* `CallsEach`, `CallsOn` — an operation makes exactly these calls, and its result is made from them.
* `foldlM_calls` — a loop that calls once in each round and goes on from what it has and the answer.
* `mapM_pure`, `filterM_pure` — what this comes to for closures without effects.
* `traversals_call_each_once` — all full traversals do.
-/

set_option autoImplicit false

namespace SharedList

variable {m : Type → Type} [Monad m] {ι α β γ δ ρ : Type}

/-! ## Calls -/

/-- A call of a closure: what it was given and what it answered. -/
structure Call (ι β : Type) where
  arg : ι
  answer : β

/-- Calls `f` with one argument after the other, and gives the calls in their order. -/
def callEach (f : ι → m β) : List ι → m (List (Call ι β))
  | [] => return []
  | arg :: args => do
    let answer ← f arg
    return ⟨arg, answer⟩ :: (← callEach f args)

/-- Calls `f` with one argument after the other, and with the answer to the call before, which is
`acc` for the first; gives the calls in their order. -/
def callOn (f : γ → ι → m γ) (acc : γ) : List ι → m (List (Call (γ × ι) γ))
  | [] => return []
  | arg :: args => do
    let answer ← f acc arg
    return ⟨(acc, arg), answer⟩ :: (← callOn f answer args)

/-- The closure that calls `f` and notes the call behind those noted before. -/
def noted (f : ι → m β) (arg : ι) : StateT (List (Call ι β)) m β := fun calls => do
  let answer ← f arg
  return (answer, calls ++ [⟨arg, answer⟩])

namespace Call

/-- What was answered, call by call. -/
def answers (calls : List (Call ι β)) : List β := calls.map (·.answer)

@[simp] theorem answers_cons (call : Call ι β) (calls : List (Call ι β)) :
    answers (call :: calls) = call.answer :: answers calls := rfl

/-- The arguments of the calls that were answered with yes. -/
def accepted (calls : List (Call ι Bool)) : List ι := (calls.filter (·.answer)).map (·.arg)

/-- The arguments of the calls that were answered with no. -/
def rejected (calls : List (Call ι Bool)) : List ι := (calls.filter (!·.answer)).map (·.arg)

/-- Every argument is on exactly one of the two sides. -/
theorem accepted_append_rejected_perm (calls : List (Call ι Bool)) :
    (accepted calls ++ rejected calls).Perm (calls.map (·.arg)) := by
  rw [accepted, rejected, ← List.map_append]
  exact (List.filter_append_perm (·.answer) calls).map _

/-- The values that were answered, without the calls that were answered with none. -/
def given (calls : List (Call ι (Option β))) : List β := calls.filterMap (·.answer)

/-- The answer to the last call, or `init` if there was no call. -/
def last (init : γ) (calls : List (Call ι γ)) : γ := (calls.getLast?.map (·.answer)).getD init

end Call

/-- The operation calls its closure exactly once for each of `args`, front to back, whatever the
closure does, and makes its result from these calls. -/
structure CallsEach (args : List ι) (result : List (Call ι β) → ρ)
    (op : (m : Type → Type) → [Monad m] → (ι → m β) → m ρ) : Prop where
  /-- It does what the reference does. -/
  eq : ∀ (m : Type → Type) [Monad m] [LawfulMonad m] (f : ι → m β),
    op m f = result <$> callEach f args
  /-- And where every call is noted, the calls of the reference are noted and no other. -/
  noted_eq : ∀ (m : Type → Type) [Monad m] [LawfulMonad m] (f : ι → m β),
    (op _ (noted f)).run [] = (fun calls => (result calls, calls)) <$> callEach f args
  /-- One call was noted for each argument, in the order of the arguments. -/
  args_eq : ∀ (m : Type → Type) [Monad m] [LawfulMonad m] (f : ι → m β),
    (fun done => done.2.map (·.arg)) <$> (op _ (noted f)).run [] =
      (fun _ => args) <$> (op _ (noted f)).run []

/-- The operation calls its closure exactly once for each of `args`, front to back, each time with
the answer to the call before, the first time with `init`; and the answer to the last call is its
result. -/
structure CallsOn (args : List ι) (init : γ)
    (op : (m : Type → Type) → [Monad m] → (γ → ι → m γ) → m γ) : Prop where
  eq : ∀ (m : Type → Type) [Monad m] [LawfulMonad m] (f : γ → ι → m γ),
    op m f = Call.last init <$> callOn f init args
  noted_eq : ∀ (m : Type → Type) [Monad m] [LawfulMonad m] (f : γ → ι → m γ),
    (op _ fun acc arg => noted (fun p => f p.1 p.2) (acc, arg)).run [] =
      (fun calls => (Call.last init calls, calls)) <$> callOn f init args
  /-- One call was noted for each argument, in the order of the arguments, and each but the first
  was given what the one before it answered. -/
  args_eq : ∀ (m : Type → Type) [Monad m] [LawfulMonad m] (f : γ → ι → m γ),
    (fun done => done.2.map (·.arg)) <$>
        (op _ fun acc arg => noted (fun p => f p.1 p.2) (acc, arg)).run [] =
      (fun done => (init :: Call.answers done.2).zip args) <$>
        (op _ fun acc arg => noted (fun p => f p.1 p.2) (acc, arg)).run []

/-- A closure without effects answers every argument by itself. -/
theorem callEach_pure (f : ι → β) (args : List ι) :
    Id.run (callEach (fun arg => pure (f arg)) args) = args.map fun arg => ⟨arg, f arg⟩ := by
  induction args with
  | nil => rfl
  | cons arg args ih =>
    rw [List.map_cons, ← ih]
    rfl

section Lawful

variable [LawfulMonad m]

/-! ## The calls of the reference -/

theorem callEach_args (f : ι → m β) (args : List ι) :
    (fun calls => calls.map (·.arg)) <$> callEach f args = (fun _ => args) <$> callEach f args := by
  induction args with
  | nil => simp [callEach]
  | cons arg args ih =>
    have hcons := congrArg (Functor.map (List.cons arg)) ih
    simp only [← comp_map] at hcons
    simpa [callEach, Function.comp_def] using congrArg (f arg >>= fun _ => ·) hcons

theorem callOn_args (f : γ → ι → m γ) (acc : γ) (args : List ι) :
    (fun calls => calls.map (·.arg)) <$> callOn f acc args =
      (fun calls => (acc :: Call.answers calls).zip args) <$> callOn f acc args := by
  induction args generalizing acc with
  | nil => simp [callOn, Call.answers]
  | cons arg args ih =>
    have hcons : ∀ answer, (fun calls => (acc, arg) :: calls.map (·.arg)) <$> callOn f answer args =
        (fun calls => (acc, arg) :: (answer :: Call.answers calls).zip args) <$>
          callOn f answer args := by
      intro answer
      have h := congrArg (Functor.map (List.cons (acc, arg))) (ih answer)
      rwa [← comp_map, ← comp_map] at h
    simp [callOn, hcons]

/-- The reference notes the calls that it gives. -/
theorem callEach_noted (f : ι → m β) (args : List ι) (before : List (Call ι β)) :
    (callEach (noted f) args).run before =
      (fun calls => (calls, before ++ calls)) <$> callEach f args := by
  induction args generalizing before with
  | nil => simp [callEach]
  | cons arg args ih =>
    have hnote : (noted f arg).run before =
        (fun answer => (answer, before ++ [⟨arg, answer⟩])) <$> f arg := by
      rw [map_eq_pure_bind]
      rfl
    simp [callEach, hnote, ih]

theorem callOn_noted (f : γ → ι → m γ) (acc : γ) (args : List ι)
    (before : List (Call (γ × ι) γ)) :
    (callOn (fun acc arg => noted (fun p => f p.1 p.2) (acc, arg)) acc args).run before =
      (fun calls => (calls, before ++ calls)) <$> callOn f acc args := by
  induction args generalizing acc before with
  | nil => simp [callOn]
  | cons arg args ih =>
    have hnote : (noted (fun p : γ × ι => f p.1 p.2) (acc, arg)).run before =
        (fun answer => (answer, before ++ [⟨(acc, arg), answer⟩])) <$> f acc arg := by
      rw [map_eq_pure_bind]
      rfl
    simp [callOn, hnote, ih]

end Lawful

/-- What does as the reference does, for every closure, notes the same calls. -/
theorem CallsEach.of_eq {args : List ι} {result : List (Call ι β) → ρ}
    {op : (m : Type → Type) → [Monad m] → (ι → m β) → m ρ}
    (h : ∀ (m : Type → Type) [Monad m] [LawfulMonad m] (f : ι → m β),
      op m f = result <$> callEach f args) : CallsEach args result op := by
  have hnoted : ∀ (m : Type → Type) [Monad m] [LawfulMonad m] (f : ι → m β),
      (op _ (noted f)).run [] = (fun calls => (result calls, calls)) <$> callEach f args := by
    intro m _ _ f
    rw [h, StateT.run_map, callEach_noted]
    simp
  refine ⟨h, hnoted, fun m _ _ f => ?_⟩
  rw [hnoted, ← comp_map, ← comp_map]
  exact callEach_args f args

theorem CallsOn.of_eq {args : List ι} {init : γ}
    {op : (m : Type → Type) → [Monad m] → (γ → ι → m γ) → m γ}
    (h : ∀ (m : Type → Type) [Monad m] [LawfulMonad m] (f : γ → ι → m γ),
      op m f = Call.last init <$> callOn f init args) : CallsOn args init op := by
  have hnoted : ∀ (m : Type → Type) [Monad m] [LawfulMonad m] (f : γ → ι → m γ),
      (op _ fun acc arg => noted (fun p => f p.1 p.2) (acc, arg)).run [] =
        (fun calls => (Call.last init calls, calls)) <$> callOn f init args := by
    intro m _ _ f
    rw [h, StateT.run_map, callOn_noted]
    simp
  refine ⟨h, hnoted, fun m _ _ f => ?_⟩
  rw [hnoted, ← comp_map, ← comp_map]
  exact callOn_args f init args

/-! ## Loops -/

section Loops

variable [LawfulMonad m]

/-- A loop that calls once in each round, and goes on from what it has and the answer, goes through
the calls of the reference. -/
theorem foldlM_calls {body : δ → ι → m δ} (f : ι → m β) (round : δ → Call ι β → δ)
    (hbody : ∀ d arg, body d arg = (fun answer => round d ⟨arg, answer⟩) <$> f arg)
    (args : List ι) (init : δ) :
    args.foldlM body init = (fun calls => calls.foldl round init) <$> callEach f args := by
  induction args generalizing init with
  | nil => simp [callEach]
  | cons arg args ih => simp [callEach, hbody, ih]

/-- Visits are calls whose answers are of no interest. -/
theorem forM_calls (f : ι → m Unit) (args : List ι) :
    args.forM f = (fun _ => ()) <$> callEach f args := by
  induction args with
  | nil => simp [callEach]
  | cons arg args ih =>
    rw [List.forM, ih]
    simp [callEach]

theorem Call.last_cons (init : γ) (call : Call ι γ) (calls : List (Call ι γ)) :
    last init (call :: calls) = last call.answer calls := by
  unfold last
  cases calls with
  | nil => rfl
  | cons next calls => simp [List.getLast?_cons]

/-- A fold passes the answer to each call on to the next. -/
theorem foldlM_callsOn (f : γ → ι → m γ) (args : List ι) (init : γ) :
    args.foldlM f init = Call.last init <$> callOn f init args := by
  induction args generalizing init with
  | nil => simp [callOn, Call.last]
  | cons arg args ih => simp [callOn, ih, Call.last_cons]

end Loops

/-- What is a left fold over its arguments, for every closure, makes one call on each of them. -/
theorem CallsOn.of_foldlM {args : List ι} {init : γ}
    {op : (m : Type → Type) → [Monad m] → (γ → ι → m γ) → m γ}
    (h : ∀ (m : Type → Type) [Monad m] [LawfulMonad m] (f : γ → ι → m γ),
      op m f = args.foldlM f init) : CallsOn args init op := by
  refine .of_eq fun m _ _ f => ?_
  rw [h]
  exact foldlM_callsOn f args init

/-! ## Drafts of what was answered -/

namespace Draft

variable [LawfulMonad m]

/-- A round that goes on with the one or the other, as it is answered. -/
theorem round_ite (answer : m Bool) (yes no : δ) :
    (do if ← answer then return yes else return no) =
      (fun b => if b then yes else no) <$> answer := by
  rw [map_eq_pure_bind]
  congr 1
  funext b
  cases b <;> rfl

/-- Every answer is drafted. -/
theorem foldlM_answers (f : ι → m β) (args : List ι) (d : Draft β) :
    args.foldlM (fun d arg => do return d.push (← f arg)) d =
      (fun calls => d.extend (Call.answers calls)) <$> callEach f args := by
  rw [foldlM_calls f (fun d call => d.push call.answer) fun d arg => bind_pure_comp d.push (f arg)]
  simp only [extend, Call.answers, List.foldl_map]

/-- What is picked from the arguments is drafted where the answer is yes. -/
theorem foldlM_accepted (f : ι → m Bool) (pick : ι → α) (args : List ι) (d : Draft α) :
    args.foldlM (fun d arg => do if ← f arg then return d.push (pick arg) else return d) d =
      (fun calls => d.extend ((Call.accepted calls).map pick)) <$> callEach f args := by
  rw [foldlM_calls f (fun d call => if call.answer then d.push (pick call.arg) else d)
    fun d arg => round_ite (f arg) _ _]
  simp only [extend, Call.accepted, List.foldl_map, List.foldl_filter]

/-- Every value that is answered is drafted. -/
theorem foldlM_given (f : ι → m (Option β)) (args : List ι) (d : Draft β) :
    args.foldlM (fun d arg => do
      match ← f arg with
      | some y => return d.push y
      | none => return d) d =
      (fun calls => d.extend (Call.given calls)) <$> callEach f args := by
  rw [foldlM_calls f (fun d call => match call.answer with
    | some y => d.push y
    | none => d) fun d arg => ?_]
  · simp only [extend, Call.given, List.foldl_filterMap]
    congr
  · rw [map_eq_pure_bind]
    congr 1
    funext answer
    cases answer <;> rfl

/-- Every argument is drafted on the one side or on the other. -/
theorem foldlM_accepted_rejected (f : ι → m Bool) (args : List ι) (pass fail : Draft ι) :
    args.foldlM (fun ((pass, fail) : Draft ι × Draft ι) arg => do
      if ← f arg then return (pass.push arg, fail) else return (pass, fail.push arg))
      (pass, fail) =
      (fun calls => (pass.extend (Call.accepted calls), fail.extend (Call.rejected calls))) <$>
        callEach f args := by
  rw [foldlM_calls f (fun drafts call =>
    if call.answer then (drafts.1.push call.arg, drafts.2)
    else (drafts.1, drafts.2.push call.arg)) fun drafts arg => round_ite (f arg) _ _]
  congr 1
  funext calls
  -- Along the calls both drafts grow, each by what goes to its side.
  induction calls generalizing pass fail with
  | nil => rfl
  | cons call calls ih =>
    rw [List.foldl_cons]
    cases h : call.answer with
    | true =>
      rw [if_pos rfl, ih]
      simp [extend, Call.accepted, Call.rejected, h]
    | false =>
      rw [if_neg (by simp), ih]
      simp [extend, Call.accepted, Call.rejected, h]

theorem freeze_extend {init : Draft β} (h : init.toList = []) (row : List β) :
    (init.extend row).freeze = Chain.ofList row := by
  rw [Chain.freeze_eq, Chain.ofList_eq, toList_extend, h, List.nil_append]

theorem stack_extend {init : Draft β} (h : init.toList = []) (row : List β) :
    Chain.stack (init.extend row).toList .empty = Chain.ofList row.reverse := by
  rw [Chain.stack_eq, Chain.ofList_eq, toList_extend, h, List.nil_append]

section Loops

variable {f : ι → m δ} {args : List ι} {body : Draft β → ι → m (Draft β)} {init : Draft β}
  {row : List (Call ι δ) → List β}

/-- What a loop drafts is frozen. -/
theorem freeze_loop (h : init.toList = [])
    (hloop : args.foldlM body init = (fun calls => init.extend (row calls)) <$> callEach f args) :
    (do let d ← args.foldlM body init; return d.freeze) =
      (fun calls => Chain.ofList (row calls)) <$> callEach f args := by
  rw [hloop, bind_pure_comp, ← comp_map]
  congr 1
  funext calls
  exact freeze_extend h (row calls)

/-- What a loop drafts is stacked, so that what was drafted last comes first. -/
theorem stack_loop (h : init.toList = [])
    (hloop : args.foldlM body init = (fun calls => init.extend (row calls)) <$> callEach f args) :
    (do let d ← args.foldlM body init; return Chain.stack d.toList .empty) =
      (fun calls => Chain.ofList (row calls).reverse) <$> callEach f args := by
  rw [hloop, bind_pure_comp, ← comp_map]
  congr 1
  funext calls
  exact stack_extend h (row calls)

end Loops

end Draft

/-! ## Traversals -/

namespace Chain

variable (xs : Chain α) (ys : Chain β)

theorem callsEach_mapM :
    CallsEach xs.toList (fun calls : List (Call α γ) => ofList (Call.answers calls))
      fun _ _ f => xs.mapM f :=
  .of_eq fun _ _ _ f => Draft.freeze_loop rfl (Draft.foldlM_answers f _ _)

theorem callsEach_mapIdxM :
    CallsEach xs.toList.zipIdx
      (fun calls : List (Call (α × Nat) γ) => ofList (Call.answers calls))
      fun _ _ f => xs.mapIdxM fun index x => f (x, index) :=
  .of_eq fun _ _ _ f => Draft.freeze_loop rfl (Draft.foldlM_answers f _ _)

theorem callsEach_mapReverseM :
    CallsEach xs.toList (fun calls : List (Call α γ) => ofList (Call.answers calls).reverse)
      fun _ _ f => xs.mapReverseM f :=
  .of_eq fun _ _ _ f => Draft.stack_loop rfl (Draft.foldlM_answers f _ _)

theorem callsEach_zipWithM :
    CallsEach (xs.toList.zip ys.toList)
      (fun calls : List (Call (α × β) γ) => ofList (Call.answers calls))
      fun _ _ f => xs.zipWithM ys fun x y => f (x, y) :=
  .of_eq fun _ _ _ f => Draft.freeze_loop rfl (Draft.foldlM_answers f _ _)

theorem callsEach_zipWithReverseM :
    CallsEach (xs.toList.zip ys.toList)
      (fun calls : List (Call (α × β) γ) => ofList (Call.answers calls).reverse)
      fun _ _ f => xs.zipWithReverseM ys fun x y => f (x, y) :=
  .of_eq fun _ _ _ f => Draft.stack_loop rfl (Draft.foldlM_answers f _ _)

theorem callsEach_filterM :
    CallsEach xs.toList (fun calls => ofList (Call.accepted calls)) fun _ _ p => xs.filterM p :=
  .of_eq fun _ _ _ p => Draft.freeze_loop rfl (by
    simpa using Draft.foldlM_accepted p id xs.toList .empty)

theorem callsEach_filterIdxM :
    CallsEach xs.toList.zipIdx (fun calls => ofList ((Call.accepted calls).map (·.1)))
      fun _ _ p => xs.filterIdxM fun x index => p (x, index) :=
  .of_eq fun _ _ _ p => Draft.freeze_loop rfl (Draft.foldlM_accepted p (·.1) _ _)

theorem callsEach_filterMapM :
    CallsEach xs.toList (fun calls : List (Call α (Option γ)) => ofList (Call.given calls))
      fun _ _ f => xs.filterMapM f :=
  .of_eq fun _ _ _ f => Draft.freeze_loop rfl (Draft.foldlM_given f _ _)

theorem callsEach_tabulateM (count : Nat) :
    CallsEach (List.range count) (fun calls : List (Call Nat γ) => ofList (Call.answers calls))
      fun _ _ f => tabulateM count f :=
  .of_eq fun _ _ _ f => Draft.freeze_loop rfl (Draft.foldlM_answers f _ _)

theorem callsEach_partitionM :
    CallsEach xs.toList
      (fun calls => do return (← ofList (Call.accepted calls), ← ofList (Call.rejected calls)))
      fun _ _ p => xs.partitionM p := by
  refine .of_eq fun m _ _ p => ?_
  unfold partitionM
  rw [Draft.foldlM_accepted_rejected]
  have hfreeze : ∀ row : List α, (Draft.empty.extend row).freeze = ofList row :=
    Draft.freeze_extend rfl
  simp [hfreeze]

theorem callsEach_forM :
    CallsEach xs.toList (fun _ : List (Call α Unit) => ()) fun _ _ f => xs.forM f :=
  .of_eq fun _ _ _ f => forM_calls f xs.toList

theorem callsEach_forIdxM :
    CallsEach xs.toList.zipIdx (fun _ : List (Call (α × Nat) Unit) => ())
      fun _ _ f => xs.forIdxM fun index x => f (x, index) :=
  .of_eq fun _ _ _ f => forM_calls f xs.toList.zipIdx

theorem callsEach_forM₂ :
    CallsEach (xs.toList.zip ys.toList) (fun _ : List (Call (α × β) Unit) => ())
      fun _ _ f => xs.forM₂ ys fun x y => f (x, y) :=
  .of_eq fun _ _ _ f => forM_calls f (xs.toList.zip ys.toList)

theorem callsOn_foldlM (init : γ) :
    CallsOn xs.toList init fun _ _ f => xs.foldlM f init :=
  .of_eq fun _ _ _ f => foldlM_callsOn f xs.toList init

theorem callsOn_foldlIdxM (init : γ) :
    CallsOn xs.toList.zipIdx init fun _ _ f =>
      xs.foldlIdxM (fun acc x index => f acc (x, index)) init :=
  .of_eq fun _ _ _ f => foldlM_callsOn f xs.toList.zipIdx init

theorem callsOn_foldlM₂ (init : γ) :
    CallsOn (xs.toList.zip ys.toList) init fun _ _ f =>
      xs.foldlM₂ ys (fun acc x y => f acc (x, y)) init :=
  .of_eq fun _ _ _ f => foldlM_callsOn f (xs.toList.zip ys.toList) init

/-! ## Closures without effects -/

theorem mapM_pure (f : α → β) :
    Id.run (xs.mapM fun x => pure (f x)) = ofList (xs.toList.map f) := by
  rw [xs.callsEach_mapM.eq]
  show ofList (Call.answers (Id.run (callEach (fun x => pure (f x)) xs.toList))) = _
  rw [callEach_pure, Call.answers, List.map_map]
  rfl

/-- A closure without effects keeps the elements of which it holds. -/
theorem filterM_pure (p : α → Bool) :
    Id.run (xs.filterM fun x => pure (p x)) = ofList (xs.toList.filter p) := by
  rw [xs.callsEach_filterM.eq]
  show ofList (Call.accepted (Id.run (callEach (fun x => pure (p x)) xs.toList))) = _
  rw [callEach_pure, Call.accepted, List.filter_map, List.map_map]
  congr 1
  exact List.map_id _

/-! ## All of them -/

/-- Every full traversal calls its closure exactly once per element, per index below the count, or
per position below the shorter length, front to back, with the element and its position, and passes
on what the closure does.  The result holds what these calls answered or accepted, in their order,
or in reverse for `mapReverseM` and `zipWithReverseM`; a fold passes each answer on to the next
call, and `partitionM` puts each element on one side. -/
theorem traversals_call_each_once (count : Nat) (init : δ) :
    -- Mapping
    CallsEach xs.toList (fun calls : List (Call α γ) => ofList (Call.answers calls))
      (fun _ _ f => xs.mapM f) ∧
    CallsEach xs.toList.zipIdx
      (fun calls : List (Call (α × Nat) γ) => ofList (Call.answers calls))
      (fun _ _ f => xs.mapIdxM fun index x => f (x, index)) ∧
    CallsEach xs.toList (fun calls : List (Call α γ) => ofList (Call.answers calls).reverse)
      (fun _ _ f => xs.mapReverseM f) ∧
    CallsEach (xs.toList.zip ys.toList)
      (fun calls : List (Call (α × β) γ) => ofList (Call.answers calls).reverse)
      (fun _ _ f => xs.zipWithReverseM ys fun x y => f (x, y)) ∧
    CallsEach (xs.toList.zip ys.toList)
      (fun calls : List (Call (α × β) γ) => ofList (Call.answers calls))
      (fun _ _ f => xs.zipWithM ys fun x y => f (x, y)) ∧
    CallsEach (List.range count) (fun calls : List (Call Nat γ) => ofList (Call.answers calls))
      (fun _ _ f => tabulateM count f) ∧
    -- Selecting
    CallsEach xs.toList (fun calls => ofList (Call.accepted calls)) (fun _ _ p => xs.filterM p) ∧
    CallsEach xs.toList.zipIdx (fun calls => ofList ((Call.accepted calls).map (·.1)))
      (fun _ _ p => xs.filterIdxM fun x index => p (x, index)) ∧
    CallsEach xs.toList (fun calls : List (Call α (Option γ)) => ofList (Call.given calls))
      (fun _ _ f => xs.filterMapM f) ∧
    CallsEach xs.toList
      (fun calls => do return (← ofList (Call.accepted calls), ← ofList (Call.rejected calls)))
      (fun _ _ p => xs.partitionM p) ∧
    -- Visiting
    CallsEach xs.toList (fun _ : List (Call α Unit) => ()) (fun _ _ f => xs.forM f) ∧
    CallsEach xs.toList.zipIdx (fun _ : List (Call (α × Nat) Unit) => ())
      (fun _ _ f => xs.forIdxM fun index x => f (x, index)) ∧
    CallsEach (xs.toList.zip ys.toList) (fun _ : List (Call (α × β) Unit) => ())
      (fun _ _ f => xs.forM₂ ys fun x y => f (x, y)) ∧
    -- Folding
    CallsOn xs.toList init (fun _ _ f => xs.foldlM f init) ∧
    CallsOn xs.toList.zipIdx init
      (fun _ _ f => xs.foldlIdxM (fun acc x index => f acc (x, index)) init) ∧
    CallsOn (xs.toList.zip ys.toList) init
      (fun _ _ f => xs.foldlM₂ ys (fun acc x y => f acc (x, y)) init) ∧
    -- What the results are made of
    (∀ (row : List γ) (next : Label), (ofList row next).1.toList = row) ∧
    ∀ calls : List (Call α Bool),
      (Call.accepted calls ++ Call.rejected calls).Perm (calls.map (·.arg)) :=
  ⟨xs.callsEach_mapM, xs.callsEach_mapIdxM, xs.callsEach_mapReverseM,
    xs.callsEach_zipWithReverseM ys, xs.callsEach_zipWithM ys, callsEach_tabulateM count,
    xs.callsEach_filterM, xs.callsEach_filterIdxM, xs.callsEach_filterMapM,
    xs.callsEach_partitionM, xs.callsEach_forM, xs.callsEach_forIdxM, xs.callsEach_forM₂ ys,
    xs.callsOn_foldlM init, xs.callsOn_foldlIdxM init, xs.callsOn_foldlM₂ ys init,
    toList_ofList, Call.accepted_append_rejected_perm⟩

end Chain

end SharedList
