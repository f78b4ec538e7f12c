import SharedList.Proofs.World
import SharedList.Session.Closure

/-!
# Honest closures

Nobody but the operations on chains makes cells or sets a chain's length.  A closure may compute
whatever it likes from what it sees, but it comes by chains only in the ways that every caller has:
it was given them, takes the tail or an element of one, or puts an element in front of one.  All
other operations come down to these (`prepend` is a row of them).

* `Obtainable` — what can be had from the values at hand without making a cell.
* `Fresh.Honest` — a computation that comes by its results in no other way.  What it does next may
  depend in any way on what it has seen.
* `Closure.Honest` — a closure whose every call is honest, given its arguments, its memory, and
  the values that it captured.
* `Honest.makes` — in any world that covers the values at hand, an honest computation makes
  results that a later world covers.
* `Expr.closure_honest` — every closure that an expression writes is honest.
-/

set_option autoImplicit false

namespace SharedList

/-- Values that can be had from those at hand without making a cell. -/
inductive Obtainable (held : Value → Prop) : Value → Prop
  | given {v : Value} : held v → Obtainable held v
  | bool (b : Bool) : Obtainable held (.bool b)
  | int (n : Int64) : Obtainable held (.int n)
  | str (s : String) : Obtainable held (.str s)
  | empty : Obtainable held (.list .empty)
  | element {xs : Chain Value} {x : Value} :
      Obtainable held (.list xs) → x ∈ xs.toList → Obtainable held x
  | tail {xs ys : Chain Value} :
      Obtainable held (.list xs) → xs.tail? = some ys → Obtainable held (.list ys)

theorem Obtainable.trans {held held' : Value → Prop} {v : Value} (h : Obtainable held v)
    (hheld : ∀ w, held w → Obtainable held' w) : Obtainable held' v := by
  induction h with
  | given h => exact hheld _ h
  | bool b => exact .bool b
  | int n => exact .int n
  | str s => exact .str s
  | empty => exact .empty
  | element _ hx ih => exact .element ih hx
  | tail _ htail ih => exact .tail ih htail

/-- A world that covers the values at hand covers those that can be had from them. -/
theorem Obtainable.covers {held : Value → Prop} {v : Value} (h : Obtainable held v) {W : World}
    (hheld : ∀ w, held w → W.Covers w) : W.Covers v := by
  induction h with
  | given h => exact hheld _ h
  | bool b => exact W.covers_bool b
  | int n => exact W.covers_int n
  | str s => exact W.covers_str s
  | empty => exact World.covers_list_iff.mpr (W.coversChain_empty .vals)
  | element _ hx ih => exact (World.covers_list_iff.mp ih).2 _ hx
  | tail _ htail ih =>
    rw [Chain.tail?_eq_some htail]
    exact World.covers_list_iff.mpr ((World.covers_list_iff.mp ih).suffix 1)

namespace Fresh

variable {α β : Type} {out : α → Value → Prop} {out' : β → Value → Prop}
  {held held' : Value → Prop}

/-- The computation comes by the values of its result, which `out` lists, from those at hand by the
operations that every caller has.  Labels may be drawn and left unused. -/
inductive Honest (out : α → Value → Prop) : (Value → Prop) → Fresh α → Prop
  | done {held : Value → Prop} {a : α} :
      (∀ v, out a v → Obtainable held v) → Honest out held (pure a)
  | cons {held : Value → Prop} {x : Value} {xs : Chain Value} {rest : Chain Value → Fresh α} :
      Obtainable held x → Obtainable held (.list xs) →
      (∀ next, Honest out (fun v => v = .list (xs.cons x next).1 ∨ held v)
        (rest (xs.cons x next).1)) →
      Honest out held (xs.cons x >>= rest)
  | draw {held : Value → Prop} {rest : Label → Fresh α} :
      (∀ next, Honest out held (rest next)) → Honest out held (label >>= rest)

/-- What is honest with some values at hand is so with more. -/
theorem Honest.weaken {make : Fresh α} (h : Honest out held make)
    (hheld : ∀ v, held v → Obtainable held' v) : Honest out held' make := by
  induction h generalizing held' with
  | done hout => exact .done fun v hv => (hout v hv).trans hheld
  | cons hx hxs _ ih =>
    refine .cons (hx.trans hheld) (hxs.trans hheld) fun next => ih next fun v hv => ?_
    rcases hv with rfl | hv
    · exact .given (.inl rfl)
    · exact (hheld v hv).trans fun w hw => .given (.inr hw)
  | draw _ ih => exact .draw fun next => ih next hheld

/-- One honest computation after another, which has the results of the first at hand. -/
theorem Honest.bind {make : Fresh α} {rest : α → Fresh β} (h : Honest out held make)
    (hrest : ∀ a, Honest out' (fun v => out a v ∨ held v) (rest a)) :
    Honest out' held (make >>= rest) := by
  induction h with
  | @done held a hout =>
    rw [pure_bind]
    refine (hrest a).weaken fun v hv => ?_
    rcases hv with hv | hv
    · exact hout v hv
    · exact .given hv
  | cons hx hxs _ ih =>
    rw [bind_assoc]
    refine .cons hx hxs fun next => ih next fun a => (hrest a).weaken fun v hv => ?_
    rcases hv with hv | hv
    · exact .given (.inl hv)
    · exact .given (.inr (.inr hv))
  | draw _ ih =>
    rw [bind_assoc]
    exact .draw fun next => ih next hrest

/-- **An honest computation makes what a world covers** from what a world covers. -/
theorem Honest.makes {make : Fresh α} (h : Honest out held make) {W : World}
    (hheld : ∀ v, held v → W.Covers v) :
    Makes W make fun W' a => ∀ v, out a v → W'.Covers v := by
  induction h generalizing W with
  | done hout => exact makes_pure fun v hv => (hout v hv).covers hheld
  | @cons held x xs rest hx hxs _ ih =>
    have hcons := makes_cons (k := .vals) (hx.covers hheld)
      (World.covers_list_iff.mp (hxs.covers hheld))
    obtain ⟨W', he, hnext, hys⟩ := hcons
    obtain ⟨W'', he', hnext', hpost⟩ := ih W.next (W := W') fun v hv => by
      rcases hv with rfl | hv
      · exact World.covers_list_iff.mpr hys
      · exact (hheld v hv).mono he
    rw [hnext] at hnext' hpost
    exact ⟨W'', he.trans he', hnext', hpost⟩
  | draw _ ih =>
    obtain ⟨W', he, hnext, -⟩ := makes_label W
    obtain ⟨W'', he', hnext', hpost⟩ := ih W.next (W := W') fun v hv => (hheld v hv).mono he
    rw [hnext] at hnext' hpost
    exact ⟨W'', he.trans he', hnext', hpost⟩

/-- Elements at hand in front of a chain at hand. -/
theorem honest_prepend {xs : List Value} {rest : Chain Value}
    (hxs : ∀ x ∈ xs, Obtainable held x) (hrest : Obtainable held (.list rest)) :
    Honest (fun ys v => v = .list ys) held (Chain.prepend xs rest) := by
  induction xs with
  | nil =>
    refine .done fun v hv => ?_
    rw [hv]
    exact hrest
  | cons x xs ih =>
    obtain ⟨hx, hxs⟩ := List.forall_mem_cons.mp hxs
    rw [Chain.prepend_cons]
    refine (ih hxs).bind fun ys => ?_
    rw [← bind_pure (ys.cons x)]
    refine .cons (hx.trans fun v hv => .given (.inr hv)) (.given (.inl rfl)) fun next => ?_
    exact .done fun v hv => .given (.inl hv)

end Fresh

open Fresh

/-! ## Closures -/

/-- The values that a call has at hand: its arguments, what the memory holds, and what the closure
captured when it was made. -/
def Closure.AtHand {σ : Type} (holds : σ → Value → Prop) (captured : Value → Prop) (args : Args)
    (memory : σ) (v : Value) : Prop :=
  (∃ name, (name, v) ∈ args) ∨ holds memory v ∨ captured v

/-- Every call is honest, and so is what it leaves in the memory, of which `holds` says which
values are in it. -/
def Closure.Honest {σ : Type} (holds : σ → Value → Prop) (captured : Value → Prop)
    (f : Closure σ) : Prop :=
  ∀ args memory, Fresh.Honest (fun (result : Value × σ) v => v = result.1 ∨ holds result.2 v)
    (Closure.AtHand holds captured args memory) (f args memory)

/-! ## Expressions -/

mutual

theorem Value.ofDatum_honest {held : Value → Prop} (d : Datum) :
    Honest (fun v w => w = v) held (Value.ofDatum d) := by
  match d with
  | .bool b => exact .done fun v hv => hv ▸ .bool b
  | .int n => exact .done fun v hv => hv ▸ .int n
  | .str s => exact .done fun v hv => hv ▸ .str s
  | .list items =>
    rw [Value.ofDatum]
    refine (Value.ofData_honest items (List.forall_mem_nil _)).bind fun vs => ?_
    rw [Chain.ofList_eq]
    refine (honest_prepend (fun x hx => .given (.inl hx)) .empty).bind fun ys => ?_
    exact .done fun v hv => .given (.inl hv)

theorem Value.ofData_honest {held : Value → Prop} (ds : List Datum) {made : List Value}
    (hmade : ∀ v ∈ made, Obtainable held v) :
    Honest (fun vs w => w ∈ vs) held (Value.ofData made ds) := by
  match ds with
  | [] =>
    rw [Value.ofData]
    exact .done fun v hv => hmade v (List.mem_reverse.mp hv)
  | d :: ds =>
    rw [Value.ofData]
    refine (Value.ofDatum_honest d).bind fun w => Value.ofData_honest ds fun v hv => ?_
    rcases List.mem_cons.mp hv with rfl | hv
    · exact .given (.inl rfl)
    · exact (hmade v hv).trans fun u hu => .given (.inr hu)

end

variable {held : Value → Prop}

theorem UnaryOp.apply_obtainable (op : UnaryOp) (v : Value) : Obtainable held (op.apply v) := by
  cases op with
  | not => exact .bool _
  | lower => exact .str _
  | int => exact .int _

theorem Value.elementAt_obtainable {v : Value} (h : Obtainable held v) (position : Int64) :
    Obtainable held (v.elementAt position) := by
  unfold Value.elementAt
  split
  · rename_i xs
    split
    · exact .int 0
    · rw [Chain.get?_eq]
      cases hget : xs.toList[position.toInt.toNat]? with
      | none => exact .int 0
      | some x => exact .element h (List.mem_of_getElem? hget)
  · exact .int 0

/-- A chain of one element at hand. -/
theorem Value.alone_honest {a : Value} (ha : Obtainable held a) :
    Honest (fun v w => w = v) held (do return .list (← Chain.ofList [a])) := by
  rw [Chain.ofList_eq]
  refine (honest_prepend (fun x hx => ?_) .empty).bind fun ys => ?_
  · rw [List.mem_singleton.mp hx]
    exact ha
  · exact .done fun v hv => .given (.inl hv)

theorem BinaryOp.apply_honest (op : BinaryOp) {a b : Value} (ha : Obtainable held a)
    (hb : Obtainable held b) : Honest (fun v w => w = v) held (op.apply a b) := by
  cases op with
  | add => exact .done fun v hv => hv ▸ .int _
  | sub => exact .done fun v hv => hv ▸ .int _
  | mul => exact .done fun v hv => hv ▸ .int _
  | rem => exact .done fun v hv => hv ▸ .int _
  | eq => exact .done fun v hv => hv ▸ .bool _
  | lt => exact .done fun v hv => hv ▸ .bool _
  | le => exact .done fun v hv => hv ▸ .bool _
  | cmp =>
    refine .done fun v hv => hv ▸ ?_
    cases compare a b <;> exact .int _
  | and => exact .done fun v hv => hv ▸ .bool _
  | or => exact .done fun v hv => hv ▸ .bool _
  | cat => exact .done fun v hv => hv ▸ .str _
  | get => exact .done fun v hv => hv ▸ Value.elementAt_obtainable ha _
  | cons =>
    cases b with
    | list xs => exact .cons ha hb fun next => .done fun v hv => .given (.inl hv)
    | bool b => exact Value.alone_honest ha
    | int n => exact Value.alone_honest ha
    | str s => exact Value.alone_honest ha

theorem Args.lookup_obtainable (args : Args) (name : Var)
    (h : ∀ name v, (name, v) ∈ args → held v) :
    Obtainable held ((args.lookup name).getD (.int 0)) := by
  induction args with
  | nil => exact .int 0
  | cons arg args ih =>
    obtain ⟨first, v⟩ := arg
    rw [List.lookup_cons]
    split
    · exact .given (h first v List.mem_cons_self)
    · exact ih fun name w hw => h name w (List.mem_cons_of_mem _ hw)

mutual

theorem Expr.eval_honest {held : Value → Prop} (args : Args) (e : Expr)
    (hargs : ∀ name v, (name, v) ∈ args → held v) :
    Honest (fun v w => w = v) held (e.eval args) := by
  match e with
  | .lit d =>
    rw [Expr.eval]
    exact Value.ofDatum_honest d
  | .var name =>
    rw [Expr.eval]
    exact .done fun v hv => hv ▸ Args.lookup_obtainable args name hargs
  | .unary op a =>
    rw [Expr.eval]
    refine (Expr.eval_honest args a hargs).bind fun v => ?_
    exact .done fun w hw => hw ▸ UnaryOp.apply_obtainable op v
  | .binary op a b =>
    rw [Expr.eval]
    refine (Expr.eval_honest args a hargs).bind fun v => ?_
    refine (Expr.eval_honest args b fun name w hw => .inr (hargs name w hw)).bind fun w => ?_
    exact BinaryOp.apply_honest op (.given (.inr (.inl rfl))) (.given (.inl rfl))
  | .cond test yes no =>
    rw [Expr.eval]
    refine (Expr.eval_honest args test hargs).bind fun t => ?_
    refine (Expr.eval_honest args yes fun name v hv => .inr (hargs name v hv)).bind fun v => ?_
    refine (Expr.eval_honest args no fun name v hv =>
      .inr (.inr (hargs name v hv))).bind fun w => ?_
    refine .done fun u hu => hu ▸ ?_
    split
    · exact .given (.inr (.inl rfl))
    · exact .given (.inl rfl)
  | .list items =>
    rw [Expr.eval]
    refine (Expr.evalAll_honest args items hargs (List.forall_mem_nil _)).bind fun vs => ?_
    rw [Chain.ofList_eq]
    refine (honest_prepend (fun x hx => .given (.inl hx)) .empty).bind fun ys => ?_
    exact .done fun v hv => .given (.inl hv)

theorem Expr.evalAll_honest {held : Value → Prop} (args : Args) (es : List Expr)
    {values : List Value} (hargs : ∀ name v, (name, v) ∈ args → held v)
    (hvalues : ∀ v ∈ values, Obtainable held v) :
    Honest (fun vs w => w ∈ vs) held (Expr.evalAll args values es) := by
  match es with
  | [] =>
    rw [Expr.evalAll]
    exact .done fun v hv => hvalues v (List.mem_reverse.mp hv)
  | e :: es =>
    rw [Expr.evalAll]
    refine (Expr.eval_honest args e hargs).bind fun w => ?_
    refine Expr.evalAll_honest args es (fun name v hv => .inr (hargs name v hv)) fun v hv => ?_
    rcases List.mem_cons.mp hv with rfl | hv
    · exact .given (.inl rfl)
    · exact (hvalues v hv).trans fun u hu => .given (.inr hu)

end

/-- The closures that expressions write are honest. -/
theorem Expr.closure_honest {σ : Type} (holds : σ → Value → Prop) (captured : Value → Prop)
    (e : Expr) : Closure.Honest holds captured e.closure := by
  intro args memory
  refine (Expr.eval_honest args e fun name v hv => .inl ⟨name, hv⟩).bind fun v => ?_
  refine .done fun w hw => ?_
  rcases hw with hw | hw
  · exact .given (.inl hw)
  · exact .given (.inr (.inr (.inl hw)))

end SharedList
