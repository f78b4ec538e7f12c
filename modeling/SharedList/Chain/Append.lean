import SharedList.Draft

/-!
# Joining and reversing chains

A chain that becomes the end of a joined chain keeps its cells; whatever comes before it is
copied into new cells.  Joining with an empty side copies nothing.

* `append` joins two chains; `appendAll` joins any number of them, from the last to the first.
* `flatten` joins the chains in a chain in one pass, holding back the latest non-empty one so that
  the last of them keeps its cells.
* `reverseAppend` puts the elements of one chain, one after the other, in front of another.
-/

set_option autoImplicit false

namespace SharedList.Chain

variable {α : Type}

/-- The elements of `xs` in new cells and then the cells of `ys`; if one side is empty, the other
chain itself. -/
def append (xs ys : Chain α) : Fresh (Chain α) :=
  if xs.isEmpty then return ys
  else if ys.isEmpty then return xs
  else xs.draft.freezeOnto ys

@[simp] theorem toList_append (xs ys : Chain α) (next : Label) :
    (xs.append ys next).1.toList = xs.toList ++ ys.toList := by
  unfold append
  split
  · rename_i h
    rw [isEmpty_iff.1 h]
    rfl
  · split
    · rename_i h
      rw [isEmpty_iff.1 h, List.append_nil]
      rfl
    · simp

/-- Joins any number of chains, starting at the last. -/
def appendAll (chains : List (Chain α)) : Fresh (Chain α) :=
  match chains.reverse with
  | [] => return empty
  | last :: before => before.foldlM (fun joined xs => xs.append joined) last

/-- A pass over chains to be joined: the elements copied so far and the latest chain that was not
empty, which is copied only once another follows it. -/
structure Joining (α : Type) where
  copied : Draft α
  latest : Option (Chain α)

/-- Passes one more chain. -/
def Joining.pass (j : Joining α) (xs : Chain α) : Joining α :=
  if xs.isEmpty then j
  else
    match j.latest with
    | none => ⟨j.copied, some xs⟩
    | some previous => ⟨j.copied.extend previous.toList, some xs⟩

/-- Joins the chains in a chain. -/
def flatten (chains : Chain (Chain α)) : Fresh (Chain α) :=
  let joined := chains.toList.foldl Joining.pass ⟨.empty, none⟩
  match joined.latest with
  | none => return empty
  | some last => joined.copied.freezeOnto last

/-- Puts the elements of a list, one after the other, in front of `onto`. -/
def stack (xs : List α) (onto : Chain α) : Fresh (Chain α) :=
  xs.foldlM (fun stacked x => stacked.cons x) onto

@[simp] theorem toList_stack (xs : List α) (onto : Chain α) (next : Label) :
    (stack xs onto next).1.toList = xs.reverse ++ onto.toList := by
  induction xs generalizing onto next with
  | nil => rfl
  | cons x xs ih =>
    rw [stack, List.foldlM_cons, Fresh.bind_apply, ← stack, ih]
    simp

/-- The elements of `xs` in reverse order and then the cells of `onto`. -/
def reverseAppend (xs onto : Chain α) : Fresh (Chain α) := stack xs.toList onto

/-- The elements in reverse order. -/
def reverse (xs : Chain α) : Fresh (Chain α) := xs.reverseAppend empty

end SharedList.Chain
