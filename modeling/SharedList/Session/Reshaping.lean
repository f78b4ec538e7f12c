import SharedList.Chain.Map
import SharedList.Chain.Shuffle
import SharedList.Chain.Sort
import SharedList.Chain.Split
import SharedList.Session.Outcome

/-!
# Commands that rearrange the elements of chains

* Cutting, joining, reversing; pairing up and taking pairs apart.
* Sorting and shuffling.
-/

set_option autoImplicit false

namespace SharedList

/-- The commands that rearrange the elements of chains. -/
inductive Reshaping (σ : Type) where
  | take (source : String) (count : Nat)
  | drop (source : String) (count : Nat)
  | splitAt (source : String) (index : Nat)
  | reverse (source : String)
  | reverseAppend (source other : String)
  | append (source other : String)
  | appendAll (sources : List String)
  | flatten (source : String)
  | zip (source other : String)
  | unzip (source : String)
  | sort (source : String)
  | sortBy (source : String) (f : Closure σ)
  | sortTotal (source : String)
  | shuffleWith (source : String) (words : Array UInt32)
  | shuffleSort (source : String)

namespace Reshaping

variable {σ : Type}

/-- Makes what a sort or a shuffle leaves to be made, and shows it with its events. -/
def sorted (k : Kind) (t : Traced (Fresh (Chain k.Elem))) : Attempt σ Outcome := Attempt.act do
  return (Outcome.chain k (← Act.alloc t.value)).traced t.events

/-- Runs a command that rearranges elements. -/
def run (rs : Registers) : Reshaping σ → Attempt σ Outcome
  | take source count => do
    let ⟨k, xs⟩ ← Attempt.read (rs.chain source)
    match xs.take? count with
    | none => return .only .null
    | some front => return .chain k (← Attempt.act (Act.alloc front))
  | drop source count => do
    let ⟨k, xs⟩ ← Attempt.read (rs.chain source)
    return .chain? k (xs.drop? count)
  | splitAt source index => do
    let ⟨k, xs⟩ ← Attempt.read (rs.chain source)
    match xs.splitAt? index with
    | none => return .only .null
    | some parts =>
      let (front, back) ← Attempt.act (Act.alloc parts)
      return .chains k k front back
  | reverse source => do
    let ⟨k, xs⟩ ← Attempt.read (rs.chain source)
    return .chain k (← Attempt.act (Act.alloc xs.reverse))
  | reverseAppend source other => do
    let ⟨k, xs⟩ ← Attempt.read (rs.chain source)
    let ys ← Attempt.read (rs.ofKind k other)
    return .chain k (← Attempt.act (Act.alloc (xs.reverseAppend ys)))
  | append source other => do
    let ⟨k, xs⟩ ← Attempt.read (rs.chain source)
    let ys ← Attempt.read (rs.ofKind k other)
    return .chain k (← Attempt.act (Act.alloc (xs.append ys)))
  | appendAll sources => do
    let chains ← Attempt.read (sources.mapM (rs.ofKind .vals))
    return .vals (← Attempt.act (Act.alloc (Chain.appendAll chains)))
  | flatten source => do
    let chains ← Attempt.read (rs.ofKind .nested source)
    return .vals (← Attempt.act (Act.alloc chains.flatten))
  | zip source other => do
    let xs ← Attempt.read (rs.ofKind .vals source)
    let ys ← Attempt.read (rs.ofKind .vals other)
    return .chain .pairs (← Attempt.act (Act.alloc (xs.zip ys)))
  | unzip source => do
    let pairs ← Attempt.read (rs.ofKind .pairs source)
    let (firsts, seconds) ← Attempt.act (Act.alloc pairs.unzip)
    return .chains .vals .vals firsts seconds
  | sort source => do
    let ⟨k, xs⟩ ← Attempt.read (rs.chain source)
    match k.cmp? with
    | some cmp => sorted k (xs.sortBy cmp)
    | none => throw .wrongKind
  | sortBy source f => do
    let ⟨k, xs⟩ ← Attempt.read (rs.closable source)
    sorted k (← Attempt.act (xs.sortByM (f.comparator k)))
  | sortTotal source => do
    let xs ← Attempt.read (rs.ofKind .floats source)
    sorted .floats (xs.sortBy Double.totalCmp)
  | shuffleWith source words => do
    let ⟨k, xs⟩ ← Attempt.read (rs.chain source)
    let shuffled := xs.shuffle (.cycle words)
    let ys ← Attempt.act (Act.alloc shuffled.value.chain)
    return (Outcome.register
      (.obj [("list", reportChain k ys), ("drawn", .nat shuffled.value.drawn)])
      (.chain k ys)).traced shuffled.events
  | shuffleSort source => do
    -- Whatever words the shuffle draws, the sort that follows puts the elements in the same order.
    let ⟨k, xs⟩ ← Attempt.read (rs.chain source)
    match k.cmp? with
    | none => throw .wrongKind
    | some cmp =>
      let shuffled := xs.shuffle fun _ => 0
      let ys ← Attempt.act (Act.alloc shuffled.value.chain)
      let t := ys.sortBy cmp
      let zs ← Attempt.act (Act.alloc t.value)
      return (Outcome.only (reportChain k zs)).traced (shuffled.events ++ t.events)

end Reshaping

end SharedList
