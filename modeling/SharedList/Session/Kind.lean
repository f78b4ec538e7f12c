import SharedList.Value.Order
import SharedList.Value.Text
import SharedList.Chain.Append
import SharedList.Text.DecimalReader

/-!
# The kinds of chains in a session

A session keeps chains of four kinds: of values, of pairs of values, of chains of values, and of
floating-point numbers.  What can be done with a chain's elements depends on its kind.

* `Kind.Elem` — the elements of a kind.
* `Kind.ofDatum?`, `Kind.toJson` — how elements are written in programs and in answers.
* `Kind.view` — how a closure sees an element; closures take no floating-point numbers.
* `Kind.eq`, `Kind.partialCmp`, `Kind.cmp` — how elements compare.
-/

set_option autoImplicit false

namespace SharedList

namespace Datum

mutual

/-- The JSON of a datum. -/
def ofJson? : Json → Option Datum
  | .bool b => some (.bool b)
  | .int n => (Json.int64? (.int n)).map .int
  | .str s => some (.str s)
  | .arr items => (ofJsonAll? items).map .list
  | _ => none

/-- The data written by JSON values. -/
def ofJsonAll? : List Json → Option (List Datum)
  | [] => some []
  | j :: js => do return (← ofJson? j) :: (← ofJsonAll? js)

end

end Datum

/-- The kinds of chains. -/
inductive Kind where
  | vals
  | pairs
  | nested
  | floats
  deriving DecidableEq, Repr

namespace Kind

/-- The elements of chains of a kind. -/
abbrev Elem : Kind → Type
  | vals => Value
  | pairs => Value × Value
  | nested => Chain Value
  | floats => Double

/-- The kind of a name. -/
def ofName? : String → Option Kind
  | "vals" => some vals
  | "pairs" => some pairs
  | "nested" => some nested
  | "floats" => some floats
  | _ => none

/-- Whether closures take the elements. -/
def takesClosures : Kind → Bool
  | floats => false
  | _ => true

/-- Makes the element that a datum writes, if it writes one of this kind. -/
def ofDatum? (k : Kind) (d : Datum) : Option (Fresh k.Elem) :=
  match k, d with
  | vals, d => some (Value.ofDatum d)
  | pairs, .list [a, b] => some (return (← Value.ofDatum a, ← Value.ofDatum b))
  | nested, .list items => some (do Chain.ofList (← Value.ofData [] items))
  | floats, .str s => (Text.double? s).map pure
  | _, _ => none

/-- The JSON of an element. -/
def toJson : (k : Kind) → k.Elem → Json
  | vals, v => v.toJson
  | pairs, (a, b) => .arr [a.toJson, b.toJson]
  | nested, xs => (xs.encode Value.encode).toJson
  | floats, x => .str (Text.preciseNotation.text x)

/-- The value as which a closure sees an element. -/
def view : (k : Kind) → k.Elem → Fresh Value
  | vals, v => return v
  | pairs, (a, b) => return .list (← Chain.ofList [a, b])
  | nested, xs => return .list xs
  | floats, x => return .str (Text.preciseNotation.text x)

/-- Equality of elements. -/
def eq : (k : Kind) → k.Elem → k.Elem → Bool
  | vals, a, b => a == b
  | pairs, a, b => a.1 == b.1 && a.2 == b.2
  | nested, a, b => a.equal b Value.eq
  | floats, a, b => a.eq b

/-- The order of elements, in which some may be incomparable. -/
def partialCmp : (k : Kind) → k.Elem → k.Elem → Option Ordering
  | vals, a, b => a.partialCmp b
  | pairs, a, b =>
    match a.1.partialCmp b.1 with
    | some .eq => a.2.partialCmp b.2
    | decided => decided
  | nested, a, b => a.partialCompare b Value.partialCmp
  | floats, a, b => a.partialCmp b

/-- The total order of elements, where there is one. -/
def cmp? : (k : Kind) → Option (k.Elem → k.Elem → Ordering)
  | vals => some fun a b => a.cmp b
  | pairs => some fun a b => (a.1.cmp b.1).then (a.2.cmp b.2)
  | nested => some fun a b => a.compareBy b Value.cmp
  | floats => none

/-- How elements are written plainly; pairs are not. -/
def display? : (k : Kind) → Option (k.Elem → String)
  | vals => some Value.display
  | pairs => none
  | nested => some fun xs => xs.display Value.display
  | floats => some Text.plainNotation.text

/-- How an element is written precisely at a depth. -/
def debug (style : Text.Style) (depth : Nat) : (k : Kind) → k.Elem → String
  | vals, v => v.debug style depth
  | pairs, (a, b) =>
    style.sequence "(" ")" depth [a.debug style (depth + 1), b.debug style (depth + 1)]
  | nested, xs => xs.debug style depth (Value.debug style)
  | floats, x => style.float x

/-- What elements feed to a hasher; floating-point numbers feed nothing, for lack of an equality
that is reflexive. -/
def writes? : (k : Kind) → Option (k.Elem → List Write)
  | vals => some Value.writes
  | pairs => some fun (a, b) => a.writes ++ b.writes
  | nested => some fun xs => xs.writes Value.writes
  | floats => none

/-- The serial form of an element. -/
def encode : (k : Kind) → k.Elem → Serial
  | vals, v => v.encode
  | pairs, (a, b) => .seq (some 2) [a.encode, b.encode]
  | nested, xs => xs.encode Value.encode
  | floats, x => .float x

end Kind

end SharedList
