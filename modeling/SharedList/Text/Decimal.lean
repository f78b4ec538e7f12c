import SharedList.Double

/-!
# Decimal text of floating-point numbers

A finite double is a whole multiple `m` of a power of two, `m · 2 ^ q`, and it is the nearest
double to every real number of an interval around it.  Its **shortest decimal** is the decimal of
the fewest digits in that interval and, among those, the nearest to the double; a `Tie` decides
between two equally near ones.

* `Binary.ofDouble` takes a double apart; `Binary.shortest` finds the shortest decimal, by exact
  arithmetic on natural numbers.
* `Notation` says how digits and exponent are laid out; `Notation.magnitude` lays them out.
-/

set_option autoImplicit false

namespace SharedList.Text

/-- The number `digits · 10 ^ exponent`. -/
structure Decimal where
  digits : Nat
  exponent : Int
  deriving DecidableEq, Repr

/-- The number `m · 2 ^ q`, and whether the next smaller double lies only half as far away as the
next greater. -/
structure Binary where
  m : Nat
  q : Int
  narrowBelow : Bool
  deriving DecidableEq, Repr

/-- Which of two equally near decimals is taken: the greater, or the one whose last digit is
even. -/
inductive Tie where
  | greater
  | even
  deriving DecidableEq, Repr

namespace Binary

/-- The magnitude of a finite double. -/
def ofDouble (x : Double) : Binary :=
  let biased := ((x.bits >>> 52) &&& 0x7ff).toNat
  let fraction := (x.bits &&& 0xfffffffffffff).toNat
  if biased = 0 then ⟨fraction, -1074, false⟩
  else ⟨fraction + 0x10000000000000, (biased : Int) - 1075, fraction = 0 ∧ biased > 1⟩

/-- The nearest of the multiples of `10 ^ k` that are nearest to no other double, if there is one.
The double and the ends of its interval are `value`, `low` and `high` parts of `unit`, and `closed`
says whether the ends belong to the interval. -/
def onGrid (tie : Tie) (low value high unit : Nat) (closed : Bool) (k : Int) : Option Nat :=
  let step := if k ≥ 0 then unit * Nat.pow 10 k.toNat else unit
  let scale := if k ≥ 0 then 1 else Nat.pow 10 (-k).toNat
  let inside (c : Nat) : Bool :=
    if closed then low * scale ≤ c * step && c * step ≤ high * scale
    else low * scale < c * step && c * step < high * scale
  let below := value * scale / step
  match inside below, inside (below + 1) with
  | false, false => none
  | true, false => some below
  | false, true => some (below + 1)
  | true, true =>
    match compare (2 * (value * scale - below * step)) step, tie with
    | .lt, _ => some below
    | .gt, _ => some (below + 1)
    | .eq, .greater => some (below + 1)
    | .eq, .even => if below % 2 = 0 then some below else some (below + 1)

/-- Tries grids, each ten times as fine as the one before, until one has a point inside. -/
def search (tie : Tie) (low value high unit : Nat) (closed : Bool) : Nat → Int → Decimal
  | 0, k => ⟨0, k⟩
  | grids + 1, k =>
    match onGrid tie low value high unit closed k with
    | some digits => ⟨digits, k⟩
    | none => search tie low value high unit closed grids (k - 1)

/-- The shortest decimal of `m · 2 ^ q`, for `m` above zero.  All numbers are counted in quarters
of `2 ^ q`; the first grid is coarser than the number itself, and a grid of seventeen digits always
has a point inside. -/
def shortest (tie : Tie) (b : Binary) : Decimal :=
  let value := 4 * b.m
  let low := if b.narrowBelow then value - 1 else value - 2
  let high := value + 2
  let up := Nat.pow 2 (b.q - 2).toNat
  let unit := Nat.pow 2 (2 - b.q).toNat
  let magnitude : Int := (((value * up).log2 : Int) - (unit.log2 : Int)) * 30103 / 100000 + 2
  search tie (low * up) (value * up) (high * up) unit (b.m % 2 = 0) 24 magnitude

end Binary

/-- How decimals are laid out. -/
structure Notation where
  /-- Whether a whole number written out still shows `.0`. -/
  wholePoint : Bool
  /-- The exponents of the leading digit, from the first up to below the second, for which the
  number is written out; without bounds it always is. -/
  writtenOut : Option (Int × Int)
  /-- Whether an exponent that is not negative has a sign. -/
  exponentPlus : Bool
  /-- Which of two equally near shortest decimals is written. -/
  tie : Tie

namespace Notation

/-- The text of a decimal above zero. -/
def layOut (n : Notation) (d : Decimal) : String :=
  let digits := Nat.toDigits 10 d.digits
  let leading := d.exponent + digits.length - 1
  let out :=
    match n.writtenOut with
    | none => true
    | some (least, bound) => least ≤ leading && leading < bound
  let chars :=
    if out then
      if d.exponent ≥ 0 then
        digits ++ List.replicate d.exponent.toNat '0' ++ (if n.wholePoint then ['.', '0'] else [])
      else if leading ≥ 0 then
        digits.take (leading.toNat + 1) ++ '.' :: digits.drop (leading.toNat + 1)
      else
        '0' :: '.' :: List.replicate (-leading - 1).toNat '0' ++ digits
    else
      (match digits with
        | [] => []
        | [digit] => [digit]
        | digit :: rest => digit :: '.' :: rest) ++
        'e' :: ((if n.exponentPlus && leading ≥ 0 then "+" else "") ++ toString leading).toList
  String.ofList chars

/-- The text of a double without its sign. -/
def magnitude (n : Notation) (x : Double) : String :=
  if x.isNaN then "NaN"
  else if x.isInf then "inf"
  else
    let b := Binary.ofDouble x
    if b.m = 0 then (if n.wholePoint then "0.0" else "0")
    else n.layOut (b.shortest n.tie)

/-- The text of a double. -/
def text (n : Notation) (x : Double) : String :=
  if x.isNegative && !x.isNaN then "-" ++ n.magnitude x else n.magnitude x

end Notation

/-- Every double is written out, whole numbers without a point. -/
def plainNotation : Notation where
  wholePoint := false
  writtenOut := none
  exponentPlus := false
  tie := .greater

/-- Doubles from `1e-4` to below `1e16` are written out, whole numbers with `.0`. -/
def preciseNotation : Notation where
  wholePoint := true
  writtenOut := some (-4, 16)
  exponentPlus := false
  tie := .greater

/-- Doubles from `1e-5` to below `1e16` are written out, whole numbers with `.0`; a positive
exponent has its sign, too. -/
def dataNotation : Notation where
  wholePoint := true
  writtenOut := some (-5, 16)
  exponentPlus := true
  tie := .even

end SharedList.Text
