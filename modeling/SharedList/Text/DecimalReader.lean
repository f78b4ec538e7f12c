import SharedList.Double

/-!
# Reading floating-point numbers

A floating-point number is written as `inf`, `infinity` or `nan` in any case, or as digits with a
point among, before or after them and perhaps an exponent; a sign may stand in front, also of
`nan`.  It is the nearest double to the number written.
-/

set_option autoImplicit false

namespace SharedList.Text

/-- The number that decimal digits write. -/
def digitsValue (ds : List Char) : Nat :=
  ds.foldl (fun n d => n * 10 + (d.toNat - '0'.toNat)) 0

/-- The exponent of a written number: nothing, or a mark, perhaps a sign, and digits. -/
def exponentValue? : List Char → Option Int
  | [] => some 0
  | mark :: cs =>
    let (negative, ds) :=
      match cs with
      | '-' :: ds => (true, ds)
      | '+' :: ds => (false, ds)
      | ds => (false, ds)
    if (mark == 'e' || mark == 'E') && !ds.isEmpty && ds.all Char.isDigit then
      some (if negative then -digitsValue ds else digitsValue ds)
    else none

/-- The nearest double to `digits · 10 ^ exponent`.  Beyond the given bounds it is zero or infinite
whatever the digits, of which there are `count`. -/
def nearestFloat (digits count : Nat) (exponent : Int) : Float :=
  if digits = 0 || exponent + count < -400 then 0
  else if exponent > 400 then 1 / 0
  else if exponent ≥ 0 then Float.ofScientific digits false exponent.toNat
  else Float.ofScientific digits true (-exponent).toNat

/-- The magnitude of a written number. -/
def magnitude? (cs : List Char) : Option Double :=
  let name := String.ofList (cs.map Char.toLower)
  if name == "inf" || name == "infinity" then some .inf
  else if name == "nan" then some .nan
  else
    let (whole, cs) := cs.span Char.isDigit
    let (fraction, cs) :=
      match cs with
      | '.' :: cs => cs.span Char.isDigit
      | cs => ([], cs)
    if whole.isEmpty && fraction.isEmpty then none
    else
      (exponentValue? cs).map fun exponent =>
        let ds := whole ++ fraction
        .ofFloat (nearestFloat (digitsValue ds) ds.length (exponent - fraction.length))

/-- The double that a text writes. -/
def double? (s : String) : Option Double :=
  match s.toList with
  | '-' :: cs => (magnitude? cs).map (-·)
  | '+' :: cs => magnitude? cs
  | cs => magnitude? cs

end SharedList.Text
