import SharedList.Text.Decimal
import SharedList.Text.Quoted

/-!
# Styles of written elements

A chain is written either **plainly**, which knows no flags, or **precisely**, where flags are
handed on to every innermost element: a width and a side, zeros in place of blanks, a sign on every
number, and a layout over several lines.

* `Form.parse?` — the form that a format string asks for.
* `Style.int`, `Style.float`, `Style.bool` — scalars written precisely.
* `Style.sequence` — written items between an opening and a closing mark.
-/

set_option autoImplicit false

namespace SharedList.Text

/-- The flags of precise writing. -/
structure Style where
  /-- Every item on a line of its own. -/
  pretty : Bool
  /-- A sign also on numbers that are not negative. -/
  plus : Bool
  /-- Numbers are filled up with zeros between sign and digits. -/
  zeros : Bool
  /-- Blanks go to the right of numbers, too. -/
  left : Bool
  /-- The least width of a number or a truth value. -/
  width : Nat
  deriving DecidableEq, Repr

namespace Style

/-- Precise writing without flags. -/
def bare : Style := ⟨false, false, false, false, 0⟩

/-- What is missing from a text to the width, filled by a character. -/
def filling (s : Style) (fill : Char) (text : String) : String :=
  String.ofList (List.replicate (s.width - text.length) fill)

/-- A number, given its sign and its magnitude. -/
def number (s : Style) (sign magnitude : String) : String :=
  if s.zeros then sign ++ s.filling '0' (sign ++ magnitude) ++ magnitude
  else
    let text := sign ++ magnitude
    if s.left then text ++ s.filling ' ' text else s.filling ' ' text ++ text

/-- The sign of a number. -/
def sign (s : Style) (negative : Bool) : String :=
  if negative then "-" else if s.plus then "+" else ""

/-- A whole number. -/
def int (s : Style) (n : Int64) : String :=
  s.number (s.sign (n < 0)) (toString n.toInt.natAbs)

/-- A floating-point number; what is no number has no sign. -/
def float (s : Style) (x : Double) : String :=
  s.number (if x.isNaN then "" else s.sign x.isNegative) (preciseNotation.magnitude x)

/-- A truth value, blanks to its right. -/
def bool (s : Style) (b : Bool) : String :=
  let text := if b then "true" else "false"
  text ++ s.filling ' ' text

/-- Four blanks for each level of depth. -/
def indent (depth : Nat) : String := String.ofList (List.replicate (4 * depth) ' ')

/-- Written items between two marks.  Over several lines each item, written at the next depth, has
a line and a comma of its own; without items the marks stand alone. -/
def sequence (s : Style) (opening closing : String) (depth : Nat) (items : List String) : String :=
  if items.isEmpty then opening ++ closing
  else if s.pretty then
    opening ++ "\n" ++ String.join (items.map (indent (depth + 1) ++ · ++ ",\n")) ++ indent depth
      ++ closing
  else opening ++ ", ".intercalate items ++ closing

end Style

/-- A way to write a chain. -/
inductive Form where
  | plain
  | precise (style : Style)
  deriving DecidableEq, Repr

/-- The format strings and what they ask for. -/
def Form.table : List (String × Form) :=
  [("\x7b\x7d", .plain), ("\x7b:#\x7d", .plain), ("\x7b:5\x7d", .plain),
    ("\x7b:>20\x7d", .plain), ("\x7b:+\x7d", .plain),
    ("\x7b:?\x7d", .precise .bare),
    ("\x7b:#?\x7d", .precise { Style.bare with pretty := true }),
    ("\x7b:5?\x7d", .precise { Style.bare with width := 5 }),
    ("\x7b:<4?\x7d", .precise { Style.bare with width := 4, left := true }),
    ("\x7b:03?\x7d", .precise { Style.bare with width := 3, zeros := true }),
    ("\x7b:+?\x7d", .precise { Style.bare with plus := true })]

/-- The form that a format string asks for. -/
def Form.parse? (format : String) : Option Form := Form.table.lookup format

end SharedList.Text
