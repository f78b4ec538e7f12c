import SharedList.Json.Basic

/-!
# Reading JSON text

A text is read strictly: one value, blanks around it, nothing else.  Strings hold no bare control
characters and no lone surrogates; arrays and objects nest at most 127 deep.

A number without fraction and exponent that fits 64 bits, with or without a sign, is a whole
number; every other number, `-0` among them, is a floating-point number.  Its digits are collected
in 64 bits, digits beyond that only move the point, and the collected number is then scaled by a
power of ten, so that it is rounded once for its digits and once for the scaling.

Every reader takes the characters that are left and gives what it read with those after it, or
`none` where the text is no JSON.
-/

set_option autoImplicit false

namespace SharedList.Json

namespace Reader

/-- The characters that are left. -/
abbrev Input := List Char

/-- Skips blanks, tabs and ends of lines. -/
def skipBlanks (cs : Input) : Input :=
  cs.dropWhile fun c => c == ' ' || c == '\n' || c == '\t' || c == '\r'

/-- Reads a given word. -/
def word (w : String) (cs : Input) : Option Input :=
  if w.toList.isPrefixOf cs then some (cs.drop w.length) else none

/-! ## Strings -/

/-- The value of a hexadecimal digit. -/
def hexValue? (c : Char) : Option Nat :=
  if '0' ≤ c ∧ c ≤ '9' then some (c.toNat - '0'.toNat)
  else if 'a' ≤ c ∧ c ≤ 'f' then some (c.toNat - 'a'.toNat + 10)
  else if 'A' ≤ c ∧ c ≤ 'F' then some (c.toNat - 'A'.toNat + 10)
  else none

/-- Reads four hexadecimal digits. -/
def hex4 : Input → Option (Nat × Input)
  | a :: b :: c :: d :: cs => do
    return ((← hexValue? a) * 4096 + (← hexValue? b) * 256 + (← hexValue? c) * 16 + (← hexValue? d),
      cs)
  | _ => none

/-- Whether a number is the first half of a pair of surrogates. -/
def isHighSurrogate (n : Nat) : Bool := 0xd800 ≤ n && n < 0xdc00

/-- Whether a number is the second half of a pair of surrogates. -/
def isLowSurrogate (n : Nat) : Bool := 0xdc00 ≤ n && n < 0xe000

/-- Reads a character given by number, after `\u`. -/
def unicodeEscape (cs : Input) : Option (Char × Input) := do
  let (n, cs) ← hex4 cs
  if isLowSurrogate n then none
  else if isHighSurrogate n then
    match cs with
    | '\\' :: 'u' :: cs =>
      let (low, cs) ← hex4 cs
      if isLowSurrogate low then
        return (Char.ofNat (0x10000 + (n - 0xd800) * 0x400 + (low - 0xdc00)), cs)
      else none
    | _ => none
  else return (Char.ofNat n, cs)

/-- Reads what follows a backslash. -/
def escape : Input → Option (Char × Input)
  | '"' :: cs => some ('"', cs)
  | '\\' :: cs => some ('\\', cs)
  | '/' :: cs => some ('/', cs)
  | 'b' :: cs => some ('\x08', cs)
  | 'f' :: cs => some ('\x0c', cs)
  | 'n' :: cs => some ('\n', cs)
  | 'r' :: cs => some ('\r', cs)
  | 't' :: cs => some ('\t', cs)
  | 'u' :: cs => unicodeEscape cs
  | _ => none

/-- Reads the rest of a string, after its opening quote.  Every step takes a character, so as many
steps as there are characters suffice. -/
def stringRest : Nat → String → Input → Option (String × Input)
  | 0, _, _ => none
  | steps + 1, read, cs =>
    match cs with
    | [] => none
    | '"' :: cs => some (read, cs)
    | '\\' :: cs => do
      let (c, cs) ← escape cs
      stringRest steps (read.push c) cs
    | c :: cs => if c.toNat < 0x20 then none else stringRest steps (read.push c) cs

/-- Reads the rest of a string, after its opening quote. -/
def string (cs : Input) : Option (String × Input) := stringRest (cs.length + 1) "" cs

/-! ## Numbers -/

/-- The greatest number of 64 bits. -/
def wordMax : Nat := UInt64.size - 1

/-- The value of a decimal digit. -/
def digitValue (c : Char) : Nat := c.toNat - '0'.toNat

/-- Digits collected in 64 bits, and the power of ten by which they are to be scaled. -/
structure Collected where
  digits : Nat
  scale : Int

/-- Collects the digits before the point; those that do not fit count towards the scale. -/
def Collected.whole (c : Collected) (full : Bool) : List Char → Collected
  | [] => c
  | d :: ds =>
    if full || c.digits * 10 + digitValue d > wordMax then
      Collected.whole { c with scale := c.scale + 1 } true ds
    else Collected.whole { c with digits := c.digits * 10 + digitValue d } false ds

/-- Collects the digits after the point; from the first that does not fit on they are ignored. -/
def Collected.fraction (c : Collected) : List Char → Collected
  | [] => c
  | d :: ds =>
    if c.digits * 10 + digitValue d > wordMax then c
    else Collected.fraction ⟨c.digits * 10 + digitValue d, c.scale - 1⟩ ds

/-- A power of ten as a double. -/
def tenTo (n : Nat) : Float := Float.ofScientific 1 false n

/-- Scales a double by a power of ten; `none` where the result would be infinite. -/
def scaled (x : Float) (scale : Int) : Option Float :=
  if scale > 308 then (if x == 0 then some 0 else none)
  else if scale ≥ 0 then
    let y := x * tenTo scale.toNat
    if y.isInf then none else some y
  else if scale ≥ -308 then some (x / tenTo (-scale).toNat)
  else if scale ≥ -616 then some (x / tenTo 308 / tenTo (-scale - 308).toNat)
  else some 0

/-- Reads the digits that come first, of which there must be one. -/
def digits (cs : Input) : Option (List Char × Input) :=
  match cs.span Char.isDigit with
  | ([], _) => none
  | found => some found

/-- Reads the digits before the point: zero alone, or digits that do not start with zero. -/
def wholeDigits (cs : Input) : Option (List Char × Input) :=
  match digits cs with
  | some ('0' :: _ :: _, _) => none
  | found => found

/-- Reads the fraction of a number, if there is one. -/
def fractionDigits : Input → Option (Option (List Char) × Input)
  | '.' :: cs => (digits cs).map fun (ds, cs) => (some ds, cs)
  | cs => some (none, cs)

/-- Reads the exponent of a number, if there is one. -/
def exponent (cs : Input) : Option (Option Int × Input) :=
  match cs with
  | e :: cs =>
    if e == 'e' || e == 'E' then
      let (negative, cs) :=
        match cs with
        | '-' :: cs => (true, cs)
        | '+' :: cs => (false, cs)
        | cs => (false, cs)
      (digits cs).map fun (ds, cs) =>
        let n : Int := ds.foldl (fun n d => n * 10 + digitValue d) 0
        (some (if negative then -n else n), cs)
    else some (none, e :: cs)
  | [] => some (none, [])

/-- Reads a number. -/
def number (cs : Input) : Option (Json × Input) := do
  let (negative, cs) :=
    match cs with
    | '-' :: cs => (true, cs)
    | cs => (false, cs)
  let (whole, cs) ← wholeDigits cs
  let (fraction, cs) ← fractionDigits cs
  let (exp, cs) ← exponent cs
  let n : Nat := whole.foldl (fun n d => n * 10 + digitValue d) 0
  let fits := if negative then 0 < n && n ≤ UInt64.size / 2 else n ≤ wordMax
  if fraction.isNone && exp.isNone && fits then
    return (.int (if negative then -n else n), cs)
  else
    let c := (Collected.whole ⟨0, 0⟩ false whole).fraction (fraction.getD [])
    let x ← scaled c.digits.toUInt64.toFloat (c.scale + exp.getD 0)
    return (.float (.ofFloat (if negative then -x else x)), cs)

/-! ## Values -/

/-- How deep arrays and objects may nest. -/
def maxDepth : Nat := 127

mutual

/-- Reads a value that starts at the first character.  No two steps in a row leave the characters
as they are, so twice as many steps as there are characters suffice. -/
def value (depth : Nat) : Nat → Input → Option (Json × Input)
  | 0, _ => none
  | steps + 1, cs =>
    match cs with
    | [] => none
    | 'n' :: _ => (word "null" cs).map (.null, ·)
    | 't' :: _ => (word "true" cs).map (.bool true, ·)
    | 'f' :: _ => (word "false" cs).map (.bool false, ·)
    | '"' :: cs => do
      let (s, cs) ← string cs
      return (.str s, cs)
    | '[' :: cs =>
      match depth with
      | 0 => none
      | depth + 1 =>
        match skipBlanks cs with
        | ']' :: cs => some (.arr [], cs)
        | cs => items depth steps [] cs
    | '\x7b' :: cs =>
      match depth with
      | 0 => none
      | depth + 1 =>
        match skipBlanks cs with
        | '\x7d' :: cs => some (.obj [], cs)
        | cs => members depth steps [] cs
    | cs => number cs

/-- Reads the items of an array up to its bracket. -/
def items (depth : Nat) : Nat → List Json → Input → Option (Json × Input)
  | 0, _, _ => none
  | steps + 1, read, cs => do
    let (item, cs) ← value depth steps cs
    match skipBlanks cs with
    | ',' :: cs => items depth steps (item :: read) (skipBlanks cs)
    | ']' :: cs => return (.arr (item :: read).reverse, cs)
    | _ => none

/-- Reads the members of an object up to its brace. -/
def members (depth : Nat) : Nat → List (String × Json) → Input → Option (Json × Input)
  | 0, _, _ => none
  | steps + 1, read, cs =>
    match cs with
    | '"' :: cs => do
      let (name, cs) ← string cs
      match skipBlanks cs with
      | ':' :: cs =>
        let (member, cs) ← value depth steps (skipBlanks cs)
        match skipBlanks cs with
        | ',' :: cs => members depth steps ((name, member) :: read) (skipBlanks cs)
        | '\x7d' :: cs => return (.obj ((name, member) :: read).reverse, cs)
        | _ => none
      | _ => none
    | _ => none

end

end Reader

/-- Reads a JSON text: one value and nothing else but blanks. -/
def read? (text : String) : Option Json := do
  let cs := Reader.skipBlanks text.toList
  let (j, rest) ← Reader.value Reader.maxDepth (2 * cs.length + 2) cs
  if (Reader.skipBlanks rest).isEmpty then some j else none

end SharedList.Json
