import SharedList.Json.Basic
import SharedList.Text.Decimal

/-!
# Compact JSON text

A value is written without any blanks.  In strings the quote, the backslash and the control
characters are escaped; all other characters stand for themselves.
-/

set_option autoImplicit false

namespace SharedList.Json

/-- How a character is written in a JSON string. -/
def escapedChar (c : Char) : String :=
  match c with
  | '"' => "\\\""
  | '\\' => "\\\\"
  | '\x08' => "\\b"
  | '\x0c' => "\\f"
  | '\n' => "\\n"
  | '\r' => "\\r"
  | '\t' => "\\t"
  | c =>
    if c.toNat < 0x20 then
      "\\u00" ++ String.ofList [Nat.digitChar (c.toNat / 16), Nat.digitChar (c.toNat % 16)]
    else c.toString

/-- Writes a string after the text written so far. -/
def writeString (text : String) (s : String) : String :=
  s.foldl (fun text c => text ++ escapedChar c) (text ++ "\"") ++ "\""

mutual

/-- Writes a value after the text written so far. -/
def write (text : String) : Json → String
  | null => text ++ "null"
  | bool b => text ++ (if b then "true" else "false")
  | int n => text ++ toString n
  | float x => text ++ Text.dataNotation.text x
  | str s => writeString text s
  | arr [] => text ++ "[]"
  | arr (item :: items) => writeItems (write (text ++ "[") item) items
  | obj [] => text ++ "\x7b\x7d"
  | obj ((name, value) :: members) =>
    writeMembers (write (writeString (text ++ "\x7b") name ++ ":") value) members

/-- Writes the items of an array that follow its first, and the bracket. -/
def writeItems (text : String) : List Json → String
  | [] => text ++ "]"
  | item :: items => writeItems (write (text ++ ",") item) items

/-- Writes the members of an object that follow its first, and the brace. -/
def writeMembers (text : String) : List (String × Json) → String
  | [] => text ++ "\x7d"
  | (name, value) :: members =>
    writeMembers (write (writeString (text ++ ",") name ++ ":") value) members

end

/-- The compact text of a value. -/
def compact (j : Json) : String := j.write ""

end SharedList.Json
