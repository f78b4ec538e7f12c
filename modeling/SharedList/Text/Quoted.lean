import SharedList.Text.Glyph

/-!
# Quoted text

A text in quotes, with what could be mistaken for the quotes or for nothing spelled out:
`\"`, `\\`, `\t`, `\r`, `\n`, `\0`, and `\u` with the number of the character in hexadecimal and
braces for every other character without a glyph of its own.
-/

set_option autoImplicit false

namespace SharedList.Text

/-- The hexadecimal digits of a number, without leading zeros. -/
def hexDigits (n : Nat) : String := String.ofList (Nat.toDigits 16 n)

/-- How a character is written between quotes. -/
def quotedChar (c : Char) : String :=
  match c with
  | '"' => "\\\""
  | '\\' => "\\\\"
  | '\t' => "\\t"
  | '\r' => "\\r"
  | '\n' => "\\n"
  | '\x00' => "\\0"
  | c => if isGlyphless c then "\\u\x7b" ++ hexDigits c.toNat ++ "\x7d" else c.toString

/-- A text in quotes. -/
def quoted (s : String) : String :=
  s.foldl (fun text c => text ++ quotedChar c) "\"" ++ "\""

end SharedList.Text
