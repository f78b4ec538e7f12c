/-!
# Digests of texts

The digest of a text is the 64-bit FNV-1a hash of its UTF-8 bytes, written as sixteen hexadecimal
digits.
-/

set_option autoImplicit false

namespace SharedList.Text

/-- The hash of no bytes. -/
def digestBasis : UInt64 := 0xcbf29ce484222325

/-- The factor by which the hash is multiplied for each byte. -/
def digestPrime : UInt64 := 0x100000001b3

/-- Takes one more byte into the hash. -/
def digestStep (hash : UInt64) (b : UInt8) : UInt64 := (hash ^^^ b.toUInt64) * digestPrime

/-- The digest of a text. -/
def digest (s : String) : String :=
  let hash := s.toUTF8.foldl digestStep digestBasis
  let digits := Nat.toDigits 16 hash.toNat
  String.ofList (List.replicate (16 - digits.length) '0' ++ digits)

end SharedList.Text
