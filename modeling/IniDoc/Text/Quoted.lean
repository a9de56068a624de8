import IniDoc.Text.Printable

/-!
# Quoted text

How characters and strings are shown in messages and descriptions: between quotes, with escapes for what would not be
seen as itself.
-/

namespace IniDoc.Text

/-- A code point in lower-case hexadecimal. -/
def lowerHex (code : Nat) : List Char := Nat.toDigits 16 code

/-- A code point in upper-case hexadecimal, with at least four digits. -/
def upperHex (code : Nat) : List Char :=
  let digits := (Nat.toDigits 16 code).map Char.toUpper
  List.replicate (4 - digits.length) '0' ++ digits

/-- The escape of a character by its code point. -/
def escapeCode (c : Char) : List Char := ['\\', 'u', '\x7b'] ++ lowerHex c.toNat ++ ['\x7d']

/-- A character as it stands between two quotes of the given kind. -/
def escape (quote c : Char) : List Char :=
  if c == '\x00' then ['\\', '0']
  else if c == '\t' then ['\\', 't']
  else if c == '\r' then ['\\', 'r']
  else if c == '\n' then ['\\', 'n']
  else if c == '\\' || c == quote then ['\\', c]
  else if isExtender c || isHidden c then escapeCode c
  else [c]

/-- A character between single quotes. -/
def quoteChar (c : Char) : String := String.ofList ('\'' :: escape '\'' c ++ ['\''])

/-- A string between double quotes. -/
def quoteString (s : String) : String := String.ofList ('"' :: s.toList.flatMap (escape '"') ++ ['"'])

end IniDoc.Text
