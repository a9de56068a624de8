/-!
# UTF-8

Reading UTF-8 that may be ill formed: every maximal part of a sequence that cannot be completed reads as one
replacement character, and reading goes on at the byte that did not fit.

* `Utf8.Pending` is what is known of a character whose last bytes are still to come.
* `Utf8.step` reads one byte.
* `Utf8.decode` reads all of them.
-/

namespace IniDoc.Text

/-- The bytes of a file. -/
abbrev Bytes := List UInt8

namespace Utf8

/-- The character that stands for bytes that are no character. -/
def replacement : Char := '\uFFFD'

/-- An unfinished character: the bits read so far, the number of bytes still owed, and the range of the next one. The
range is narrower than that of other continuation bytes only behind the first byte. -/
structure Pending where
  bits : Nat
  owed : Nat
  low : Nat
  high : Nat
  deriving Repr, DecidableEq

/-- What a byte can be at the start of a character. -/
inductive Lead where
  /-- A character of its own. -/
  | ascii
  /-- The first byte of a longer character. -/
  | opening (pending : Pending)
  /-- No first byte of any character. -/
  | invalid
  deriving Repr, DecidableEq

/-- The first bytes of characters. The ranges of the second byte leave out overlong forms, surrogates and code points
beyond the last one. -/
def lead (byte : Nat) : Lead :=
  if byte < 0x80 then .ascii
  else if byte < 0xC2 then .invalid
  else if byte < 0xE0 then .opening ⟨byte - 0xC0, 1, 0x80, 0xBF⟩
  else if byte = 0xE0 then .opening ⟨0, 2, 0xA0, 0xBF⟩
  else if byte = 0xED then .opening ⟨0xD, 2, 0x80, 0x9F⟩
  else if byte < 0xF0 then .opening ⟨byte - 0xE0, 2, 0x80, 0xBF⟩
  else if byte = 0xF0 then .opening ⟨0, 3, 0x90, 0xBF⟩
  else if byte < 0xF4 then .opening ⟨byte - 0xF0, 3, 0x80, 0xBF⟩
  else if byte = 0xF4 then .opening ⟨4, 3, 0x80, 0x8F⟩
  else .invalid

/-- Reads a byte where a character may start: the characters that are now complete and the one that is not. -/
def start (byte : Nat) : List Char × Option Pending :=
  match lead byte with
  | .ascii => ([Char.ofNat byte], none)
  | .opening pending => ([], some pending)
  | .invalid => ([replacement], none)

/-- Reads a byte behind an unfinished character, if there is one. A byte that does not continue it starts afresh. -/
def step (pending : Option Pending) (byte : Nat) : List Char × Option Pending :=
  match pending with
  | none => start byte
  | some p =>
    if p.low ≤ byte ∧ byte ≤ p.high then
      let bits := p.bits * 64 + (byte - 0x80)
      if p.owed ≤ 1 then ([Char.ofNat bits], none) else ([], some ⟨bits, p.owed - 1, 0x80, 0xBF⟩)
    else
      let (chars, next) := start byte
      (replacement :: chars, next)

/-- Reads bytes behind an unfinished character. One that is unfinished at the end is replaced. -/
def decodeFrom (pending : Option Pending) : Bytes → List Char
  | [] => if pending.isSome then [replacement] else []
  | byte :: rest =>
    let (chars, next) := step pending byte.toNat
    chars ++ decodeFrom next rest

/-- The text that bytes stand for. -/
def decode (bytes : Bytes) : List Char := decodeFrom none bytes

/-- The bytes that stand for a text. -/
def encode (text : List Char) : Bytes := text.flatMap String.utf8EncodeChar

end Utf8

end IniDoc.Text
