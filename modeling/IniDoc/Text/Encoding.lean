import IniDoc.Error
import IniDoc.Text.Utf8

/-!
# Encodings

A document is a text in one of two encodings, as bytes in a storage.

* `Encoding.decode` never fails; a zero byte ends the text.
* `Encoding.encodeOnto` writes behind what is in a buffer. It fails at the first character that the encoding lacks, and
  then leaves the buffer as it was.
* `Encoding.encode` is what it writes, and `Encoding.encodedLength` is how much that is.
-/

namespace IniDoc.Text

/-- How a text is kept as bytes. -/
inductive Encoding where
  | latin1
  | utf8
  deriving Repr, DecidableEq, Inhabited

namespace Encoding

/-- The bytes before the first zero byte. -/
def beforeZero (bytes : Bytes) : Bytes := bytes.takeWhile (· != 0)

/-- The characters that bytes stand for, up to the first zero byte. In Latin-1 every byte is the character of its
number. -/
def decodeChars (encoding : Encoding) (bytes : Bytes) : List Char :=
  match encoding with
  | latin1 => (beforeZero bytes).map fun byte => Char.ofNat byte.toNat
  | utf8 => Utf8.decode (beforeZero bytes)

/-- The text that bytes stand for, up to the first zero byte. -/
def decode (encoding : Encoding) (bytes : Bytes) : String := String.ofList (encoding.decodeChars bytes)

/-- The byte of a character in Latin-1, which has the first 256 characters. -/
def latin1Byte (c : Char) : Except Error UInt8 :=
  if c.toNat < 256 then .ok (UInt8.ofNat c.toNat) else .error (.unencodable c)

/-- Writes the bytes of characters behind what is in a buffer, up to the first character that Latin-1 lacks. -/
def pushLatin1 (buffer : Array UInt8) : List Char → Except Error Unit × Array UInt8
  | [] => (.ok (), buffer)
  | c :: rest =>
    match latin1Byte c with
    | .ok byte => pushLatin1 (buffer.push byte) rest
    | .error e => (.error e, buffer)

/-- Writes the bytes of a text behind what is in a buffer. When that fails, what was written is cut off again. -/
def encodeOnto (encoding : Encoding) (buffer : Array UInt8) (text : String) : Except Error Unit × Array UInt8 :=
  match encoding with
  | latin1 =>
    match pushLatin1 buffer text.toList with
    | (.ok (), written) => (.ok (), written)
    | (.error e, written) => (.error e, written.take buffer.size)
  | utf8 => (.ok (), buffer ++ Utf8.encode text.toList)

/-- The bytes of a text. -/
def encode (encoding : Encoding) (text : String) : Except Error Bytes :=
  match encoding.encodeOnto #[] text with
  | (.ok (), written) => .ok written.toList
  | (.error e, _) => .error e

/-- The number of bytes of a text, counted without writing them. -/
def encodedLength (encoding : Encoding) (text : String) : Except Error Nat :=
  match encoding with
  | latin1 => text.toList.foldlM (fun length c => (latin1Byte c).map fun _ => length + 1) 0
  | utf8 => .ok text.utf8ByteSize

end Encoding

end IniDoc.Text
