import IniDoc.Document.Basic
import IniDoc.Text.Encoding

/-!
# Layout

The canonical text of a document: a header and the entries per section, each on a line that ends in CRLF, and an empty
line between sections.

* `Document.text` is that text, `Document.toBytes` its bytes in an encoding.
* `Document.byteSize` counts the bytes without writing them.
-/

namespace IniDoc

open Text (Encoding Bytes)

/-- Every line ends in a carriage return and a line feed. -/
def lineEnd : String := "\r\n"

/-- The line of an entry. -/
def Key.line (key : Key) : String := key.name ++ "=" ++ key.data ++ lineEnd

/-- The line of a header. -/
def Section.headerLine (s : Section) : String := "[" ++ s.name ++ "]" ++ lineEnd

/-- The lines of a section. -/
def Section.text (s : Section) : String := s.headerLine ++ String.join (s.keys.toList.map Key.line)

namespace Document

/-- The text of a document, with an empty line between sections. -/
def text (d : Document) : String := String.intercalate lineEnd (d.sections.toList.map Section.text)

/-- The bytes of a document's text. The first character in the order of writing that the encoding lacks is reported. -/
def toBytes (d : Document) (encoding : Encoding) : Except Error Bytes := encoding.encode d.text

/-! ## Counting without writing -/

/-- The bytes of an entry beside its name and value: the equals sign and the line end. -/
def entryOverhead : Nat := 3

/-- The bytes of a header beside its name: two brackets and the line end. -/
def headerOverhead : Nat := 4

/-- The bytes of an empty line. -/
def separatorLength : Nat := 2

/-- The number of bytes of an entry's line. -/
def entryByteSize (encoding : Encoding) (key : Key) : Except Error Nat := do
  let name ← encoding.encodedLength key.name
  let data ← encoding.encodedLength key.data
  return name + data + entryOverhead

/-- The number of bytes of a section's lines. -/
def sectionByteSize (encoding : Encoding) (s : Section) : Except Error Nat := do
  let name ← encoding.encodedLength s.name
  s.keys.toList.foldlM (fun total key => return total + (← entryByteSize encoding key)) (name + headerOverhead)

/-- The number of bytes of a document's text. -/
def byteSize (d : Document) (encoding : Encoding) : Except Error Nat := do
  let sizes ← d.sections.toList.mapM (sectionByteSize encoding)
  return sizes.foldr (· + ·) 0 + (sizes.length - 1) * separatorLength

end Document

end IniDoc
