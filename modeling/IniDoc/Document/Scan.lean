import IniDoc.Document.Basic
import IniDoc.Text.Encoding
import IniDoc.Text.Item

/-!
# Scanning

What the items of a text do to a document. Sections and keys are added in the order of the text; a repeated name
updates what is there; what makes no sense is dropped and counted.

* `Progress.add` does what one item says.
* `Document.scan` adds a whole text, `Document.parse` and `Document.ofBytes` make a document of one.
-/

namespace IniDoc

open Text (Bytes Encoding Item byteCount lineFeeds)

/-- How a text is read. -/
structure Options where
  /-- Whether a value in double quotes stands for what is between them. -/
  quotes : Bool
  /-- Whether an unclosed quote is an error. Otherwise it ends the scan. -/
  strict : Bool
  /-- How the text is kept as bytes. -/
  encoding : Encoding
  deriving Repr, DecidableEq

instance : Inhabited Options := ⟨false, false, .latin1⟩

/-- What a scan accepted and dropped. -/
structure Summary where
  /-- The headers accepted, repeated ones included. -/
  sections : Nat
  /-- The entries accepted, updates included. -/
  keys : Nat
  /-- The headers and lines dropped. -/
  skipped : Nat
  /-- The bytes from an unclosed quote on. -/
  abandoned : Nat
  deriving Repr, DecidableEq

/-- The state of a scan: the document so far, the section that entries go to, and the counts. -/
structure Progress where
  document : Document
  current : Option SectionId
  summary : Summary

namespace Progress

/-- The state before the first item. -/
def start (d : Document) : Progress := ⟨d, none, ⟨0, 0, 0, 0⟩⟩

/-- Counts something dropped. -/
def skip (p : Progress) : Progress :=
  { p with summary := { p.summary with skipped := p.summary.skipped + 1 } }

/-- Makes the section with a name the current one. -/
def addHeader (p : Progress) (name : String) : Progress :=
  match p.document.addSection name with
  | .ok (id, document) =>
    { document, current := some id, summary := { p.summary with sections := p.summary.sections + 1 } }
  | .error _ => { p with current := none }.skip

/-- Adds an entry to the current section. -/
def addEntry (p : Progress) (name data : String) : Progress :=
  match p.current.bind fun id => p.document.updateSection id (·.add name data) with
  | some (.ok (_, document)) =>
    { p with document, summary := { p.summary with keys := p.summary.keys + 1 } }
  | _ => p.skip

/-- Does what an item says. -/
def add (p : Progress) : Item → Progress
  | .header name => p.addHeader name
  | .namelessHeader => { p with current := none }.skip
  | .outside | .comment => p
  | .noEquals => p.skip
  | .entry name data => p.addEntry name data
  | .unclosed tail => { p.skip with summary := { p.skip.summary with abandoned := byteCount tail } }

/-- Does what all items say. -/
def addAll (p : Progress) (items : List Item) : Progress := items.foldl add p

end Progress

/-- The error of a quote that is not closed, at the place in the text where its tail begins. -/
def unclosedQuote (text tail : List Char) : Error :=
  let offset := byteCount text - byteCount tail
  .unclosedQuote (lineFeeds (text.take (text.length - tail.length)) + 1) offset

namespace Document

/-- Adds a text to a document and tells what was accepted. A strict scan fails at an unclosed quote; what stands
before the quote has been added all the same. -/
def scanChars (d : Document) (options : Options) (text : List Char) : Document × Except Error Summary :=
  let items := Item.all options.quotes text
  let final := (Progress.start d).addAll items
  let result := match options.strict, items.findSome? Item.unclosed? with
    | true, some tail => .error (unclosedQuote text tail)
    | _, _ => .ok final.summary
  (final.document, result)

/-- Adds a text to a document. -/
def scan (d : Document) (options : Options) (text : String) : Document × Except Error Summary :=
  d.scanChars options text.toList

/-- The document that a text stands for. -/
def parse (id : Nat) (options : Options) (text : String) : Except Error Document :=
  let (d, summary) := (empty id).scan options text
  summary.map fun _ => d

/-- The document that bytes stand for. -/
def ofBytes (id : Nat) (options : Options) (bytes : Bytes) : Except Error Document :=
  parse id options (options.encoding.decode bytes)

end Document

end IniDoc
