import IniDoc.Document.Layout
import IniDoc.Document.Scan
import IniDoc.Storage.Basic

/-!
# Documents in storages

A document is read from a storage as a whole and written to it as a whole. Every handle that is opened is closed, also
when something fails in between, and the first failure is the one reported. A reader has room for so many bytes in one
buffer and no more.

* `Document.loadFrom`, `Document.load`: reading, through a handle or by name.
* `Document.saveTo`, `Document.save`: writing, through a handle or by name.
-/

namespace IniDoc

open Text (Bytes Encoding)

/-- The largest number of bytes that can be asked for. -/
def maxRequest : Nat := Nat.pow 2 64 - 1

namespace Document

variable {m : Type → Type} {η : Type} [Monad m]

/-- Reads the resource behind an open handle. The buffer holds one byte more than the resource, a zero byte that ends
the text; a resource that leaves no room for it is not read. -/
def loadFrom (storage : Storage m η) (h : η) (options : Options) (id room : Nat) : m (Except Error Document) := do
  match ← storage.length h with
  | .error cause => return .error cause
  | .ok length =>
    if length + 1 > room then return .error (.outOfMemory (min (length + 1) maxRequest))
    else match ← storage.readAll h length with
      | .error cause => return .error cause
      | .ok bytes => return ofBytes id options (bytes ++ [0])

/-- Reads a resource. -/
def load (storage : Storage m η) (name : String) (options : Options) (id room : Nat) : m (Except Error Document) := do
  match ← storage.openForRead name with
  | .error cause => return .error cause
  | .ok h =>
    let loaded ← loadFrom storage h options id room
    let closed ← storage.close h
    return do
      let d ← loaded
      closed
      return d

/-- Writes a document through an open handle. -/
def saveTo (d : Document) (storage : Storage m η) (h : η) (encoding : Encoding) : m (Except Error Unit) :=
  match d.toBytes encoding with
  | .error cause => return .error cause
  | .ok bytes => storage.writeAll h bytes

/-- Writes a document in the place of a resource. A document that the encoding cannot write leaves the storage
alone. -/
def save (d : Document) (storage : Storage m η) (name : String) (encoding : Encoding) : m (Except Error Unit) :=
  match d.toBytes encoding with
  | .error cause => return .error cause
  | .ok bytes => do
    match ← storage.openForWrite name with
    | .error cause => return .error cause
    | .ok h =>
      let written ← storage.writeAll h bytes
      let closed ← storage.close h
      return do
        written
        closed

end Document

end IniDoc
