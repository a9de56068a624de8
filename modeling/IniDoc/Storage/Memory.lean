import Std.Data.TreeMap
import IniDoc.Storage.Basic
import IniDoc.Storage.Path

/-!
# Storage in memory

Named byte strings. A handle for reading holds the content its resource had when it was opened; a handle for writing
collects what is written and publishes it as a whole when it is closed. Until then the resource is empty, as opening
it for writing leaves it.

* `Memory.get?`, `Memory.put`: the content under a name.
* `Memory.storage`: the storage operations.
* `Memory.discard` gives a handle up and publishes nothing.
-/

namespace IniDoc

open Text (Bytes)

/-- An open resource: the parts of its name, its content as far as the handle knows, and whether it is written. -/
structure Memory.Open where
  parts : List String
  content : Bytes
  writable : Bool
  deriving Repr, DecidableEq

/-- The resources by the parts of their names, and the open handles. -/
structure Memory where
  resources : Std.TreeMap (List String) Bytes
  handles : Handles Memory.Open

namespace Memory

/-- The storage of no resources. -/
def empty : Memory := ⟨{}, .empty⟩

instance : Inhabited Memory := ⟨empty⟩

/-- The content under a name. -/
def get? (memory : Memory) (name : String) : Option Bytes := memory.resources[Path.parts name]?

/-- Keeps content under the parts of a name. -/
def publish (memory : Memory) (parts : List String) (content : Bytes) : Memory :=
  { memory with resources := memory.resources.insert parts content }

/-- Keeps content under a name, in the place of what was there. -/
def put (memory : Memory) (name : String) (content : Bytes) : Memory := memory.publish (Path.parts name) content

/-- Adds a handle. -/
def addHandle (memory : Memory) (resource : Open) : Nat × Memory :=
  let (h, handles) := memory.handles.add resource
  (h, { memory with handles })

/-- Gives a handle up and publishes nothing. -/
def discard (memory : Memory) (h : Nat) : Memory := { memory with handles := memory.handles.erase h }

/-- Opens a resource for reading what it holds now. -/
def openForRead (memory : Memory) (name : String) : Except Error Nat × Memory :=
  match memory.get? name with
  | some content =>
    let (h, memory) := memory.addHandle ⟨Path.parts name, content, false⟩
    (.ok h, memory)
  | none => (.error (.storage (.absent name)), memory)

/-- Empties a resource and opens it for writing. -/
def openForWrite (memory : Memory) (name : String) : Except Error Nat × Memory :=
  let (h, memory) := (memory.put name []).addHandle ⟨Path.parts name, [], true⟩
  (.ok h, memory)

/-- What an open handle stands for. -/
def resource (memory : Memory) (h : Nat) : Except Error Open :=
  match memory.handles.get? h with
  | some resource => .ok resource
  | none => .error (.storage .badHandle)

/-- The number of bytes that a handle knows. -/
def length (memory : Memory) (h : Nat) : Except Error Nat := (memory.resource h).map (·.content.length)

/-- The first bytes that a handle knows; nothing is used up. -/
def readAll (memory : Memory) (h count : Nat) : Except Error Bytes := do
  let resource ← memory.resource h
  if count ≤ resource.content.length then .ok (resource.content.take count) else .error (.storage .pastEnd)

/-- Collects bytes in a handle for writing. -/
def writeAll (memory : Memory) (h : Nat) (bytes : Bytes) : Except Error Unit × Memory :=
  match memory.resource h with
  | .ok resource =>
    if resource.writable then
      (.ok (), { memory with
        handles := memory.handles.set h { resource with content := resource.content ++ bytes } })
    else (.error (.storage .openedForReading), memory)
  | .error cause => (.error cause, memory)

/-- Gives a handle up; what was written through it becomes the content under its name. -/
def close (memory : Memory) (h : Nat) : Except Error Unit × Memory :=
  match memory.resource h with
  | .ok resource =>
    let memory := memory.discard h
    (.ok (), if resource.writable then memory.publish resource.parts resource.content else memory)
  | .error cause => (.error cause, memory)

/-- A memory as a storage. -/
def storage : Storage (StateM Memory) Nat where
  openForRead name := fun memory => memory.openForRead name
  length h := fun memory => (memory.length h, memory)
  readAll h count := fun memory => (memory.readAll h count, memory)
  openForWrite name := fun memory => memory.openForWrite name
  writeAll h bytes := fun memory => memory.writeAll h bytes
  close h := fun memory => memory.close h

end Memory

end IniDoc
