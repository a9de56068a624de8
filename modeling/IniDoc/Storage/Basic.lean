import IniDoc.Error
import IniDoc.Text.Utf8

/-!
# Storages

A storage opens, reads, writes and closes named resources. It is a record of its six operations in a monad, so that a
storage in memory, a tree of files and the files of the machine are used alike.

* `Storage`: the six operations.
* `Volume`: a storage that can also tell whether a name leads anywhere.
-/

namespace IniDoc

open Text (Bytes)

/-- The operations of a storage with handles `η` in a monad `m`. A handle is used by its storage only, and not after
it is closed. -/
structure Storage (m : Type → Type) (η : Type) where
  /-- Opens a resource for reading. -/
  openForRead : String → m (Except Error η)
  /-- The number of bytes of the resource. -/
  length : η → m (Except Error Nat)
  /-- The first bytes of the resource, exactly as many as asked for. -/
  readAll : η → Nat → m (Except Error Bytes)
  /-- Makes a resource that can be written, or empties the one there is. -/
  openForWrite : String → m (Except Error η)
  /-- Writes bytes behind those written before. -/
  writeAll : η → Bytes → m (Except Error Unit)
  /-- Gives the handle up; everything written through it is kept. -/
  close : η → m (Except Error Unit)

/-- A storage that can tell whether a name leads to anything. -/
structure Volume (m : Type → Type) (η : Type) extends Storage m η where
  /-- Whether a name leads to anything. -/
  isPresent : String → m Bool

/-- The open handles of a storage, numbered in the order of their opening. -/
structure Handles (α : Type) where
  next : Nat
  entries : List (Nat × α)

namespace Handles

variable {α : Type}

/-- No open handles. -/
def empty : Handles α := ⟨0, []⟩

instance : Inhabited (Handles α) := ⟨empty⟩

/-- Opens a handle. -/
def add (handles : Handles α) (a : α) : Nat × Handles α :=
  (handles.next, ⟨handles.next + 1, (handles.next, a) :: handles.entries⟩)

/-- What a handle stands for, unless it is closed. -/
def get? (handles : Handles α) (h : Nat) : Option α := handles.entries.lookup h

/-- Closes a handle. -/
def erase (handles : Handles α) (h : Nat) : Handles α :=
  { handles with entries := handles.entries.filter (·.1 != h) }

/-- Changes what a handle stands for. -/
def set (handles : Handles α) (h : Nat) (a : α) : Handles α :=
  { handles with entries := handles.entries.map fun (g, b) => if g == h then (g, a) else (g, b) }

end Handles

end IniDoc
