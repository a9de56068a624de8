import IniDoc.Storage.Basic

/-!
# Watched storages

A storage whose calls are written down, and some of whose calls are made to fail.

* `Call`: a call of a storage as a value, and the line that it leaves in a log.
* `Storage.watched` puts a log and a plan of faults around a storage.
-/

namespace IniDoc

open Text (Bytes)

/-- A call of a storage. Handles are left out; what is read or written shows as its number of bytes. -/
inductive Call where
  | openForRead (name : String)
  | length
  | readAll (count : Nat)
  | openForWrite (name : String)
  | writeAll (count : Nat)
  | close
  deriving Repr, DecidableEq

namespace Call

/-- The word by which a plan of faults names a kind of call. -/
def word : Call → String
  | openForRead _ => "open_for_read"
  | length => "query_length"
  | readAll _ => "read_all"
  | openForWrite _ => "open_for_write"
  | writeAll _ => "write_all"
  | close => "close"

/-- The line of a call in a log. -/
def line (call : Call) : String :=
  match call with
  | openForRead name | openForWrite name => call.word ++ " " ++ name
  | readAll count | writeAll count => call.word ++ " " ++ toString count
  | length | close => call.word

end Call

/-- Which calls of a storage fail, and with which text; and a length to report in the place of the true one. -/
structure Faults where
  failures : List (String × String)
  reported : Option Nat
  deriving Repr

namespace Faults

/-- The plan in which nothing fails. -/
def empty : Faults := ⟨[], none⟩

instance : Inhabited Faults := ⟨empty⟩

/-- The text with which a call fails, if it does. -/
def failure? (faults : Faults) (call : Call) : Option String := faults.failures.lookup call.word

end Faults

variable {m : Type → Type} {η α : Type} [Monad m]

/-- Writes a call down, oldest first, and makes it unless it is to fail. -/
def watch (faults : Faults) (call : Call) (make : m (Except Error α)) : StateT (List Call) m (Except Error α) := do
  modify (· ++ [call])
  match faults.failure? call with
  | some text => return .error (.storage (.failed text))
  | none => make

/-- A storage with a log of its calls and a plan of faults. A handle whose close fails is discarded all the same. -/
def Storage.watched (storage : Storage m η) (faults : Faults) (discard : η → m Unit) :
    Storage (StateT (List Call) m) η where
  openForRead name := watch faults (.openForRead name) (storage.openForRead name)
  length h := watch faults .length do
    match faults.reported with
    | some count => return .ok count
    | none => storage.length h
  readAll h count := watch faults (.readAll count) (storage.readAll h count)
  openForWrite name := watch faults (.openForWrite name) (storage.openForWrite name)
  writeAll h bytes := watch faults (.writeAll bytes.length) (storage.writeAll h bytes)
  close h := do
    match ← watch faults .close (pure (.ok ())) with
    | .ok () => storage.close h
    | .error cause => do
      discard h
      return .error cause

end IniDoc
