import IniDoc.Proofs.Files
import IniDoc.Storage.Memory

/-!
# Calls on a memory storage

Calls and their replies as data. What was published under a name, and what a handle shows, can be said without a look at
the tables of the memory; what a call does to the tables is one of seven things.

* `Memory.Op`, `Memory.Reply`, `Memory.perform`: calls as data.
* `Memory.latest?`: the content that was published last under a name, by the calls and their replies alone.
* `Memory.Reads`, `Memory.Writes`: what a handle shows.
* `Memory.Does`: all that a call can do; `Memory.does_perform` says that it does no more.
-/

namespace IniDoc

open Text (Bytes)

/-! ## Calls as data -/

/-- A call on a memory. -/
inductive Memory.Op where
  | put (name : String) (content : Bytes)
  | openForRead (name : String)
  | length (h : Nat)
  | readAll (h count : Nat)
  | openForWrite (name : String)
  | writeAll (h : Nat) (bytes : Bytes)
  | close (h : Nat)
  deriving Repr, DecidableEq

/-- What a memory replies to a call. -/
inductive Memory.Reply where
  | done
  | opened (h : Nat)
  | length (count : Nat)
  | bytes (bytes : Bytes)
  | refused (cause : Error)
  deriving Repr, DecidableEq

/-- A call with its reply. -/
abbrev Memory.Record := Memory.Op × Memory.Reply

namespace Memory

/-- A result as a reply. -/
def Reply.ofResult {α : Type} (reply : α → Reply) : Except Error α → Reply
  | .ok a => reply a
  | .error cause => .refused cause

/-- Makes a call. -/
def perform (memory : Memory) : Op → Reply × Memory
  | .put name content => (.done, memory.put name content)
  | .openForRead name => Prod.map (Reply.ofResult .opened) id ((storage.openForRead name).run memory)
  | .length h => Prod.map (Reply.ofResult .length) id ((storage.length h).run memory)
  | .readAll h count => Prod.map (Reply.ofResult .bytes) id ((storage.readAll h count).run memory)
  | .openForWrite name => Prod.map (Reply.ofResult .opened) id ((storage.openForWrite name).run memory)
  | .writeAll h bytes => Prod.map (Reply.ofResult fun _ => .done) id ((storage.writeAll h bytes).run memory)
  | .close h => Prod.map (Reply.ofResult fun _ => .done) id ((storage.close h).run memory)

/-! ## What the calls tell

A past is a list of calls with their replies, the latest first. -/

/-- The call that opened a handle. -/
def opening? (past : List Record) (h : Nat) : Option Op := (past.find? fun record => record.2 = .opened h).map (·.1)

/-- The bytes that a call writes through a handle. -/
def writtenBy (h : Nat) : Record → Bytes
  | (.writeAll g bytes, .done) => if g = h then bytes else []
  | _ => []

/-- The bytes written through a handle, in the order of the calls. -/
def written (past : List Record) (h : Nat) : Bytes := past.reverse.flatMap (writtenBy h)

/-- What a call publishes after a past: the parts of a name, and the content that is found under them from then on. -/
def published? (past : List Record) : Record → Option (List String × Bytes)
  | (.put name content, .done) => some (Path.parts name, content)
  | (.openForWrite name, .opened _) => some (Path.parts name, [])
  | (.close h, .done) =>
    match opening? past h with
    | some (.openForWrite name) => some (Path.parts name, written past h)
    | _ => none
  | _ => none

/-- The content published last under the parts of a name. -/
def latest? : (past : List Record) → (parts : List String) → Option Bytes
  | [], _ => none
  | record :: past, parts =>
    match published? past record with
    | some (target, content) => if target = parts then some content else latest? past parts
    | none => latest? past parts

/-! ## What a handle shows -/

/-- A handle shows content: its length, and any number of its first bytes as often as they are asked for. -/
def Shows (memory : Memory) (h : Nat) (content : Bytes) : Prop :=
  memory.perform (.length h) = (.length content.length, memory) ∧
    ∀ count, memory.perform (.readAll h count) =
      (if count ≤ content.length then .bytes (content.take count) else .refused (.storage .pastEnd), memory)

/-- A handle shows content and does not take any. -/
def Reads (memory : Memory) (h : Nat) (content : Bytes) : Prop :=
  memory.Shows h content ∧
    ∀ bytes, memory.perform (.writeAll h bytes) = (.refused (.storage .openedForReading), memory)

/-- A handle shows content and takes more, and to close it puts what it shows under a name. -/
def Writes (memory : Memory) (h : Nat) (name : String) (content : Bytes) : Prop :=
  memory.Shows h content ∧ (∀ bytes, (memory.perform (.writeAll h bytes)).1 = .done) ∧
    (memory.perform (.close h)).1 = .done ∧ (memory.perform (.close h)).2.get? name = some content

variable {memory : Memory} {h g : Nat} {resource : Open} {name : String} {bytes : Bytes} {op : Op}

theorem perform_length (hr : memory.handles.get? h = some resource) :
    memory.perform (.length h) = (.length resource.content.length, memory) := by
  show (Reply.ofResult _ (memory.length h), memory) = _
  rw [length, Memory.resource, hr]
  rfl

theorem perform_readAll (hr : memory.handles.get? h = some resource) (count : Nat) :
    memory.perform (.readAll h count) = (if count ≤ resource.content.length then .bytes (resource.content.take count)
      else .refused (.storage .pastEnd), memory) := by
  show (Reply.ofResult _ (memory.readAll h count), memory) = _
  rw [readAll, Memory.resource, hr]
  by_cases hc : count ≤ resource.content.length <;> simp [bind, Except.bind, hc, Reply.ofResult]

theorem perform_writeAll (hr : memory.handles.get? h = some resource) (bytes : Bytes) :
    memory.perform (.writeAll h bytes) =
      if resource.writable then
        (.done, { memory with
          handles := memory.handles.set h { resource with content := resource.content ++ bytes } })
      else (.refused (.storage .openedForReading), memory) := by
  show Prod.map _ id (memory.writeAll h bytes) = _
  rw [writeAll, Memory.resource, hr]
  dsimp only
  split <;> rfl

theorem perform_close (hr : memory.handles.get? h = some resource) :
    memory.perform (.close h) = (.done,
      if resource.writable then (memory.discard h).publish resource.parts resource.content
      else memory.discard h) := by
  show Prod.map _ id (memory.close h) = _
  rw [close, Memory.resource, hr]
  rfl

theorem shows_of_handle (hr : memory.handles.get? h = some resource) : memory.Shows h resource.content :=
  ⟨perform_length hr, perform_readAll hr⟩

/-- The handle that a call goes through. -/
def Op.handle? : Op → Option Nat
  | .put .. | .openForRead _ | .openForWrite _ => none
  | .length h | .readAll h _ | .writeAll h _ | .close h => some h

/-- A call through a handle that is not open is refused. -/
theorem perform_of_closed (hop : op.handle? = some h) (hr : memory.handles.get? h = none) :
    memory.perform op = (.refused (.storage .badHandle), memory) := by
  have hnone : memory.resource h = .error (.storage .badHandle) := by rw [Memory.resource, hr]
  cases op with
  | put name content => cases hop
  | openForRead name => cases hop
  | openForWrite name => cases hop
  | length g =>
    cases hop
    show (Reply.ofResult _ (memory.length h), memory) = _
    rw [length, hnone]
    rfl
  | readAll g count =>
    cases hop
    show (Reply.ofResult _ (memory.readAll h count), memory) = _
    rw [readAll, hnone]
    rfl
  | writeAll g bytes =>
    cases hop
    show Prod.map _ id (memory.writeAll h bytes) = _
    rw [writeAll, hnone]
    rfl
  | close g =>
    cases hop
    show Prod.map _ id (memory.close h) = _
    rw [close, hnone]
    rfl

theorem perform_openForRead_of_none (hn : memory.get? name = none) :
    memory.perform (.openForRead name) = (.refused (.storage (.absent name)), memory) := by
  show Prod.map _ id (memory.openForRead name) = _
  rw [openForRead, hn]
  rfl

theorem perform_openForRead_of_some {content : Bytes} (hn : memory.get? name = some content) :
    memory.perform (.openForRead name) = (.opened memory.handles.next,
      { memory with handles := (memory.handles.add ⟨Path.parts name, content, false⟩).2 }) := by
  show Prod.map _ id (memory.openForRead name) = _
  rw [openForRead, hn]
  rfl

theorem getElem?_publish (memory : Memory) (parts : List String) (content : Bytes) (p : List String) :
    (memory.publish parts content).resources[p]? = if parts = p then some content else memory.resources[p]? := by
  rw [publish, Std.TreeMap.getElem?_insert]
  simp

/-! ## What a call can do -/

/-- A call with its reply tells nothing of names and opens and writes nothing. -/
structure Quiet (record : Record) : Prop where
  published? : ∀ past, published? past record = none
  opened : ∀ h, record.2 ≠ .opened h
  writtenBy : ∀ h, writtenBy h record = []

theorem quiet_refused (op : Op) (cause : Error) : Quiet (op, .refused cause) := by
  constructor
  · intro past
    cases op <;> rfl
  · exact fun _ => nofun
  · intro h
    cases op <;> rfl

/-- All that a call can do to a memory, with its reply. -/
inductive Does (memory : Memory) : Record → Memory → Prop where
  | looked (record : Record) (hquiet : Quiet record) : memory.Does record memory
  | put (name : String) (content : Bytes) : memory.Does (.put name content, .done) (memory.put name content)
  | openedForRead (name : String) (content : Bytes) (hn : memory.get? name = some content) :
    memory.Does (.openForRead name, .opened memory.handles.next)
      { memory with handles := (memory.handles.add ⟨Path.parts name, content, false⟩).2 }
  | openedForWrite (name : String) :
    memory.Does (.openForWrite name, .opened memory.handles.next)
      { memory.put name [] with handles := (memory.handles.add ⟨Path.parts name, [], true⟩).2 }
  | wrote (h : Nat) (bytes : Bytes) (resource : Open) (hr : memory.handles.get? h = some resource)
    (hw : resource.writable = true) :
    memory.Does (.writeAll h bytes, .done)
      { memory with handles := memory.handles.set h { resource with content := resource.content ++ bytes } }
  | closedReader (h : Nat) (resource : Open) (hr : memory.handles.get? h = some resource)
    (hw : resource.writable = false) : memory.Does (.close h, .done) (memory.discard h)
  | closedWriter (h : Nat) (resource : Open) (hr : memory.handles.get? h = some resource)
    (hw : resource.writable = true) :
    memory.Does (.close h, .done) ((memory.discard h).publish resource.parts resource.content)

theorem does_of_closed (hop : op.handle? = some h) (hr : memory.handles.get? h = none) :
    memory.Does (op, (memory.perform op).1) (memory.perform op).2 := by
  rw [perform_of_closed hop hr]
  exact .looked _ (quiet_refused _ _)

theorem does_perform (memory : Memory) (op : Op) :
    memory.Does (op, (memory.perform op).1) (memory.perform op).2 := by
  cases op with
  | put name content => exact .put name content
  | openForRead name =>
    cases hn : memory.get? name with
    | none =>
      rw [perform_openForRead_of_none hn]
      exact .looked _ (quiet_refused _ _)
    | some content =>
      rw [perform_openForRead_of_some hn]
      exact .openedForRead name content hn
  | openForWrite name => exact .openedForWrite name
  | length h =>
    cases hr : memory.handles.get? h with
    | none => exact does_of_closed rfl hr
    | some resource =>
      rw [perform_length hr]
      exact .looked _ ⟨fun _ => rfl, fun _ => nofun, fun _ => rfl⟩
  | readAll h count =>
    cases hr : memory.handles.get? h with
    | none => exact does_of_closed rfl hr
    | some resource =>
      rw [perform_readAll hr]
      dsimp only
      split
      · exact .looked _ ⟨fun _ => rfl, fun _ => nofun, fun _ => rfl⟩
      · exact .looked _ (quiet_refused _ _)
  | writeAll h bytes =>
    cases hr : memory.handles.get? h with
    | none => exact does_of_closed rfl hr
    | some resource =>
      rw [perform_writeAll hr]
      split
      · next hw => exact .wrote h bytes resource hr hw
      · exact .looked _ (quiet_refused _ _)
  | close h =>
    cases hr : memory.handles.get? h with
    | none => exact does_of_closed rfl hr
    | some resource =>
      rw [perform_close hr]
      dsimp only
      split
      · next hw => exact .closedWriter h resource hr hw
      · next hw => exact .closedReader h resource hr (by simpa using hw)

end Memory

end IniDoc
