import Mathlib.Algebra.Group.Nat.Defs
import IniDoc.Proofs.Files
import IniDoc.Storage.Memory
import IniDoc.Storage.Watched

/-!
# Loading what a storage reports

A document is loaded from as many bytes as the storage says there are, also when that is not their true number. Nothing
but these bytes counts: not the buffer they are read into, and not what stands behind a zero byte.

* `Document.ofReported`: the result of reading a content of which a length is reported, and the calls it takes.
* `Memory.run_loadFrom_reported`, `Memory.run_load_reported`: a memory that reports any length.
* `Document.load_eq_ofBytes`: loading with all the room that a machine of 64 bits can have.
-/

namespace IniDoc

open Text (Bytes)

/-- What comes of reading a content of which `n` bytes are reported, with room for so many bytes in one buffer, and the
calls that are made for it. -/
def Document.ofReported (id : Nat) (options : Options) (room : Nat) (content : Bytes) (n : Nat) :
    Except Error Document × List Call :=
  if n + 1 > room then (.error (.outOfMemory (min (n + 1) maxRequest)), [.length])
  else if n ≤ content.length then (ofBytes id options (content.take n), [.length, .readAll n])
  else (.error (.storage .pastEnd), [.length, .readAll n])

/-- With the true length all of the content is read, if there is room for it. -/
theorem Document.ofReported_length (id : Nat) (options : Options) (room : Nat) (content : Bytes) :
    (ofReported id options room content content.length).1 =
      if content.length + 1 > room then .error (.outOfMemory (min (content.length + 1) maxRequest))
      else ofBytes id options content := by
  rw [ofReported, if_pos (Nat.le_refl _), List.take_length]
  split <;> rfl

/-! ## Watched storages without failures -/

section Watched

variable {σ α β : Type}

theorem run_watched_bind (x : StateT (List Call) (StateM σ) α) (f : α → StateT (List Call) (StateM σ) β)
    (calls : List Call) (s : σ) : ((x >>= f).run calls).run s =
      let r := (x.run calls).run s
      ((f r.1.1).run r.1.2).run r.2 := rfl

end Watched

namespace Memory

variable {memory : Memory} {h : Nat} {resource : Memory.Open} {name : String} {content : Bytes}

/-- A resource is opened as a handle that knows its content. -/
theorem exists_openForRead (hc : memory.get? name = some content) : ∃ h opened,
    memory.openForRead name = (.ok h, opened) ∧ opened.resource h = .ok ⟨Path.parts name, content, false⟩ := by
  refine ⟨memory.handles.next, { memory with handles := (memory.handles.add ⟨Path.parts name, content, false⟩).2 },
    ?_, ?_⟩
  · rw [openForRead, hc]
    rfl
  · rw [Memory.resource, Handles.get?_add]

variable (reported : Option Nat) (discard : Nat → StateM Memory Unit)

theorem run_openForRead_reported (memory : Memory) (name : String) (calls : List Call) :
    (((storage.watched ⟨[], reported⟩ discard).openForRead name).run calls).run memory =
      (((memory.openForRead name).1, calls ++ [.openForRead name]), (memory.openForRead name).2) := rfl

theorem run_length_reported (hr : memory.resource h = .ok resource) (calls : List Call) :
    (((storage.watched ⟨[], reported⟩ discard).length h).run calls).run memory =
      ((.ok (reported.getD resource.content.length), calls ++ [.length]), memory) := by
  cases reported with
  | some count => rfl
  | none =>
    show ((memory.length h, calls ++ [.length]), memory) = _
    rw [length, hr]
    rfl

theorem run_readAll_reported (hr : memory.resource h = .ok resource) (count : Nat) (calls : List Call) :
    (((storage.watched ⟨[], reported⟩ discard).readAll h count).run calls).run memory =
      ((if count ≤ resource.content.length then .ok (resource.content.take count) else .error (.storage .pastEnd),
        calls ++ [.readAll count]), memory) := by
  show ((memory.readAll h count, calls ++ [.readAll count]), memory) = _
  rw [readAll, hr]
  rfl

theorem run_close_reported (hr : memory.resource h = .ok resource) (calls : List Call) :
    ((((storage.watched ⟨[], reported⟩ discard).close h).run calls).run memory).1 = (.ok (), calls ++ [.close]) := by
  show ((memory.close h).1, calls ++ [.close]) = _
  rw [close, hr]

/-! ## Loading from a memory -/

variable (options : Options) (id room : Nat)

/-- Reading through a handle of a memory: the reported length counts, whatever the true one is. -/
theorem run_loadFrom_reported (hr : memory.resource h = .ok resource) (calls : List Call) :
    let r := Document.ofReported id options room resource.content (reported.getD resource.content.length)
    ((Document.loadFrom (storage.watched ⟨[], reported⟩ discard) h options id room).run calls).run memory =
      ((r.1, calls ++ r.2), memory) := by
  rw [Document.loadFrom, run_watched_bind, run_length_reported reported discard hr, Document.ofReported]
  dsimp only
  generalize reported.getD resource.content.length = n
  by_cases hroom : n + 1 > room
  · rw [if_pos hroom, if_pos hroom]
    rfl
  · rw [if_neg hroom, if_neg hroom, run_watched_bind, run_readAll_reported reported discard hr, List.append_assoc]
    by_cases hn : n ≤ resource.content.length
    · rw [if_pos hn, if_pos hn, ← Document.ofBytes_append_zero id options _ []]
      rfl
    · rw [if_neg hn, if_neg hn]
      rfl

/-- Reading by name from a memory: what was opened is closed, and the closing does not fail. -/
theorem run_load_reported (hc : memory.get? name = some content) :
    let r := Document.ofReported id options room content (reported.getD content.length)
    (((Document.load (storage.watched ⟨[], reported⟩ discard) name options id room).run []).run memory).1 =
      (r.1, .openForRead name :: r.2 ++ [.close]) := by
  obtain ⟨h, opened, hopen, hr⟩ := exists_openForRead hc
  rw [Document.load, run_watched_bind, run_openForRead_reported, hopen]
  dsimp only
  rw [run_watched_bind, run_loadFrom_reported reported discard options id room hr]
  dsimp only
  generalize Document.ofReported id options room content (reported.getD content.length) = r
  have hclose := run_close_reported reported discard hr ([] ++ [.openForRead name] ++ r.2)
  rw [run_watched_bind]
  show (_, _) = _
  rw [hclose]
  cases r.1 <;> rfl

/-- A memory that is not watched reports the true length. -/
theorem run_load_true (hc : memory.get? name = some content) :
    ((Document.load storage name options id room).run memory).1 =
      (Document.ofReported id options room content content.length).1 := by
  obtain ⟨h, opened, hopen, hr⟩ := exists_openForRead hc
  have hlength : (storage.length h).run opened = (.ok content.length, opened) := by
    show (opened.length h, opened) = _
    rw [length, hr]
    rfl
  have hread : (storage.readAll h content.length).run opened = (.ok content, opened) := by
    show (opened.readAll h content.length, opened) = _
    rw [readAll, hr]
    simp [bind, Except.bind]
  have hclose : ((storage.close h).run opened).1 = .ok () := by
    show (opened.close h).1 = _
    rw [close, hr]
  have hopen' : (storage.openForRead name).run memory = (.ok h, opened) := hopen
  rw [run_load, hopen', Document.ofReported_length]
  simp only [run_loadFrom, hlength, hread]
  split
  · rfl
  · dsimp only
    rw [hclose]
    cases Document.ofBytes id options content <;> rfl

end Memory

namespace Document

/-- Where a machine of 64 bits has room for every buffer that it can address, loading depends on nothing but the bytes
that are reported. A length that is within the content gives the document of so many bytes, a greater one the end of the
content; from the first one on that cannot be addressed together with a zero byte, nothing is read. The zero byte behind
the bytes changes nothing, and a zero byte among them ends the text. -/
theorem load_eq_ofBytes (id : Nat) (options : Options) {memory : Memory} {name : String} {content : Bytes}
    (hcontent : memory.get? name = some content) (reported : Option Nat) (discard : Nat → StateM Memory Unit) :
    let n := reported.getD content.length
    let room := 2 ^ 63 - 1
    let watched := Memory.storage.watched ⟨[], reported⟩ discard
    let (result, calls) := (((load watched name options id room).run []).run memory).1
    (2 ^ 63 - 1 ≤ n → result = .error (.outOfMemory (min (n + 1) (2 ^ 64 - 1))) ∧
      calls = [.openForRead name, .length, .close]) ∧
    (n ≤ 2 ^ 63 - 2 → calls = [.openForRead name, .length, .readAll n, .close] ∧
      (n ≤ content.length → result = ofBytes id options (content.take n)) ∧
      (content.length < n → ∃ cause, result = .error (.storage cause) ∧ cause.kind = .unexpectedEnd)) ∧
    (reported = none → ((load Memory.storage name options id room).run memory).1 = result) ∧
    (∀ (tree : FileTree) place, tree.locate name = .ok place → tree.node? place = some (.file content) →
      reported = none → ((load FileTree.volume.toStorage name options id room).run tree).1 = result) ∧
    ∀ before behind, ofBytes id options (before ++ 0 :: behind) = ofBytes id options before := by
  intro n room watched
  rw [Memory.run_load_reported reported discard options id room hcontent]
  dsimp only
  have hn : reported.getD content.length = n := rfl
  refine ⟨?_, ?_, ?_, ?_, ?_⟩
  · intro hmax
    rw [hn, ofReported, if_pos (by omega)]
    exact ⟨rfl, rfl⟩
  · intro hmax
    rw [hn, ofReported, if_neg (by omega)]
    by_cases hlen : n ≤ content.length
    · rw [if_pos hlen]
      exact ⟨rfl, fun _ => rfl, fun h => absurd hlen (by omega)⟩
    · rw [if_neg hlen]
      exact ⟨rfl, fun h => absurd h hlen, fun _ => ⟨_, rfl, rfl⟩⟩
  · rintro rfl
    exact Memory.run_load_true options id room hcontent
  · rintro tree place hlocate hnode rfl
    rw [FileTree.load_of_file hlocate hnode]
    exact (ofReported_length id options room content).symm
  · exact ofBytes_append_zero id options

/-- A report that is one byte short cuts the value, and the greatest report of all asks for no byte more than there can
be. -/
theorem load_eq_ofBytes_of_false_reports :
    let memory := Memory.empty.put "a.ini" (Text.Utf8.encode "[A]\nk=12".toList)
    let loading (n : Nat) := load (Memory.storage.watched ⟨[], some n⟩ fun h => modify (·.discard h)) "a.ini" default 0
      (2 ^ 63 - 1)
    memory.get? "a.ini" = some (Text.Utf8.encode "[A]\nk=12".toList) ∧
      ((((loading 7).run []).run memory).1.1.map contents).toOption = some [("A", [("k", "1")])] ∧
      (((loading (2 ^ 64 - 1)).run []).run memory).1.1 = .error (.outOfMemory (2 ^ 64 - 1)) := by
  intro memory loading
  have hcontent : memory.get? "a.ini" = some (Text.Utf8.encode "[A]\nk=12".toList) := by decide +kernel
  have hshort := load_eq_ofBytes 0 default hcontent (some 7) fun h => modify (·.discard h)
  have hgreat := load_eq_ofBytes 0 default hcontent (some (2 ^ 64 - 1)) fun h => modify (·.discard h)
  refine ⟨hcontent, ?_, (hgreat.1 (by decide)).1⟩
  have hread := (hshort.2.1 (by decide)).2.1 (by decide +kernel)
  exact (congrArg (fun result => (Except.map contents result).toOption) hread).trans (by decide +kernel)

end Document

end IniDoc
