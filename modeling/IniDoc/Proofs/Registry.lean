import Mathlib.Data.Finset.Card
import IniDoc.Proofs.HandleRuns

/-!
# Registries of documents

Slots become holders of one document, are copied, emptied, filled again, and get the document back when nobody else
holds it. A workspace counts holders and keeps the shared documents in cells. A registry does neither: it has each
document once, with all calls that were made to it, and notes which slot holds which.

* `Workspace.Action`, `Workspace.act`: what can be done with slots, and the replies.
* `Registry`, `Registry.act`: the same without counts and cells.
* `Registry.holders`: the slots that hold a document.
* `Registry.holders_release`, `Registry.holders_hold`: how they change.
-/

namespace IniDoc

/-! ## Actions -/

/-- What can be done with the slots of a workspace. -/
inductive Workspace.Action : Type 1 where
  | create (slot : String) (creation : Creation)
  | call (slot : String) (call : Document.Call)
  | share (slot : String)
  | copy (source target : String)
  | release (slot : String)
  | takeBack (slot : String)

/-- What an action is answered with. -/
inductive Workspace.Reply where
  | done
  /-- The handle that a call answers, if it answers one. -/
  | handle (handle : Option Handle)
  /-- Whether a document was taken back. -/
  | taken (back : Bool)
  deriving Repr, DecidableEq

namespace Workspace

/-- The reply to an action, and the workspace after it. What is made for a slot takes the place of what it held. -/
def act (w : Workspace) : Action → Reply × Workspace
  | .create slot creation =>
    let (id, taken) := w.freshId
    match creation.document id with
    | .ok d => (.done, taken.put slot d)
    | .error _ => (.done, taken)
  | .call slot c =>
    match w.get? slot with
    | some d => (.handle (d.call c).1, w.set slot (d.call c).2)
    | none => (.handle none, w)
  | .share slot => (.done, w.share slot)
  | .copy source target => (.done, w.copyHolder source target)
  | .release slot => (.done, w.release slot)
  | .takeBack slot => (.taken (w.takeBack slot).1, (w.takeBack slot).2)

end Workspace

namespace Workspace.Action

variable {σ τ : Type}

/-- The state after actions one after another. -/
def run (act : σ → Action → Reply × σ) (state : σ) (actions : List Action) : σ :=
  actions.foldl (fun state action => (act state action).2) state

/-- The replies to actions one after another, each with what there is to see after it. -/
def trace (act : σ → Action → Reply × σ) (view : σ → τ) : σ → List Action → List (Reply × τ)
  | _, [] => []
  | state, action :: actions =>
    ((act state action).1, view (act state action).2) :: trace act view (act state action).2 actions

end Workspace.Action

/-! ## Registries -/

/-- A document by its past: how it was made, and all calls made to it since. It has one owner, or it is shared. -/
structure Registry.Record where
  made : Document
  calls : List Document.Call
  shared : Bool

/-- The document after all calls made to it. -/
def Registry.Record.document (record : Record) : Document := record.calls.foldl (fun d c => (d.call c).2) record.made

/-- A record after one more call. -/
def Registry.Record.called (c : Document.Call) (record : Record) : Record :=
  { record with calls := record.calls ++ [c] }

/-- Every document once, and for each slot that holds one the number of its record. -/
structure Registry where
  records : Array Registry.Record
  holds : Std.TreeMap String Nat
  nextId : Nat

namespace Registry

open Workspace (Action Reply)

/-- The registry of no documents. -/
def empty : Registry := ⟨#[], {}, 1⟩

/-- The number and the record of the document that a slot holds. -/
def held? (reg : Registry) (slot : String) : Option (Nat × Record) :=
  reg.holds[slot]?.bind fun n => reg.records[n]?.map (n, ·)

/-- The document that a slot holds. -/
def get? (reg : Registry) (slot : String) : Option Document := (reg.held? slot).map (·.2.document)

/-- Notes down what a slot holds from now on. -/
def hold (reg : Registry) (slot : String) (n : Nat) : Registry := { reg with holds := reg.holds.insert slot n }

/-- Notes down that a slot holds nothing any more. -/
def release (reg : Registry) (slot : String) : Registry := { reg with holds := reg.holds.erase slot }

/-- Changes a record. -/
def revise (reg : Registry) (n : Nat) (f : Record → Record) : Registry :=
  { reg with records := reg.records.modify n f }

/-- Enters a document that was just made. -/
def enter (reg : Registry) (slot : String) (d : Document) : Registry :=
  { (reg.release slot).hold slot reg.records.size with records := reg.records.push ⟨d, [], false⟩ }

/-- The slots that hold the document with a number. -/
def holders (reg : Registry) (n : Nat) : Finset String :=
  reg.holds.keys.toFinset.filter fun slot => reg.holds[slot]? = some n

/-- The reply to an action, and the registry after it. -/
def act (reg : Registry) : Action → Reply × Registry
  | .create slot creation =>
    let taken := { reg with nextId := reg.nextId + 1 }
    match creation.document reg.nextId with
    | .ok d => (.done, taken.enter slot d)
    | .error _ => (.done, taken)
  | .call slot c =>
    match reg.held? slot with
    | some (n, record) => (.handle (record.document.call c).1, reg.revise n (Record.called c))
    | none => (.handle none, reg)
  | .share slot =>
    match reg.held? slot with
    | some (n, _) => (.done, reg.revise n ({ · with shared := true }))
    | none => (.done, reg)
  | .copy source target =>
    match reg.held? source with
    | some (n, record) => (.done, if record.shared then (reg.release target).hold target n else reg)
    | none => (.done, reg)
  | .release slot => (.done, reg.release slot)
  | .takeBack slot =>
    match reg.held? slot with
    | some (n, record) =>
      if record.shared ∧ reg.holders n = {slot} then (.taken true, reg.revise n ({ · with shared := false }))
      else (.taken false, reg)
    | none => (.taken false, reg)

variable {reg : Registry} {slot : String} {n : Nat}

theorem Record.document_called (record : Record) (c : Document.Call) :
    (record.called c).document = (record.document.call c).2 := by
  simp [document, called]

theorem held?_eq_some_iff {record : Record} :
    reg.held? slot = some (n, record) ↔ reg.holds[slot]? = some n ∧ reg.records[n]? = some record := by
  constructor
  · intro h
    obtain ⟨m, hm, hmap⟩ := Option.bind_eq_some_iff.1 h
    obtain ⟨record', hrecord, heq⟩ := Option.map_eq_some_iff.1 hmap
    cases heq
    exact ⟨hm, hrecord⟩
  · rintro ⟨hn, hrecord⟩
    rw [held?, hn, Option.bind_some, hrecord]
    rfl

/-- A revision that leaves a record as it is changes nothing. -/
theorem revise_eq_self {record : Record} (hrecord : reg.records[n]? = some record) {f : Record → Record}
    (hf : f record = record) : reg.revise n f = reg := by
  have hsame : reg.records.modify n f = reg.records := by
    refine Array.ext_getElem? fun m => ?_
    rw [Array.getElem?_modify]
    by_cases heq : n = m
    · subst heq
      rw [if_pos rfl, hrecord, Option.map_some, hf]
    · exact if_neg heq
  rw [revise, hsame]

theorem getElem?_holds_hold (reg : Registry) (slot : String) (n : Nat) (other : String) :
    (reg.hold slot n).holds[other]? = if slot = other then some n else reg.holds[other]? := by
  simp [hold, Std.TreeMap.getElem?_insert]

theorem getElem?_holds_release (reg : Registry) (slot other : String) :
    (reg.release slot).holds[other]? = if slot = other then none else reg.holds[other]? := by
  simp [release, Std.TreeMap.getElem?_erase]

theorem getElem?_records_revise (reg : Registry) (n : Nat) (f : Record → Record) (m : Nat) :
    (reg.revise n f).records[m]? = if n = m then reg.records[m]?.map f else reg.records[m]? :=
  Array.getElem?_modify

theorem mem_holders : slot ∈ reg.holders n ↔ reg.holds[slot]? = some n := by
  simp only [holders, Finset.mem_filter, List.mem_toFinset, Std.TreeMap.mem_keys, and_iff_right_iff_imp]
  intro h
  exact Std.TreeMap.mem_iff_isSome_getElem?.2 (by rw [h]; rfl)

theorem holders_records (reg : Registry) (records : Array Record) (n : Nat) :
    { reg with records := records }.holders n = reg.holders n := rfl

theorem holders_release (reg : Registry) (slot : String) (n : Nat) :
    (reg.release slot).holders n = (reg.holders n).erase slot := by
  ext other
  rw [Finset.mem_erase, mem_holders, mem_holders, getElem?_holds_release]
  by_cases h : slot = other <;> simp [h, eq_comm]

theorem holders_hold (reg : Registry) (slot : String) (n m : Nat) :
    (reg.hold slot n).holders m = if m = n then insert slot (reg.holders m) else (reg.holders m).erase slot := by
  ext other
  rw [mem_holders, getElem?_holds_hold]
  split <;> split <;> simp_all [mem_holders, eq_comm]

theorem card_holders_hold (hfree : reg.holds[slot]? = none) (n : Nat) :
    ((reg.hold slot n).holders n).card = (reg.holders n).card + 1 := by
  have hnew : slot ∉ reg.holders n := by simp [mem_holders, hfree]
  rw [holders_hold, if_pos rfl, Finset.card_insert_of_notMem hnew]

theorem holders_hold_of_ne (hfree : reg.holds[slot]? = none) {m : Nat} (hne : m ≠ n) :
    (reg.hold slot n).holders m = reg.holders m := by
  have hnew : slot ∉ reg.holders m := by simp [mem_holders, hfree]
  rw [holders_hold, if_neg hne, Finset.erase_eq_of_notMem hnew]

theorem card_holders_eq_one_iff (h : reg.holds[slot]? = some n) :
    (reg.holders n).card = 1 ↔ reg.holders n = {slot} := by
  constructor
  · intro hcard
    obtain ⟨other, hother⟩ := Finset.card_eq_one.1 hcard
    have hmem := mem_holders.2 h
    rw [hother, Finset.mem_singleton] at hmem
    rw [hother, hmem]
  · intro hsole
    rw [hsole, Finset.card_singleton]

theorem holders_eq_singleton_iff (h : reg.holds[slot]? = some n) :
    reg.holders n = {slot} ↔ ∀ other, reg.holds[other]? = some n → other = slot := by
  rw [Finset.eq_singleton_iff_unique_mem, mem_holders]
  simp only [mem_holders, h, true_and]

end Registry

end IniDoc
