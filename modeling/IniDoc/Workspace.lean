import Std.Data.TreeMap
import IniDoc.Document.Basic

/-!
# Workspaces

Documents in named slots. A slot owns its document, or is one of the holders of a document that several slots share.
A shared document counts its holders, and the last one can take it back.

* `Workspace.get?`, `Workspace.set`: the document that a slot shows, and its replacement for all its holders.
* `Workspace.put`: a slot gets a document of its own; `Workspace.freshId` is an identity that no document has yet.
* `Workspace.share`, `Workspace.copyHolder`, `Workspace.takeBack`, `Workspace.release`: the life of a shared document.
-/

namespace IniDoc

/-- A shared document and the number of slots that hold it. -/
structure SharedDocument where
  document : Document
  holders : Nat

/-- What a slot holds. -/
inductive Slot where
  /-- A document of the slot's own. -/
  | owned (d : Document)
  /-- One of the shared documents. -/
  | shared (cell : Nat)

/-- Named slots, shared documents, and the identity of the next document. -/
structure Workspace where
  slots : Std.TreeMap String Slot
  cells : Array SharedDocument
  nextId : Nat

namespace Workspace

/-- The workspace with no slots. -/
def empty : Workspace := ⟨{}, #[], 1⟩

instance : Inhabited Workspace := ⟨empty⟩

/-- An identity that no document has yet. -/
def freshId (w : Workspace) : Nat × Workspace := (w.nextId, { w with nextId := w.nextId + 1 })

/-- The document that a slot shows. -/
def get? (w : Workspace) (name : String) : Option Document :=
  match w.slots[name]? with
  | some (.owned d) => some d
  | some (.shared cell) => w.cells[cell]?.map (·.document)
  | none => none

/-- Changes the number of holders of a shared document. -/
def countHolders (w : Workspace) (cell : Nat) (f : Nat → Nat) : Workspace :=
  { w with cells := w.cells.modify cell fun c => { c with holders := f c.holders } }

/-- Empties a slot. A shared document has one holder less. -/
def release (w : Workspace) (name : String) : Workspace :=
  match w.slots[name]? with
  | some (.shared cell) => { w.countHolders cell (· - 1) with slots := w.slots.erase name }
  | some (.owned _) => { w with slots := w.slots.erase name }
  | none => w

/-- Gives a slot a document of its own, in the place of what it held. -/
def put (w : Workspace) (name : String) (d : Document) : Workspace :=
  let w := w.release name
  { w with slots := w.slots.insert name (.owned d) }

/-- Changes the document that a slot shows, for every slot that shows it. -/
def set (w : Workspace) (name : String) (d : Document) : Workspace :=
  match w.slots[name]? with
  | some (.owned _) => { w with slots := w.slots.insert name (.owned d) }
  | some (.shared cell) => { w with cells := w.cells.modify cell fun c => { c with document := d } }
  | none => w

/-- Makes a slot's own document one that can be shared; the slot is its only holder. -/
def share (w : Workspace) (name : String) : Workspace :=
  match w.slots[name]? with
  | some (.owned d) =>
    { w with cells := w.cells.push ⟨d, 1⟩, slots := w.slots.insert name (.shared w.cells.size) }
  | _ => w

/-- Makes a second slot a holder of a shared document, in the place of what it held. -/
def copyHolder (w : Workspace) (source target : String) : Workspace :=
  match w.slots[source]? with
  | some (.shared cell) =>
    let w := (w.countHolders cell (· + 1)).release target
    { w with slots := w.slots.insert target (.shared cell) }
  | _ => w

/-- Gives a shared document back to a slot that is its only holder, and tells whether it was. -/
def takeBack (w : Workspace) (name : String) : Bool × Workspace :=
  match w.slots[name]? with
  | some (.shared cell) =>
    match w.cells[cell]? with
    | some c =>
      if c.holders = 1 then
        (true, { w.countHolders cell (· - 1) with slots := w.slots.insert name (.owned c.document) })
      else (false, w)
    | none => (false, w)
  | _ => (false, w)

end Workspace

end IniDoc
