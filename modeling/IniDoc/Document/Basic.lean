import IniDoc.Chain
import IniDoc.Error

/-!
# Documents

A document is an ordered set of sections, a section an ordered set of keys with values. Names are looked up whatever
their case and keep the spelling they came with. Sections and keys are addressed by name or by handle.

* `SectionId`, `KeyId`: handles. One of them resolves in its own document, and its own section, only.
* `Section.insert` creates or updates a key.
* `Document.addSection` finds or creates a section, `Document.updateSection` and `Document.updateNamed` edit one.
* `Document.contents`: names and values in order, all that a document says.
-/

namespace IniDoc

/-- The handle of a section: the identity of its document and its number there. -/
structure SectionId where
  document : Nat
  index : Nat
  deriving Repr, DecidableEq

/-- The handle of a key: the handle of its section and its number there. -/
structure KeyId where
  owner : SectionId
  index : Nat
  deriving Repr, DecidableEq

/-- A name and its value. -/
structure Key where
  name : String
  data : String
  deriving Repr, DecidableEq

/-- Where a new key goes. An anchor is a key of the same section. -/
inductive Insertion where
  /-- In front of all keys, whatever the anchor. -/
  | first
  /-- Behind all keys, whatever the anchor. -/
  | last
  /-- Right before the anchor; in front of all keys when there is none. -/
  | before
  /-- Right behind the anchor; behind all keys when there is none. -/
  | after
  deriving Repr, DecidableEq

/-- A named, ordered group of keys. -/
structure Section where
  id : SectionId
  name : String
  keys : Chain Key

/-- An ordered group of sections with an identity of its own. -/
structure Document where
  id : Nat
  sections : Chain Section

/-! ## Keys of a section -/

namespace Section

/-- The number of keys. -/
def size (s : Section) : Nat := s.keys.size

/-- Whether there are no keys. -/
def isEmpty (s : Section) : Bool := s.keys.isEmpty

/-- The handle of the key with a number. -/
def keyId (s : Section) (i : Nat) : KeyId := ⟨s.id, i⟩

/-- The handle of the key with a name. -/
def find? (s : Section) (name : String) : Option KeyId := (s.keys.find? name).map s.keyId

/-- The key that a handle stands for, unless it is the handle of another section's key. -/
def key? (s : Section) (id : KeyId) : Option Key :=
  if id.owner = s.id then s.keys.get? id.index else none

/-- The value under a name. -/
def value (s : Section) (name : String) : Except Error String :=
  match (s.keys.find? name).bind s.keys.get? with
  | some key => .ok key.data
  | none => .error .keyNotFound

/-- The place of a new key in the chain of keys. -/
def place (insertion : Insertion) (anchor : Option KeyId) : Chain.Place :=
  match insertion, anchor with
  | .first, _ | .before, none => .front
  | .last, _ | .after, none => .back
  | .before, some id => .before id.index
  | .after, some id => .behind id.index

/-- Creates or updates a key. An existing key takes the new value and keeps its place and spelling; a new one goes
where the insertion says. A name, a value and an own key as anchor are asked for in this order, whether they are
needed or not. -/
def insert (s : Section) (anchor : Option KeyId) (insertion : Insertion) (name data : String) :
    Except Error (KeyId × Section) :=
  if name.isEmpty then .error (.invalidArgument .emptyKeyName)
  else if data.isEmpty then .error (.invalidArgument .emptyKeyData)
  else if anchor.any fun id => (s.key? id).isNone then .error (.invalidArgument .foreignAnchor)
  else match s.keys.find? name with
    | some i => .ok (s.keyId i, { s with keys := s.keys.modify i ({ · with data }) })
    | none =>
      match s.keys.insert name ⟨name, data⟩ (place insertion anchor) with
      | some (i, keys) => .ok (s.keyId i, { s with keys })
      | none => .error (.invalidArgument .foreignAnchor)

/-- Creates a key behind all others, or updates it where it is. -/
def add (s : Section) (name data : String) : Except Error (KeyId × Section) := s.insert none .last name data

/-- Names and values in order. -/
def entries (s : Section) : List (String × String) := s.keys.toList.map fun key => (key.name, key.data)

end Section

/-! ## Sections of a document -/

namespace Document

/-- The document with no sections. -/
def empty (id : Nat) : Document := ⟨id, .empty⟩

instance : Inhabited Document := ⟨empty 0⟩

/-- The number of sections. -/
def size (d : Document) : Nat := d.sections.size

/-- Whether there are no sections. -/
def isEmpty (d : Document) : Bool := d.sections.isEmpty

/-- The handle of the section with a number. -/
def sectionId (d : Document) (i : Nat) : SectionId := ⟨d.id, i⟩

/-- The handle of the section with a name. -/
def find? (d : Document) (name : String) : Option SectionId := (d.sections.find? name).map d.sectionId

/-- The section with a name. -/
def named? (d : Document) (name : String) : Option Section := (d.sections.find? name).bind d.sections.get?

/-- The section that a handle stands for, unless it is the handle of another document's section. -/
def section? (d : Document) (id : SectionId) : Option Section :=
  if id.document = d.id then d.sections.get? id.index else none

/-- Finds the section with a name, or creates it behind all others. -/
def addSection (d : Document) (name : String) : Except Error (SectionId × Document) :=
  if name.isEmpty then .error (.invalidArgument .emptySectionName)
  else match d.sections.find? name with
    | some i => .ok (d.sectionId i, d)
    | none =>
      let id := d.sectionId d.size
      .ok (id, { d with sections := d.sections.put name ⟨id, name, .empty⟩ .back })

/-- Puts a changed section back in its place. -/
def putSection (d : Document) (s : Section) : Document :=
  { d with sections := d.sections.modify s.id.index fun _ => s }

/-- Edits the section that a handle stands for, if there is one. A failed edit leaves everything as it was. -/
def updateSection {β : Type} (d : Document) (id : SectionId) (edit : Section → Except Error (β × Section)) :
    Option (Except Error (β × Document)) :=
  (d.section? id).map fun s => (edit s).map fun (result, changed) => (result, d.putSection changed)

/-- Edits the section with a name, if there is one. A failed edit leaves everything as it was. -/
def updateNamed {β : Type} (d : Document) (name : String) (edit : Section → Except Error (β × Section)) :
    Option (Except Error (β × Document)) :=
  (d.named? name).map fun s => (edit s).map fun (result, changed) => (result, d.putSection changed)

/-- Names and values in order, section by section. -/
def contents (d : Document) : List (String × List (String × String)) :=
  d.sections.toList.map fun s => (s.name, s.entries)

end Document

end IniDoc
