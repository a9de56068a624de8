import IniDoc.Document.Cursor
import IniDoc.Editing.Failure
import IniDoc.Storage.Transfer

/-!
# Commands on files

What can be done to a file at a time: to read a value, to set one, to list names or entries, and to write the file anew.
A command loads the file, works on the document in memory, and saves it last, so that one that fails leaves every file
as it was. A file for which there is no room in one buffer cannot be loaded.

* `getValue`, `listLines`: reading.
* `setValue`, `reformat`: writing.
-/

namespace IniDoc

/-- Where `setValue` puts a key that is not there yet. -/
inductive Placement where
  | first
  | last
  | before (anchor : String)
  | after (anchor : String)
  deriving Repr, DecidableEq

namespace Placement

/-- The key next to which a key is put. -/
def anchor? : Placement → Option String
  | first | last => none
  | before name | after name => some name

/-- The placement without its anchor. -/
def insertion : Placement → Insertion
  | first => .first
  | last => .last
  | before _ => .before
  | after _ => .after

end Placement

/-! ## Edits of a document -/

/-- Sets a value in a document that was read from a file, with the section made if it is not there. The anchor is
looked for before the new name and value are looked at. -/
def Document.setValue (d : Document) (file sectionName key value : String) (placement : Placement) :
    Except Failure Document := do
  let (id, d) ← (d.addSection sectionName).mapError .edit
  let some s := d.section? id | .error (.noSection sectionName file)
  let anchor ← match placement.anchor? with
    | none => pure none
    | some name =>
      match s.find? name with
      | some anchor => pure (some anchor)
      | none => .error (.noAnchor name sectionName)
  let (_, s) ← (s.insert anchor placement.insertion key value).mapError .edit
  return d.putSection s

/-- The value of a key of a document that was read from a file. -/
def Document.getValue (d : Document) (file sectionName key : String) : Except Failure String :=
  match d.named? sectionName with
  | none => .error (.noSection sectionName file)
  | some s => (s.value key).mapError fun _ => .noKey key s.name

/-- The entries of a section as lines. -/
def Section.lines (s : Section) : List String := (Cursor.entries s).map fun (name, data) => name ++ "=" ++ data

/-- The names of the sections, or the entries of one of them, as lines. -/
def Document.lines (d : Document) (file : String) : Option String → Except Failure (List String)
  | none => .ok (d.sections.toList.map (·.name))
  | some sectionName =>
    match d.named? sectionName with
    | none => .error (.noSection sectionName file)
    | some s => .ok s.lines

/-! ## Commands -/

section Commands

variable {m : Type → Type} {η : Type} [Monad m] (volume : Volume m η) (room : Nat) (options : Options)

/-- Loads a file. -/
def loadFile (file : String) : m (Except Failure Document) := do
  return (← Document.load volume.toStorage file options 0 room).mapError (.load file)

/-- Saves a document as a file. -/
def saveFile (d : Document) (file : String) : m (Except Failure Unit) := do
  return (← d.save volume.toStorage file options.encoding).mapError (.save file)

/-- Reads a value from a file. -/
def getValue (file sectionName key : String) : m (Except Failure String) := do
  return (← loadFile volume room options file).bind (·.getValue file sectionName key)

/-- Sets a value in a file, which is made if it is not there. -/
def setValue (file sectionName key value : String) (placement : Placement) : m (Except Failure Unit) := do
  let loaded ← if ← volume.isPresent file then loadFile volume room options file else pure (.ok (.empty 0))
  match loaded.bind (·.setValue file sectionName key value placement) with
  | .error failure => return .error failure
  | .ok d => saveFile volume options d file

/-- Lists the sections of a file, or the entries of one of them. -/
def listLines (file : String) (sectionName : Option String) : m (Except Failure (List String)) := do
  return (← loadFile volume room options file).bind (·.lines file sectionName)

/-- Writes a file anew in its canonical layout, or another file in its place. -/
def reformat (file output : String) : m (Except Failure Unit) := do
  match ← loadFile volume room options file with
  | .error failure => return .error failure
  | .ok d => saveFile volume options d output

end Commands

end IniDoc
