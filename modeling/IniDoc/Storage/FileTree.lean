import Std.Data.TreeMap
import IniDoc.Storage.Basic
import IniDoc.Storage.Path

/-!
# Files in a tree of directories

Files and directories below a root, with the behaviour of a POSIX system: a name is resolved part by part, from the
root or from the working directory, handles see the current content of their file, a write goes to the handle's offset,
and the errors are those of the system's calls.

* `FileTree.locate` resolves a name.
* `FileTree.contentOf?`, `FileTree.put`, `FileTree.makeDirectory`: the files seen from outside.
* `FileTree.volume`: the storage operations.
-/

namespace IniDoc

open Text (Bytes)

/-- What a place of a tree holds. -/
inductive FileTree.Node where
  | file (content : Bytes)
  | directory
  deriving Repr, DecidableEq

/-- An open place: where it is, the offset of the next write, and whether it was opened for writing. -/
structure FileTree.Open where
  place : List String
  offset : Nat
  writable : Bool
  deriving Repr, DecidableEq

/-- What stands below the root, the place of the working directory, and the open handles. A place is the list of the
parts on the way to it; the root is the place `[]`. The working directory and all above it are directories, whatever
`nodes` says. -/
structure FileTree where
  working : List String
  nodes : Std.TreeMap (List String) FileTree.Node
  handles : Handles FileTree.Open

namespace FileTree

/-- Nothing but an empty working directory and the way to it. -/
def empty (working : List String) : FileTree := ⟨working, {}, .empty⟩

/-- An empty working directory for temporary files. -/
def scratch : FileTree := empty ["tmp", "scratch"]

instance : Inhabited FileTree := ⟨empty []⟩

/-- What stands at a place. -/
def node? (tree : FileTree) (place : List String) : Option Node :=
  if place.isPrefixOf tree.working then some .directory else tree.nodes[place]?

/-- Changes what stands at a place. -/
def setNode (tree : FileTree) (place : List String) (node : Node) : FileTree :=
  { tree with nodes := tree.nodes.insert place node }

/-! ## Names -/

/-- The longest part of a name, in bytes. -/
def maxPart : Nat := 255

/-- The longest name, in bytes. -/
def maxName : Nat := 4095

/-- Goes from a place along the parts of a name. All but the last part must exist, and all that the way goes on from
must be directories. The root is its own parent. -/
def walk (tree : FileTree) (place : List String) : List String → Except StorageError (List String)
  | [] => .ok place
  | part :: rest =>
    if tree.node? place != some .directory then .error .notDirectory
    else if part == "." then tree.walk place rest
    else if part == ".." then tree.walk place.dropLast rest
    else if part.utf8ByteSize > maxPart then .error .nameTooLong
    else if (tree.node? (place ++ [part])).isNone && !rest.isEmpty then .error .noSuchFile
    else tree.walk (place ++ [part]) rest

/-- Whether a name ends in a slash. -/
def endsInSlash (name : String) : Bool := name.toList.getLast? == some '/'

/-- Names that no system call takes. -/
def checkName (name : String) : Except StorageError Unit :=
  if name.toList.contains '\x00' then .error .zeroInName
  else if name.isEmpty then .error .noSuchFile
  else if name.utf8ByteSize > maxName then .error .nameTooLong
  else .ok ()

/-- Where the way of a name starts. -/
def start (tree : FileTree) (name : String) : List String := if Path.isAbsolute name then [] else tree.working

/-- The place that a name leads to; there may be nothing there yet. A slash at the end asks for a directory. -/
def locate (tree : FileTree) (name : String) : Except StorageError (List String) := do
  checkName name
  tree.walk (tree.start name) (Path.pieces name ++ if endsInSlash name then ["."] else [])

/-- The place of a directory that is to be made. A slash at the end says nothing more. -/
def locateForDirectory (tree : FileTree) (name : String) : Except StorageError (List String) := do
  checkName name
  tree.walk (tree.start name) (Path.pieces name)

/-- The place of a file that is to be made or emptied. A name that ends in a slash is a directory's, whether there is
one or not. -/
def locateForWrite (tree : FileTree) (name : String) : Except StorageError (List String) := do
  checkName name
  if endsInSlash name then
    let _ ← tree.walk (tree.start name) ((Path.pieces name).dropLast ++ ["."])
    .error .isDirectory
  else
    let place ← tree.walk (tree.start name) (Path.pieces name)
    if tree.node? place == some .directory then .error .isDirectory else .ok place

/-! ## Files seen from outside -/

/-- Whether a name leads to a file or a directory. -/
def isPresent (tree : FileTree) (name : String) : Bool :=
  match tree.locate name with
  | .ok place => (tree.node? place).isSome
  | .error _ => false

/-- The content of the file that a name leads to. -/
def contentOf? (tree : FileTree) (name : String) : Option Bytes :=
  match tree.locate name with
  | .ok place =>
    match tree.node? place with
    | some (.file content) => some content
    | _ => none
  | .error _ => none

/-- Makes a file or replaces its content. Open handles see the new content. -/
def put (tree : FileTree) (name : String) (content : Bytes) : Except Error FileTree :=
  match tree.locateForWrite name with
  | .ok place => .ok (tree.setNode place (.file content))
  | .error cause => .error (.storage cause)

/-- Makes a directory. -/
def makeDirectory (tree : FileTree) (name : String) : Except Error FileTree :=
  match tree.locateForDirectory name with
  | .ok place =>
    if (tree.node? place).isSome then .error (.storage (.failed "File exists (os error 17)"))
    else .ok (tree.setNode place .directory)
  | .error cause => .error (.storage cause)

/-- The files below the working directory, by the parts of their names from there, in the order of the parts. -/
def files (tree : FileTree) : List (List String × Bytes) :=
  tree.nodes.toList.filterMap fun (place, node) =>
    match node with
    | .file content => if tree.working.isPrefixOf place then some (place.drop tree.working.length, content) else none
    | .directory => none

/-! ## Storage operations -/

/-- The length that a directory reports. -/
def directoryLength : Nat := 4096

/-- Content with bytes written at an offset. A gap before the offset is filled with zero bytes. -/
def overwrite (content : Bytes) (offset : Nat) (bytes : Bytes) : Bytes :=
  (content ++ List.replicate (offset - content.length) 0).take offset ++ bytes ++
    content.drop (offset + bytes.length)

/-- Adds a handle. -/
def addHandle (tree : FileTree) (resource : Open) : Nat × FileTree :=
  let (h, handles) := tree.handles.add resource
  (h, { tree with handles })

/-- Changes what a handle knows. -/
def setHandle (tree : FileTree) (h : Nat) (resource : Open) : FileTree :=
  { tree with handles := tree.handles.set h resource }

/-- What an open handle stands for, and what stands there. -/
def resource (tree : FileTree) (h : Nat) : Except Error (Open × Node) :=
  match tree.handles.get? h with
  | some resource =>
    match tree.node? resource.place with
    | some node => .ok (resource, node)
    | none => .error (.storage .badHandle)
  | none => .error (.storage .badHandle)

/-- Opens a file or directory for reading. -/
def openForRead (tree : FileTree) (name : String) : Except Error Nat × FileTree :=
  match tree.locate name with
  | .ok place =>
    if (tree.node? place).isSome then
      let (h, tree) := tree.addHandle ⟨place, 0, false⟩
      (.ok h, tree)
    else (.error (.storage .noSuchFile), tree)
  | .error cause => (.error (.storage cause), tree)

/-- Opens a file for writing from its start, empty. -/
def openForWrite (tree : FileTree) (name : String) : Except Error Nat × FileTree :=
  match tree.locateForWrite name with
  | .ok place =>
    let (h, tree) := (tree.setNode place (.file [])).addHandle ⟨place, 0, true⟩
    (.ok h, tree)
  | .error cause => (.error (.storage cause), tree)

/-- The number of bytes of an open file. -/
def length (tree : FileTree) (h : Nat) : Except Error Nat := do
  match ← tree.resource h with
  | (_, .file content) => .ok content.length
  | (_, .directory) => .ok directoryLength

/-- Reads from the start of an open file. The handle's offset goes to the start first and moves behind what is read;
to read nothing is always possible. -/
def readAll (tree : FileTree) (h count : Nat) : Except Error Bytes × FileTree :=
  match tree.resource h with
  | .ok (resource, node) =>
    let atStart := tree.setHandle h { resource with offset := 0 }
    if count = 0 then (.ok [], atStart)
    else if resource.writable then (.error (.storage .badHandle), atStart)
    else match node with
      | .directory => (.error (.storage .isDirectory), atStart)
      | .file content =>
        if count ≤ content.length then
          (.ok (content.take count), tree.setHandle h { resource with offset := count })
        else (.error (.storage .shortRead), tree.setHandle h { resource with offset := content.length })
  | .error cause => (.error cause, tree)

/-- Writes at the offset of an open file and moves the offset behind what is written. To write nothing is always
possible. -/
def writeAll (tree : FileTree) (h : Nat) (bytes : Bytes) : Except Error Unit × FileTree :=
  match tree.resource h with
  | .ok (resource, node) =>
    if bytes.isEmpty then (.ok (), tree)
    else match resource.writable, node with
      | true, .file content =>
        (.ok (), (tree.setNode resource.place (.file (overwrite content resource.offset bytes))).setHandle h
          { resource with offset := resource.offset + bytes.length })
      | _, _ => (.error (.storage .badHandle), tree)
  | .error cause => (.error cause, tree)

/-- Gives a handle up. -/
def close (tree : FileTree) (h : Nat) : Except Error Unit × FileTree :=
  ((tree.resource h).map fun _ => (), { tree with handles := tree.handles.erase h })

/-- A tree as a volume. -/
def volume : Volume (StateM FileTree) Nat where
  openForRead name := fun tree => tree.openForRead name
  length h := fun tree => (tree.length h, tree)
  readAll h count := fun tree => tree.readAll h count
  openForWrite name := fun tree => tree.openForWrite name
  writeAll h bytes := fun tree => tree.writeAll h bytes
  close h := fun tree => tree.close h
  isPresent name := fun tree => (tree.isPresent name, tree)

end FileTree

end IniDoc
