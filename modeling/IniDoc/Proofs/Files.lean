import Mathlib.Tactic.SplitIfs
import IniDoc.Editing.Command
import IniDoc.Proofs.Transfers
import IniDoc.Storage.FileTree

/-!
# Files of a tree

What loading and saving do to a tree of files. A file that is written stands where its name leads, the name leads there
ever after, and the rest of the tree stays as it was.

* `FileTree.Wrote`: the tree after a file has been written.
* `FileTree.load_of_file`: loading reads the bytes of the file and changes none.
* `FileTree.save_of_bytes`, `FileTree.exists_of_save`: saving writes the bytes of the document.
-/

namespace IniDoc

open Text (Bytes)

/-! ## Handles -/

namespace Handles

variable {α : Type} {handles : Handles α} {h : Nat} {a b : α}

theorem lookup_cons_eq (g k : Nat) (a : α) (entries : List (Nat × α)) :
    ((k, a) :: entries).lookup g = if g = k then some a else entries.lookup g := by
  rw [List.lookup_cons]
  by_cases hg : g = k
  · simp [hg]
  · rw [beq_false_of_ne hg, if_neg hg]

theorem get?_add_eq (handles : Handles α) (a : α) (g : Nat) :
    (handles.add a).2.get? g = if g = handles.next then some a else handles.get? g :=
  lookup_cons_eq g handles.next a handles.entries

theorem get?_add (handles : Handles α) (a : α) : (handles.add a).2.get? handles.next = some a := by
  rw [get?_add_eq, if_pos rfl]

theorem get?_set_eq (handles : Handles α) (h : Nat) (a : α) (g : Nat) :
    (handles.set h a).get? g = if g = h then (handles.get? g).map fun _ => a else handles.get? g := by
  obtain ⟨next, entries⟩ := handles
  simp only [get?, set]
  induction entries with
  | nil => simp
  | cons entry entries ih =>
    obtain ⟨k, b⟩ := entry
    simp only [List.map_cons, beq_iff_eq] at ih ⊢
    by_cases hk : k = h
    · rw [if_pos hk, lookup_cons_eq, lookup_cons_eq, ih, hk]
      split <;> rfl
    · rw [if_neg hk, lookup_cons_eq, lookup_cons_eq, ih]
      by_cases hg : g = k
      · rw [if_pos hg, if_pos hg, if_neg (hg ▸ hk)]
      · rw [if_neg hg, if_neg hg]

theorem get?_set (hb : handles.get? h = some b) (a : α) : (handles.set h a).get? h = some a := by
  rw [get?_set_eq, if_pos rfl, hb]
  rfl

theorem get?_erase (handles : Handles α) (h g : Nat) :
    (handles.erase h).get? g = if g = h then none else handles.get? g := by
  obtain ⟨next, entries⟩ := handles
  simp only [get?, erase]
  induction entries with
  | nil => simp
  | cons entry entries ih =>
    obtain ⟨k, b⟩ := entry
    by_cases hk : k = h
    · rw [List.filter_cons_of_neg (by simp [hk]), ih, lookup_cons_eq, hk]
      split <;> rfl
    · rw [List.filter_cons_of_pos (by simp [hk]), lookup_cons_eq, lookup_cons_eq, ih]
      by_cases hg : g = k
      · rw [if_pos hg, if_pos hg, if_neg (hg ▸ hk)]
      · rw [if_neg hg, if_neg hg]

end Handles

namespace FileTree

variable {tree tree' : FileTree} {place p q : List String} {name : String} {content bytes : Bytes}

/-! ## Places -/

/-- A tree after a file has been written: what stands at the other places stays. -/
structure Wrote (tree tree' : FileTree) (place : List String) (content : Bytes) : Prop where
  working : tree'.working = tree.working
  node? : ∀ p, tree'.node? p = if p = place then some (.file content) else tree.node? p

theorem node?_setNode (hp : tree.node? place ≠ some .directory) (node : Node) (p : List String) :
    (tree.setNode place node).node? p = if p = place then some node else tree.node? p := by
  have houtside : ¬place.isPrefixOf tree.working = true := fun h => hp (if_pos h)
  by_cases h : p = place
  · subst h
    simp [node?, setNode, houtside]
  · have hne : place ≠ p := Ne.symm h
    simp [node?, setNode, h, Std.TreeMap.getElem?_insert, hne]

theorem wrote_setNode (hp : tree.node? place ≠ some .directory) (content : Bytes) :
    tree.Wrote (tree.setNode place (.file content)) place content :=
  ⟨rfl, node?_setNode hp _⟩

/-- A file that is written twice has what was written last. -/
theorem Wrote.trans {tree'' : FileTree} (h : tree.Wrote tree' place content) (h' : tree'.Wrote tree'' place bytes) :
    tree.Wrote tree'' place bytes := by
  constructor
  · rw [h'.working, h.working]
  · intro p
    rw [h'.node?, h.node?]
    by_cases hp : p = place
    · rw [if_pos hp, if_pos hp]
    · rw [if_neg hp, if_neg hp, if_neg hp]

/-- A way through a tree is a way through every tree with these directories, if nothing has gone from it. -/
theorem walk_mono (hdir : ∀ p, tree.node? p = some .directory → tree'.node? p = some .directory)
    (hnone : ∀ p, tree'.node? p = none → tree.node? p = none) {parts : List String}
    (h : tree.walk p parts = .ok q) : tree'.walk p parts = .ok q := by
  induction parts generalizing p with
  | nil => exact h
  | cons part parts ih =>
    unfold walk at h ⊢
    by_cases hnode : tree.node? p = some .directory
    · rw [if_neg (by simpa using hnode)] at h
      rw [if_neg (by simpa using hdir p hnode)]
      split_ifs at h ⊢ with hself hparent hlong hmissing' hmissing
      · exact ih h
      · exact ih h
      · -- What is missing now was missing before.
        simp only [Bool.and_eq_true, Option.isNone_iff_eq_none] at hmissing hmissing'
        exact absurd ⟨hnone _ hmissing'.1, hmissing'.2⟩ hmissing
      · exact ih h
    · rw [if_pos (by simpa using hnode)] at h
      cases h

/-- A name under which a file can be written leads along its parts to a place that is no directory. -/
theorem locateForWrite_eq_ok_iff : tree.locateForWrite name = .ok place ↔ checkName name = .ok () ∧
    endsInSlash name = false ∧ tree.walk (tree.start name) (Path.pieces name) = .ok place ∧
      tree.node? place ≠ some .directory := by
  unfold locateForWrite
  cases checkName name with
  | error e => simp [bind, Except.bind]
  | ok u =>
    cases endsInSlash name with
    | true =>
      cases tree.walk (tree.start name) ((Path.pieces name).dropLast ++ ["."]) <;> simp [bind, Except.bind]
    | false =>
      cases hw : tree.walk (tree.start name) (Path.pieces name) with
      | error e => simp [bind, Except.bind]
      | ok q =>
        by_cases hq : tree.node? q = some .directory <;> simp [bind, Except.bind, hq]
        · rintro rfl; exact hq
        · rintro rfl; exact hq

/-- A name under which a file can be written leads to the place of the file. -/
theorem locate_of_locateForWrite (h : tree.locateForWrite name = .ok place) : tree.locate name = .ok place := by
  obtain ⟨hname, hslash, hwalk, -⟩ := locateForWrite_eq_ok_iff.1 h
  rw [locate, hname, hslash]
  simpa [bind, Except.bind] using hwalk

theorem isPresent_of_locateForWrite (h : tree.locateForWrite name = .ok place) :
    tree.isPresent name = (tree.node? place).isSome := by
  rw [isPresent, locate_of_locateForWrite h]

/-- A name leads to the same place when the file has been written. -/
theorem Wrote.locateForWrite (hw : tree.Wrote tree' place content) (h : tree.locateForWrite name = .ok place) :
    tree'.locateForWrite name = .ok place := by
  obtain ⟨hname, hslash, hwalk, hdir⟩ := locateForWrite_eq_ok_iff.1 h
  have hstart : tree'.start name = tree.start name := by rw [start, start, hw.working]
  refine locateForWrite_eq_ok_iff.2 ⟨hname, hslash, ?_, ?_⟩
  · rw [hstart]
    refine walk_mono ?_ ?_ hwalk
    · intro p hp
      have hne : p ≠ place := by
        rintro rfl
        exact hdir hp
      rw [hw.node?, if_neg hne, hp]
    · intro p hp
      rw [hw.node?] at hp
      split at hp
      · cases hp
      · exact hp
  · rw [hw.node?, if_pos rfl]
    simp

/-! ## Open files -/

variable {h : Nat} {resource resource' : Open} {node : Node}

theorem resource_eq (hr : tree.handles.get? h = some resource) (hn : tree.node? resource.place = some node) :
    tree.resource h = .ok (resource, node) := by
  rw [FileTree.resource, hr]
  simp only [hn]

theorem handle_of_resource (hr : tree.resource h = .ok (resource, node)) :
    tree.handles.get? h = some resource ∧ tree.node? resource.place = some node := by
  unfold FileTree.resource at hr
  split at hr
  · next hk =>
    split at hr
    · next hn =>
      cases hr
      exact ⟨hk, hn⟩
    · cases hr
  · cases hr

theorem resource_setHandle (hr : tree.resource h = .ok (resource, node)) (hp : resource'.place = resource.place) :
    (tree.setHandle h resource').resource h = .ok (resource', node) := by
  obtain ⟨hk, hn⟩ := handle_of_resource hr
  exact resource_eq (Handles.get?_set hk _) (hp ▸ hn)

/-- A file is read as a whole. -/
theorem readAll_of_file {offset : Nat} (hr : tree.resource h = .ok (⟨place, offset, false⟩, .file bytes)) :
    tree.readAll h bytes.length = (.ok bytes, tree.setHandle h ⟨place, bytes.length, false⟩) := by
  rw [readAll, hr]
  by_cases hb : bytes.length = 0
  · obtain rfl := List.eq_nil_of_length_eq_zero hb
    rfl
  · simp [hb]

/-- An empty file that is written has what is written, and what is written last can be found through the handle. -/
theorem writeAll_of_empty (hdir : tree.node? place ≠ some .directory)
    (hr : tree.resource h = .ok (⟨place, 0, true⟩, .file [])) (bytes : Bytes) :
    ∃ tree', tree.writeAll h bytes = (.ok (), tree') ∧ tree.Wrote tree' place bytes ∧
      tree'.resource h = .ok (⟨place, bytes.length, true⟩, .file bytes) := by
  obtain ⟨hk, hn⟩ := handle_of_resource hr
  by_cases hb : bytes = []
  · subst hb
    refine ⟨tree, ?_, ⟨rfl, ?_⟩, hr⟩
    · rw [writeAll, hr]
      rfl
    · intro p
      split
      · next hp => exact hp ▸ hn
      · rfl
  · have hw := wrote_setNode hdir bytes
    refine ⟨(tree.setNode place (.file bytes)).setHandle h ⟨place, bytes.length, true⟩, ?_,
      ⟨hw.working, hw.node?⟩, ?_⟩
    · rw [writeAll, hr]
      simp [hb, overwrite]
    · exact resource_eq (Handles.get?_set hk _) ((hw.node? place).trans (if_pos rfl))

theorem close_of_resource (hr : tree.resource h = .ok (resource, node)) :
    tree.close h = (.ok (), { tree with handles := tree.handles.erase h }) := by
  rw [close, hr]
  rfl

/-! ## Operations that change no file -/

/-- The trees have the same files; only the open handles may differ. -/
def SameFiles (tree tree' : FileTree) : Prop := ∃ handles, tree' = { tree with handles }

theorem SameFiles.refl (tree : FileTree) : tree.SameFiles tree := ⟨tree.handles, rfl⟩

theorem SameFiles.trans {tree'' : FileTree} (h : tree.SameFiles tree') (h' : tree'.SameFiles tree'') :
    tree.SameFiles tree'' := by
  obtain ⟨handles, rfl⟩ := h
  obtain ⟨handles', rfl⟩ := h'
  exact ⟨handles', rfl⟩

theorem SameFiles.symm (h : tree.SameFiles tree') : tree'.SameFiles tree := by
  obtain ⟨handles, rfl⟩ := h
  exact ⟨tree.handles, rfl⟩

/-- A name leads to the same place in trees with the same files. -/
theorem SameFiles.locateForWrite (h : tree.SameFiles tree') (hl : tree.locateForWrite name = .ok place) :
    tree'.locateForWrite name = .ok place := by
  obtain ⟨handles, rfl⟩ := h
  obtain ⟨hname, hslash, hwalk, hdir⟩ := locateForWrite_eq_ok_iff.1 hl
  have hsame : FileTree.walk { tree with handles } (tree.start name) (Path.pieces name) = .ok place := by
    refine walk_mono ?_ ?_ hwalk
    · intro p hp
      exact hp
    · intro p hp
      exact hp
  exact locateForWrite_eq_ok_iff.2 ⟨hname, hslash, hsame, hdir⟩

/-- What a write does to a tree it does to every tree with the same files. -/
theorem SameFiles.wrote {tree'' : FileTree} (h : tree.SameFiles tree') (hw : tree'.Wrote tree'' place content) :
    tree.Wrote tree'' place content := by
  obtain ⟨handles, rfl⟩ := h
  exact ⟨hw.working, hw.node?⟩

theorem sameFiles_openForRead (tree : FileTree) (name : String) : tree.SameFiles (tree.openForRead name).2 := by
  unfold openForRead
  split
  · split
    · exact ⟨_, rfl⟩
    · exact .refl tree
  · exact .refl tree

theorem sameFiles_readAll (tree : FileTree) (h count : Nat) : tree.SameFiles (tree.readAll h count).2 := by
  unfold readAll
  split
  · dsimp only
    split_ifs
    · exact ⟨_, rfl⟩
    · exact ⟨_, rfl⟩
    · split
      · exact ⟨_, rfl⟩
      · split_ifs <;> exact ⟨_, rfl⟩
  · exact .refl tree

theorem sameFiles_close (tree : FileTree) (h : Nat) : tree.SameFiles (tree.close h).2 := ⟨_, rfl⟩

/-! ## Loading and saving -/

@[simp] theorem run_openForRead (tree : FileTree) (name : String) :
    (volume.openForRead name).run tree = tree.openForRead name := rfl

@[simp] theorem run_length (tree : FileTree) (h : Nat) : (volume.length h).run tree = (tree.length h, tree) := rfl

@[simp] theorem run_readAll (tree : FileTree) (h count : Nat) :
    (volume.readAll h count).run tree = tree.readAll h count := rfl

@[simp] theorem run_openForWrite (tree : FileTree) (name : String) :
    (volume.openForWrite name).run tree = tree.openForWrite name := rfl

@[simp] theorem run_writeAll (tree : FileTree) (h : Nat) (bytes : Bytes) :
    (volume.writeAll h bytes).run tree = tree.writeAll h bytes := rfl

@[simp] theorem run_close (tree : FileTree) (h : Nat) : (volume.close h).run tree = tree.close h := rfl

section Documents

variable {d : Document} {encoding : Text.Encoding} {e : Error}

/-- Loading changes no file, whether it succeeds or not. -/
theorem sameFiles_load (tree : FileTree) (name : String) (options : Options) (id room : Nat) :
    tree.SameFiles ((Document.load volume.toStorage name options id room).run tree).2 := by
  have hfrom : ∀ (tree : FileTree) (h : Nat),
      tree.SameFiles ((Document.loadFrom volume.toStorage h options id room).run tree).2 := by
    intro tree h
    rw [run_loadFrom, run_length]
    cases tree.length h with
    | error cause => exact .refl tree
    | ok length =>
      have hread := sameFiles_readAll tree h length
      dsimp only
      split
      · exact .refl tree
      · rw [run_readAll]
        split
        · next hr =>
          rw [hr] at hread
          exact hread
        · next hr =>
          rw [hr] at hread
          exact hread
  have hopen := sameFiles_openForRead tree name
  rw [run_load, run_openForRead]
  split
  · next ho =>
    rw [ho] at hopen
    exact hopen
  · next h tree' ho =>
    rw [ho] at hopen
    exact (hopen.trans (hfrom tree' h)).trans (sameFiles_close _ h)

theorem load_of_none (hl : tree.locate name = .ok place) (hn : tree.node? place = none) (options : Options)
    (id room : Nat) :
    ((Document.load volume.toStorage name options id room).run tree).1 = .error (.storage .noSuchFile) := by
  have hopen : tree.openForRead name = (.error (.storage .noSuchFile), tree) := by
    rw [openForRead, hl]
    simp [hn]
  rw [run_load, run_openForRead, hopen]

/-- A file is loaded from its bytes, if there is room for them. -/
theorem load_of_file (hl : tree.locate name = .ok place) (hn : tree.node? place = some (.file bytes))
    (options : Options) (id room : Nat) :
    ((Document.load volume.toStorage name options id room).run tree).1 =
      if bytes.length + 1 > room then .error (.outOfMemory (min (bytes.length + 1) maxRequest))
      else Document.ofBytes id options bytes := by
  let h := tree.handles.next
  let opened : FileTree := { tree with handles := (tree.handles.add ⟨place, 0, false⟩).2 }
  have hopen : tree.openForRead name = (.ok h, opened) := by
    rw [openForRead, hl]
    simp [hn, h, opened, addHandle, Handles.add]
  have hresource : opened.resource h = .ok (⟨place, 0, false⟩, .file bytes) := resource_eq (Handles.get?_add _ _) hn
  have hlength : opened.length h = .ok bytes.length := by
    rw [length, hresource]
    rfl
  rw [run_load, run_openForRead, hopen]
  simp only [run_loadFrom, run_length, hlength, run_readAll, readAll_of_file hresource]
  split
  · rfl
  · have hdone : (opened.setHandle h ⟨place, bytes.length, false⟩).resource h =
        .ok (⟨place, bytes.length, false⟩, .file bytes) := resource_setHandle hresource rfl
    rw [run_close, close_of_resource hdone]
    cases Document.ofBytes id options bytes <;> rfl

theorem save_of_error (hb : d.toBytes encoding = .error e) :
    (d.save volume.toStorage name encoding).run tree = (.error e, tree) := by
  rw [run_save, hb]

/-- Under a name that leads to no file nothing is saved, and nothing is changed. -/
theorem save_of_noPlace {cause : StorageError} (hl : tree.locateForWrite name = .error cause)
    (hb : d.toBytes encoding = .ok bytes) :
    (d.save volume.toStorage name encoding).run tree = (.error (.storage cause), tree) := by
  have hopen : tree.openForWrite name = (.error (.storage cause), tree) := by rw [openForWrite, hl]
  simp only [run_save, hb, run_openForWrite, hopen]

/-- A document is saved as its bytes in the place of the file, and the rest of the tree stays. -/
theorem save_of_bytes (hl : tree.locateForWrite name = .ok place) (hb : d.toBytes encoding = .ok bytes) :
    ∃ tree', (d.save volume.toStorage name encoding).run tree = (.ok (), tree') ∧ tree.Wrote tree' place bytes := by
  have hdir := (locateForWrite_eq_ok_iff.1 hl).2.2.2
  let h := tree.handles.next
  let opened : FileTree := { tree.setNode place (.file []) with handles := (tree.handles.add ⟨place, 0, true⟩).2 }
  have hopen : tree.openForWrite name = (.ok h, opened) := by
    rw [openForWrite, hl]
    rfl
  -- Opening empties the file, or makes it, and what is written stands there from then on.
  have hw : tree.Wrote opened place [] := ⟨rfl, (wrote_setNode hdir []).node?⟩
  have hn : opened.node? place = some (.file []) := (hw.node? place).trans (if_pos rfl)
  have hresource : opened.resource h = .ok (⟨place, 0, true⟩, .file []) := resource_eq (Handles.get?_add _ _) hn
  obtain ⟨written, hwrite, hw', hdone⟩ := writeAll_of_empty (by simp [hn]) hresource bytes
  have hw'' := hw.trans hw'
  refine ⟨{ written with handles := written.handles.erase h }, ?_, hw''.working, hw''.node?⟩
  simp only [run_save, hb, run_openForWrite, hopen, run_writeAll, hwrite, run_close, close_of_resource hdone]
  rfl

/-- A document is saved only under a name under which a file can be written, and only with characters of the
encoding. -/
theorem exists_of_save (h : (d.save volume.toStorage name encoding).run tree = (.ok (), tree')) :
    ∃ place bytes, tree.locateForWrite name = .ok place ∧ d.toBytes encoding = .ok bytes ∧
      tree.Wrote tree' place bytes := by
  cases hb : d.toBytes encoding with
  | error e =>
    rw [save_of_error hb] at h
    cases h
  | ok bytes =>
    cases hl : tree.locateForWrite name with
    | error cause =>
      rw [save_of_noPlace hl hb] at h
      cases h
    | ok place =>
      obtain ⟨tree'', hsave, hw⟩ := save_of_bytes hl hb
      cases hsave.symm.trans h
      exact ⟨place, bytes, rfl, rfl, hw⟩

end Documents

end FileTree

end IniDoc
