import IniDoc.Proofs.Editing
import IniDoc.Proofs.Files
import IniDoc.Proofs.RoundTrip

/-!
# Setting a value in a file

Where quotes mean nothing, everything that is read can be written and read again, so that setting a value in a file does
to what the file says one edit and nothing else.

* `loadOrEmpty`: what a command that sets a value loads.
* `FileTree.Fits`: there is room for a file; how much there is in all is left open.
* `FileTree.read`: the document that the bytes of a file stand for.
* `FileTree.run_setValue_of_bytes`, `FileTree.exists_of_run_setValue`: when the command succeeds, and what it writes.
* `FileTree.setValue_eq_edit`: setting a canonical value is the edit, and setting it once more changes nothing.
-/

namespace IniDoc

open Text (Bytes)

section Commands

variable {m : Type → Type} {η : Type} [Monad m]

variable (volume : Volume m η) (room : Nat) (options : Options)

/-- Loads a file that is to be edited. One that is not there is a document without sections. -/
def loadOrEmpty (file : String) : m (Except Failure Document) := do
  if ← volume.isPresent file then loadFile volume room options file else return .ok (.empty 0)

/-- To set a value is to load the file, to do the edit, and to save what comes of it. -/
theorem setValue_eq [LawfulMonad m] (file sectionName name data : String) (placement : Placement) :
    setValue volume room options file sectionName name data placement =
      loadOrEmpty volume room options file >>= fun loaded =>
        match loaded.bind (·.setValue file sectionName name data placement) with
        | .error failure => return .error failure
        | .ok d => saveFile volume options d file := by
  rw [setValue, loadOrEmpty, bind_assoc]
  apply bind_congr
  intro present
  cases present <;> rfl

end Commands

section Answers

variable {σ η : Type} (volume : Volume (StateM σ) η) (room : Nat) (options : Options) (file : String) (s : σ)

/-- A document that is loaded is made of bytes, over any storage. -/
theorem exists_ofBytes_of_loadFile {volume : Volume (StateM σ) η} {room : Nat} {options : Options} {file : String}
    {s : σ} {d : Document} (h : ((loadFile volume room options file).run s).1 = .ok d) :
    ∃ bytes, Document.ofBytes 0 options bytes = .ok d := by
  rw [loadFile, run_bind] at h
  have hload : ((Document.load volume.toStorage file options 0 room).run s).1 = .ok d := by
    cases hr : ((Document.load volume.toStorage file options 0 room).run s).1 with
    | error e =>
      rw [hr] at h
      cases h
    | ok d' =>
      rw [hr] at h
      cases h
      rfl
  exact Document.exists_ofBytes_of_load hload

/-- What is found in a file is what is found in its document, over any storage. -/
theorem run_getValue (sectionName name : String) :
    ((getValue volume room options file sectionName name).run s).1 =
      ((loadFile volume room options file).run s).1.bind (·.getValue file sectionName name) := rfl

/-- What is listed of a file is what is listed of its document, over any storage. -/
theorem run_listLines (sectionName : Option String) :
    ((listLines volume room options file sectionName).run s).1 =
      ((loadFile volume room options file).run s).1.bind (·.lines file sectionName) := rfl

end Answers

namespace FileTree

variable {tree tree' : FileTree} {room : Nat} {place : List String} {options : Options} {d d' : Document}
  {bytes : Bytes} {file sectionName name data : String} {placement : Placement}

/-- The bytes of the file at a place; none if there is no file. -/
def bytesAt (tree : FileTree) (place : List String) : Bytes :=
  match tree.node? place with
  | some (.file bytes) => bytes
  | _ => []

/-- The file at a place, if there is one, leaves room in one buffer for the byte that ends the text. -/
def Fits (tree : FileTree) (room : Nat) (place : List String) : Prop :=
  (tree.node? place).isSome = true → (tree.bytesAt place).length < room

instance (tree : FileTree) (room : Nat) (place : List String) : Decidable (tree.Fits room place) :=
  inferInstanceAs (Decidable (_ → _))

/-- Where there is no file, nothing needs room. -/
theorem fits_of_none (hn : tree.node? place = none) (room : Nat) : tree.Fits room place := by
  intro h
  rw [hn] at h
  cases h

theorem Wrote.bytesAt (h : tree.Wrote tree' place bytes) : tree'.bytesAt place = bytes := by
  rw [FileTree.bytesAt, h.node?, if_pos rfl]

/-- The document that a file is loaded as. One that is not there is loaded like an empty one. -/
def read (tree : FileTree) (room : Nat) (options : Options) (place : List String) : Except Error Document :=
  let bytes := tree.bytesAt place
  if tree.Fits room place then Document.ofBytes 0 options bytes
  else .error (.outOfMemory (min (bytes.length + 1) maxRequest))

theorem read_eq_ok_iff : tree.read room options place = .ok d ↔
    tree.Fits room place ∧ Document.ofBytes 0 options (tree.bytesAt place) = .ok d := by
  rw [read]
  split
  · next hfits => exact ⟨fun ho => ⟨hfits, ho⟩, fun ho => ho.2⟩
  · next hfits =>
    constructor
    · rintro ⟨⟩
    · exact fun ho => absurd ho.1 hfits

/-- A file that is there is read as a file is loaded. -/
theorem read_of_file (hbytes : tree.node? place = some (.file bytes)) (room : Nat) (options : Options) :
    tree.read room options place =
      if bytes.length + 1 > room then .error (.outOfMemory (min (bytes.length + 1) maxRequest))
      else Document.ofBytes 0 options bytes := by
  have hat : tree.bytesAt place = bytes := by
    rw [bytesAt, hbytes]
  have hfits : tree.Fits room place ↔ bytes.length < room := by simp [Fits, hbytes, hat]
  rw [read, hat]
  by_cases hroom : bytes.length < room
  · rw [if_pos (hfits.2 hroom), if_neg (by omega)]
  · rw [if_neg (mt hfits.1 hroom), if_pos (by omega)]

theorem wellFormed_read (h : tree.read room options place = .ok d) : d.WellFormed := by
  obtain rfl := Document.eq_of_ofBytes (read_eq_ok_iff.1 h).2
  exact Document.wellFormed_ofText 0 options _

/-- A file that is there is loaded. -/
theorem run_loadFile (hl : tree.locateForWrite file = .ok place) (hn : tree.node? place ≠ none) (room : Nat)
    (options : Options) :
    ((loadFile volume room options file).run tree).1 = (tree.read room options place).mapError (.load file) := by
  obtain ⟨bytes, hbytes⟩ : ∃ bytes, tree.node? place = some (.file bytes) := by
    cases hnode : tree.node? place with
    | none => exact absurd hnode hn
    | some node =>
      cases node with
      | file bytes => exact ⟨bytes, rfl⟩
      | directory => exact absurd hnode (locateForWrite_eq_ok_iff.1 hl).2.2.2
  have hload := load_of_file (locate_of_locateForWrite hl) hbytes options 0 room
  rw [loadFile, run_bind, hload, read_of_file hbytes]
  rfl

theorem sameFiles_loadFile (tree : FileTree) (room : Nat) (options : Options) (file : String) :
    tree.SameFiles ((loadFile volume room options file).run tree).2 := sameFiles_load tree file options 0 room

theorem run_loadOrEmpty_eq (tree : FileTree) (room : Nat) (options : Options) (file : String) :
    (loadOrEmpty volume room options file).run tree =
      if tree.isPresent file then (loadFile volume room options file).run tree else (.ok (.empty 0), tree) := by
  rw [loadOrEmpty, run_bind]
  show (if tree.isPresent file then loadFile volume room options file else pure _).run tree = _
  split <;> rfl

theorem run_loadOrEmpty (hl : tree.locateForWrite file = .ok place) (room : Nat) (options : Options) :
    ((loadOrEmpty volume room options file).run tree).1 = (tree.read room options place).mapError (.load file) := by
  rw [run_loadOrEmpty_eq, isPresent_of_locateForWrite hl]
  by_cases hn : tree.node? place = none
  · have hat : tree.bytesAt place = [] := by
      rw [bytesAt, hn]
    have hread : tree.read room options place = .ok (.empty 0) := by
      rw [read_eq_ok_iff, hat]
      exact ⟨fits_of_none hn room, Document.ofBytes_nil 0 options⟩
    rw [hn, hread]
    rfl
  · rw [if_pos (Option.isSome_iff_ne_none.2 hn)]
    exact run_loadFile hl hn room options

theorem sameFiles_loadOrEmpty (tree : FileTree) (room : Nat) (options : Options) (file : String) :
    tree.SameFiles ((loadOrEmpty volume room options file).run tree).2 := by
  rw [run_loadOrEmpty_eq]
  split
  · exact sameFiles_loadFile tree room options file
  · exact .refl tree

/-- A value is set in a file that can be read if the document takes the edit and the encoding has all characters. -/
theorem run_setValue_of_bytes (hl : tree.locateForWrite file = .ok place) (ho : tree.read room options place = .ok d)
    (hset : d.setValue file sectionName name data placement = .ok d') (hb : d'.toBytes options.encoding = .ok bytes) :
    ∃ tree', (setValue volume room options file sectionName name data placement).run tree = (.ok (), tree') ∧
      tree.Wrote tree' place bytes := by
  have hload := run_loadOrEmpty hl room options
  have hsame := sameFiles_loadOrEmpty tree room options file
  obtain ⟨tree', hsave, hw⟩ := save_of_bytes (hsame.locateForWrite hl) hb
  refine ⟨tree', ?_, hsame.wrote hw⟩
  rw [setValue_eq, run_bind, hload, ho]
  simp only [Except.mapError, Except.bind, hset]
  rw [saveFile, run_bind, hsave]
  rfl

theorem exists_of_run_saveFile (h : (saveFile volume options d file).run tree = (.ok (), tree')) :
    ∃ place bytes, tree.locateForWrite file = .ok place ∧ d.toBytes options.encoding = .ok bytes ∧
      tree.Wrote tree' place bytes := by
  rw [saveFile, run_bind] at h
  cases hs : (d.save volume.toStorage file options.encoding).run tree with
  | mk saved tree₁ =>
    rw [hs] at h
    cases saved with
    | error e => cases h
    | ok u =>
      cases h
      exact exists_of_save hs

/-- When a value has been set, the document of the file took the edit, and its bytes are in the file. -/
theorem exists_of_run_setValue
    (h : (setValue volume room options file sectionName name data placement).run tree = (.ok (), tree')) :
    ∃ place d d' bytes, tree.locateForWrite file = .ok place ∧ tree.read room options place = .ok d ∧
      d.setValue file sectionName name data placement = .ok d' ∧ d'.toBytes options.encoding = .ok bytes ∧
        tree.Wrote tree' place bytes := by
  have hsame := sameFiles_loadOrEmpty tree room options file
  rw [setValue_eq, run_bind] at h
  cases hr : (((loadOrEmpty volume room options file).run tree).1).bind
      (·.setValue file sectionName name data placement) with
  | error failure =>
    rw [hr] at h
    cases h
  | ok d' =>
    rw [hr] at h
    obtain ⟨place, bytes, hl', hb, hw⟩ := exists_of_run_saveFile h
    -- The name led there before the file was loaded as well.
    have hl := hsame.symm.locateForWrite hl'
    rw [run_loadOrEmpty hl] at hr
    cases ho : tree.read room options place with
    | error e =>
      rw [ho] at hr
      cases hr
    | ok d =>
      rw [ho] at hr
      exact ⟨place, d, d', bytes, hl, ho, hr, hb, hsame.wrote hw⟩

/-! ## Files without quotes -/

/-- Where quotes mean nothing, every file that there is room for can be read, and what it says is canonical. -/
theorem exists_read_of_noQuotes (hq : options.quotes = false) (hfits : tree.Fits room place) :
    ∃ d, tree.read room options place = .ok d ∧ Outline.Canonical options.encoding options.quotes d.contents := by
  have hfree : options.quotes = true → Text.QuoteFree (options.encoding.decodeChars (tree.bytesAt place)) := by
    simp [hq]
  exact ⟨_, read_eq_ok_iff.2 ⟨hfits, Document.ofBytes_of_quoteFree 0 hfree⟩,
    Document.canonical_ofText 0 hfree (options.encoding.keeps_decodeChars _)⟩

/-- A canonical edit of a file succeeds, and the file says then what the edit says. -/
theorem exists_setValue_of_canonical (hl : tree.locateForWrite file = .ok place)
    (ho : tree.read room options place = .ok d) (ht : Outline.Takes d.contents sectionName name data placement)
    (hc : Outline.Canonical options.encoding options.quotes (Outline.edit d.contents sectionName name data placement)) :
    ∃ tree' bytes after,
      (setValue volume room options file sectionName name data placement).run tree = (.ok (), tree') ∧
        tree.Wrote tree' place bytes ∧ Document.ofBytes 0 options bytes = .ok after ∧
          after.contents = Outline.edit d.contents sectionName name data placement ∧
            after.toBytes options.encoding = .ok bytes := by
  obtain ⟨d', hset, hw, hcontents⟩ := (wellFormed_read ho).exists_setValue ht file
  rw [← hcontents] at hc ⊢
  obtain ⟨bytes, after, hb, hafter, hsame⟩ := Document.exists_ofBytes_of_canonical hw 0 hc
  obtain ⟨tree', hrun, hwrote⟩ := run_setValue_of_bytes hl ho hset hb
  exact ⟨tree', bytes, after, hrun, hwrote, hafter, hsame, (Document.toBytes_congr hsame _).trans hb⟩

/-- A canonical edit that has been done can be done once more, and writes the bytes that it wrote before. -/
theorem exists_setValue_again {outline : Outline} (hw : outline.WellFormed)
    (ht : outline.Takes sectionName name data placement) (hl : tree.locateForWrite file = .ok place)
    (ho : tree.read room options place = .ok d) (hd : d.contents = outline.edit sectionName name data placement)
    (hc : Outline.Canonical options.encoding options.quotes d.contents)
    (hb : d.toBytes options.encoding = .ok bytes) : ∃ tree',
      (setValue volume room options file sectionName name data placement).run tree = (.ok (), tree') ∧
        tree.Wrote tree' place bytes := by
  have hagain : Outline.edit d.contents sectionName name data placement = d.contents := by
    rw [hd, Outline.edit_edit hw ht.anchor]
  have ht' : Outline.Takes d.contents sectionName name data placement := by
    refine ⟨ht.section_ne, ht.name_ne, ht.data_ne, ?_⟩
    rw [hd]
    exact ht.anchor.edit hw name data
  obtain ⟨tree', bytes', d', hrun, hwrote, -, hd', hb'⟩ := exists_setValue_of_canonical hl ho ht' (by rwa [hagain])
  have hbytes : bytes = bytes' := by
    rw [Document.toBytes_congr (hd'.trans hagain), hb] at hb'
    exact Except.ok.inj hb'
  exact ⟨tree', hrun, hbytes ▸ hwrote⟩

/-- Where quotes mean nothing, setting a canonical value in a file for which there is room succeeds if and only if the
anchor, should there be one, is a key of the section. The file says then what it said before with this one edit, nothing
else has changed in the tree, and setting the value once more changes nothing. -/
theorem setValue_eq_edit (room : Nat) (options : Options) (hq : options.quotes = false) (tree : FileTree)
    (file : String) {place : List String} (hl : tree.locateForWrite file = .ok place) (hfits : tree.Fits room place)
    (sectionName name data : String) (placement : Placement) (hs : sectionName ≠ "") (hn : name ≠ "") (hd : data ≠ "")
    (hc : Outline.Canonical options.encoding false [(sectionName, [(name, data)])]) :
    ∃ before result tree', ((loadOrEmpty volume room options file).run tree).1 = .ok before ∧
      (setValue volume room options file sectionName name data placement).run tree = (result, tree') ∧
      (result = .ok () ↔ Outline.HasAnchor before.contents sectionName placement) ∧
      (result = .ok () → (∃ bytes, tree.Wrote tree' place bytes) ∧ (tree'.Fits room place →
        (∃ after, ((loadFile volume room options file).run tree').1 = .ok after ∧
          after.contents = Outline.edit before.contents sectionName name data placement) ∧
        ∃ tree'', (setValue volume room options file sectionName name data placement).run tree' = (.ok (), tree'') ∧
          ∀ p, tree''.node? p = tree'.node? p)) := by
  obtain ⟨before, ho, hcanonical⟩ := exists_read_of_noQuotes hq hfits
  have hw := Document.wellFormed_contents (wellFormed_read ho)
  have hload : ((loadOrEmpty volume room options file).run tree).1 = .ok before := by
    rw [run_loadOrEmpty hl, ho]
    rfl
  by_cases ha : Outline.HasAnchor before.contents sectionName placement
  · have hedit := Outline.canonical_edit hcanonical (hq ▸ hc) placement
    have ht : Outline.Takes before.contents sectionName name data placement := ⟨hs, hn, hd, ha⟩
    obtain ⟨tree', bytes, after, hrun, hwrote, hafter, hcontents, hb⟩ := exists_setValue_of_canonical hl ho ht hedit
    refine ⟨before, .ok (), tree', hload, hrun, iff_of_true rfl ha, fun _ => ⟨⟨bytes, hwrote⟩, ?_⟩⟩
    intro hfits'
    have hl' := hwrote.locateForWrite hl
    have ho' : tree'.read room options place = .ok after := read_eq_ok_iff.2 ⟨hfits', hwrote.bytesAt ▸ hafter⟩
    constructor
    · have hthere : tree'.node? place ≠ none := by simp [hwrote.node?]
      refine ⟨after, ?_, hcontents⟩
      rw [run_loadFile hl' hthere, ho']
      rfl
    · obtain ⟨tree'', hrun', hwrote'⟩ := exists_setValue_again hw ht hl' ho' hcontents (hcontents ▸ hedit) hb
      refine ⟨tree'', hrun', ?_⟩
      intro p
      rw [(hwrote.trans hwrote').node?, hwrote.node?]
  · have hrefused : ((setValue volume room options file sectionName name data placement).run tree).1 ≠ .ok () := by
      intro h
      obtain ⟨place', d, d', bytes, hl', ho', hset, -, -⟩ := exists_of_run_setValue (Prod.ext h rfl)
      obtain rfl : place = place' := Except.ok.inj (hl.symm.trans hl')
      obtain rfl : before = d := Except.ok.inj (ho.symm.trans ho')
      exact ha ((wellFormed_read ho).takes_of_setValue hset).anchor
    exact ⟨before, _, _, hload, rfl, iff_of_false hrefused ha, fun h => absurd h hrefused⟩

/-- A file with one key takes another one in front of it. -/
theorem setValue_eq_edit_in_front :
    let tree := scratch.setNode ["tmp", "scratch", "a.ini"] (.file (Text.Utf8.encode "[S]\r\na=1\r\n".toList))
    ∃ before tree', ((loadOrEmpty volume 100 default "a.ini").run tree).1 = .ok before ∧
      (setValue volume 100 default "a.ini" "s" "b" "2" .first).run tree = (.ok (), tree') ∧
      ∃ after, ((loadFile volume 100 default "a.ini").run tree').1 = .ok after ∧
        after.contents = Outline.edit before.contents "s" "b" "2" .first := by
  intro tree
  obtain ⟨before, result, tree', hload, hrun, hok, hdone⟩ := setValue_eq_edit 100 default rfl tree "a.ini" rfl
    (by decide) "s" "b" "2" .first (by decide) (by decide) (by decide) (by decide)
  obtain rfl : result = .ok () := hok.2 (by rintro _ ⟨⟩)
  have hfits : Fits ((setValue volume 100 default "a.ini" "s" "b" "2" .first).run tree).2 100
      ["tmp", "scratch", "a.ini"] := by
    decide +kernel
  rw [hrun] at hfits
  exact ⟨before, tree', hload, hrun, ((hdone rfl).2 hfits).1⟩

end FileTree

end IniDoc
