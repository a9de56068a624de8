import IniDoc.Document.Cursor
import IniDoc.Proofs.LedgerRuns

/-!
# Handles

What a handle stands for is told by names: of a section its own, of a key the one of its section and its own. Changes
of a document leave the names of all that is there, so a handle stands for the same ever after.

* `Document.path?`: the names of what a handle stands for.
* `Document.Grows`: a document after changes; `Document.grows_mutate`, `Document.grows_scan`.
* `Document.exists_path_mutate`: a handle that a call answers stands for something.
* `Document.WellFormed.eq_of_path?`: only one handle stands for it.
* `Document.rejects_of_document_ne`: no other document knows the handle.
-/

namespace IniDoc

open Text (Item)

/-- A handle of a section or of a key. -/
abbrev Handle := SectionId ⊕ KeyId

/-- The identity of the document that a handle comes from. -/
def Handle.document : Handle → Nat
  | .inl id => id.document
  | .inr k => k.owner.document

/-! ## Keys of a section -/

namespace Section

variable {s t changed : Section} {k k' : KeyId} {key key' : Key} {anchor : Option KeyId} {insertion : Insertion}
  {name data : String}

/-- A section after changes: the same section, and each key has its handle and its name. -/
structure Grows (s t : Section) : Prop where
  name : t.name = s.name
  keys : ∀ k key, s.key? k = some key → ∃ key', t.key? k = some key' ∧ key'.name = key.name

/-- A section knows nothing of a key's handle: it has no key for it, and does not take it as an anchor. -/
def Rejects (s : Section) (k : KeyId) : Prop :=
  s.key? k = none ∧ ∀ insertion name data, s.insert (some k) insertion name data = .error (.invalidArgument
    (if name = "" then .emptyKeyName else if data = "" then .emptyKeyData else .foreignAnchor))

theorem key?_eq_some_iff : s.key? k = some key ↔ k = s.keyId k.index ∧ s.keys.get? k.index = some key := by
  obtain ⟨owner, index⟩ := k
  simp [key?, keyId]

theorem key?_keyId (s : Section) (i : Nat) : s.key? (s.keyId i) = s.keys.get? i := if_pos rfl

theorem rejects_of_key? (h : s.key? k = none) : s.Rejects k := by
  refine ⟨h, fun insertion name data => ?_⟩
  unfold insert
  simp only [String.isEmpty_iff, Option.any_some, h, Option.isNone_none, if_true]
  split_ifs <;> rfl

theorem Grows.refl (s : Section) : s.Grows s := ⟨rfl, fun _ key hk => ⟨key, hk, rfl⟩⟩

theorem grows_insert (h : s.insert anchor insertion name data = .ok (k, changed)) : s.Grows changed := by
  refine ⟨name_insert h, fun k' key hk => ?_⟩
  obtain ⟨hid, hget⟩ := key?_eq_some_iff.1 hk
  obtain ⟨-, -, ⟨i, -, -, rfl⟩ | ⟨-, -, -, rfl⟩⟩ := insert_cases h
  · by_cases hi : k'.index = i
    · refine ⟨{ key with data }, key?_eq_some_iff.2 ⟨hid, ?_⟩, rfl⟩
      rw [Chain.get?_modify, if_pos hi, hget]
      rfl
    · refine ⟨key, key?_eq_some_iff.2 ⟨hid, ?_⟩, rfl⟩
      rw [Chain.get?_modify, if_neg hi, hget]
  · refine ⟨key, key?_eq_some_iff.2 ⟨hid, ?_⟩, rfl⟩
    rw [Chain.get?_put, if_neg (Chain.lt_size_of_get? hget).ne, hget]

namespace WellFormed

/-- A name that is found belongs to a key. -/
theorem exists_key_of_find? (hs : s.WellFormed) (h : s.find? name = some k) : ∃ key, s.key? k = some key := by
  obtain ⟨i, hi, rfl⟩ := Option.map_eq_some_iff.1 h
  obtain ⟨key, hk, -⟩ := (hs.keys.find?_eq_some_iff name i).1 hi
  exact ⟨key, by rw [key?_keyId, hk]⟩

/-- The handle that an insertion answers stands for a key. -/
theorem exists_key_of_insert (hs : s.WellFormed) (h : s.insert anchor insertion name data = .ok (k, changed)) :
    ∃ key, changed.key? k = some key := by
  obtain ⟨-, -, ⟨i, hi, rfl, -⟩ | ⟨-, -, rfl, rfl⟩⟩ := insert_cases h
  · obtain ⟨key, hk, -⟩ := (hs.keys.find?_eq_some_iff name i).1 hi
    obtain ⟨key', hk', -⟩ := (grows_insert h).keys _ key ((key?_keyId s i).trans hk)
    exact ⟨key', hk'⟩
  · refine ⟨⟨name, data⟩, key?_eq_some_iff.2 ⟨rfl, ?_⟩⟩
    exact (Chain.get?_put ..).trans (if_pos rfl)

/-- Only one handle stands for a key. -/
theorem eq_of_key? (hs : s.WellFormed) (hk : s.key? k = some key) (hk' : s.key? k' = some key')
    (hn : key.name = key'.name) : k = k' := by
  obtain ⟨hid, hget⟩ := key?_eq_some_iff.1 hk
  obtain ⟨hid', hget'⟩ := key?_eq_some_iff.1 hk'
  rw [hid, hid', hs.keys.eq_of_foldName_eq hget hget' (congrArg _ hn)]

end WellFormed

end Section

namespace Cursor

variable {s : Section} {i : Nat} {cursor : Cursor}

/-- The cursor after so many moves; at the last key it stays. -/
def moved : (moves : Nat) → Cursor → Cursor
  | 0, cursor => cursor
  | moves + 1, cursor => moved moves (cursor.advance?.getD cursor)

theorem owner_at? (h : at? s i = some cursor) : cursor.owner = s := by
  unfold at? at h
  split at h
  · cases h
    rfl
  · cases h

theorem owner_first? (h : first? s = some cursor) : cursor.owner = s := by
  obtain ⟨i, -, hi⟩ := Option.bind_eq_some_iff.1 h
  exact owner_at? hi

theorem owner_moved (moves : Nat) (cursor : Cursor) : (cursor.moved moves).owner = cursor.owner := by
  induction moves generalizing cursor with
  | zero => rfl
  | succ moves ih =>
    rw [moved, ih]
    cases ha : cursor.advance? with
    | none => rfl
    | some next =>
      obtain ⟨i, -, hi⟩ := Option.bind_eq_some_iff.1 ha
      exact owner_at? hi

/-- The handle of a cursor's key stands for it. -/
theorem key?_id (cursor : Cursor) : cursor.owner.key? cursor.id = some cursor.key :=
  (Section.key?_keyId _ _).trans cursor.key_eq

end Cursor

/-! ## Sections of a document -/

namespace Document

variable {d d' d'' : Document} {s changed : Section} {id : SectionId} {h h' : Handle} {path : String × Option String}

/-- The names of what a handle stands for: of a section its own, of a key the one of its section and its own. -/
def path? (d : Document) : Handle → Option (String × Option String)
  | .inl id => (d.section? id).map fun s => (s.name, none)
  | .inr k => (d.section? k.owner).bind fun s => (s.key? k).map fun key => (s.name, some key.name)

/-- A document after changes: the same document, and each section has its handle and its name. -/
structure Grows (d d' : Document) : Prop where
  id : d'.id = d.id
  sections : ∀ id s, d.section? id = some s → ∃ s', d'.section? id = some s' ∧ s.Grows s'

/-- A document knows nothing of a handle: it has no section for it, neither to look at nor to edit, and none of its
sections knows anything of it. -/
def Rejects (d : Document) : Handle → Prop
  | .inl id => d.section? id = none ∧ ∀ (β : Type) (edit : Section → Except Error (β × Section)),
      d.updateSection id edit = none
  | .inr k => d.section? k.owner = none ∧ ∀ s ∈ d.sections.toList, s.Rejects k

theorem path?_section (hs : d.section? id = some s) : d.path? (.inl id) = some (s.name, none) := by
  rw [path?, hs, Option.map_some]

theorem path?_key {k : KeyId} {key : Key} (hs : d.section? s.id = some s) (hk : s.key? k = some key) :
    d.path? (.inr k) = some (s.name, some key.name) := by
  have howner : k.owner = s.id := by rw [(Section.key?_eq_some_iff.1 hk).1, Section.keyId]
  rw [path?, howner, hs, Option.bind_some, hk, Option.map_some]

/-- What a handle can stand for. -/
theorem path?_cases (hp : d.path? h = some path) :
    (∃ id s, h = .inl id ∧ d.section? id = some s ∧ path = (s.name, none)) ∨
      ∃ k s key, h = .inr k ∧ d.section? k.owner = some s ∧ s.key? k = some key ∧
        path = (s.name, some key.name) := by
  cases h with
  | inl id =>
    obtain ⟨s, hs, rfl⟩ := Option.map_eq_some_iff.1 hp
    exact .inl ⟨id, s, rfl, hs, rfl⟩
  | inr k =>
    obtain ⟨s, hs, hp⟩ := Option.bind_eq_some_iff.1 hp
    obtain ⟨key, hk, rfl⟩ := Option.map_eq_some_iff.1 hp
    exact .inr ⟨k, s, key, rfl, hs, hk, rfl⟩

theorem document_of_path? (hp : d.path? h = some path) : h.document = d.id := by
  obtain ⟨id, s, rfl, hs, -⟩ | ⟨k, s, key, rfl, hs, -, -⟩ := path?_cases hp
  · exact congrArg SectionId.document (section?_eq_some_iff.1 hs).1
  · exact congrArg SectionId.document (section?_eq_some_iff.1 hs).1

/-- Only one handle stands for a section. -/
theorem WellFormed.eq_of_section? (hd : d.WellFormed) {id' : SectionId} {s' : Section}
    (hs : d.section? id = some s) (hs' : d.section? id' = some s') (hn : s.name = s'.name) : id = id' := by
  obtain ⟨hid, hget⟩ := section?_eq_some_iff.1 hs
  obtain ⟨hid', hget'⟩ := section?_eq_some_iff.1 hs'
  rw [hid, hid', hd.sections.eq_of_foldName_eq hget hget' (congrArg _ hn)]

/-- Only one handle stands for a section or a key. -/
theorem WellFormed.eq_of_path? (hd : d.WellFormed) (hp : d.path? h = some path) (hp' : d.path? h' = some path) :
    h = h' := by
  obtain ⟨id, s, rfl, hs, rfl⟩ | ⟨k, s, key, rfl, hs, hk, rfl⟩ := path?_cases hp
  · obtain ⟨id', s', rfl, hs', heq⟩ | ⟨k', s', key', rfl, hs', hk', heq⟩ := path?_cases hp'
    · rw [hd.eq_of_section? hs hs' (Prod.mk.inj heq).1]
    · cases (Prod.mk.inj heq).2
  · obtain ⟨id', s', rfl, hs', heq⟩ | ⟨k', s', key', rfl, hs', hk', heq⟩ := path?_cases hp'
    · cases (Prod.mk.inj heq).2
    · obtain ⟨hsection, hkey⟩ := Prod.mk.inj heq
      rw [← hd.eq_of_section? hs hs' hsection, hs] at hs'
      cases hs'
      rw [(hd.of_section? hs).eq_of_key? hk hk' (Option.some.inj hkey)]

/-! ### Handles from elsewhere -/

/-- No other document knows a handle. -/
theorem rejects_of_document_ne (hd : d.WellFormed) (hne : h.document ≠ d.id) : d.Rejects h := by
  cases h with
  | inl id =>
    have hnone : d.section? id = none := if_neg hne
    exact ⟨hnone, fun β edit => by rw [updateSection, hnone, Option.map_none]⟩
  | inr k =>
    refine ⟨if_neg hne, fun s hs => Section.rejects_of_key? (if_neg ?_)⟩
    intro howner
    exact hne (congrArg SectionId.document
      (howner.trans (section?_eq_some_iff.1 ((mem_toList_iff hd).1 hs)).1))

/-- No other section of its document knows the handle of a key. -/
theorem rejects_of_name_ne (hd : d.WellFormed) {k : KeyId} (hp : d.path? (.inr k) = some path)
    (hs : s ∈ d.sections.toList) (hn : s.name ≠ path.1) : s.Rejects k := by
  obtain ⟨id, own, hk, -, -⟩ | ⟨k', own, key, hk, hown, -, rfl⟩ := path?_cases hp
  · cases hk
  · cases hk
    refine Section.rejects_of_key? (if_neg fun howner => hn ?_)
    rw [howner, (mem_toList_iff hd).1 hs] at hown
    rw [Option.some.inj hown]

/-! ## Changes -/

theorem Grows.refl (d : Document) : d.Grows d := ⟨rfl, fun _ s hs => ⟨s, hs, .refl s⟩⟩

theorem Grows.trans (hg : d.Grows d') (hg' : d'.Grows d'') : d.Grows d'' := by
  refine ⟨hg'.id.trans hg.id, fun id s hs => ?_⟩
  obtain ⟨s', hs', hname, hkeys⟩ := hg.sections id s hs
  obtain ⟨s'', hs'', hname', hkeys'⟩ := hg'.sections id s' hs'
  refine ⟨s'', hs'', hname'.trans hname, fun k key hk => ?_⟩
  obtain ⟨key', hk', hn⟩ := hkeys k key hk
  obtain ⟨key'', hk'', hn'⟩ := hkeys' k key' hk'
  exact ⟨key'', hk'', hn'.trans hn⟩

/-- What a handle stands for, it stands for ever after. -/
theorem Grows.path? (hg : d.Grows d') (hp : d.path? h = some path) : d'.path? h = some path := by
  obtain ⟨id, s, rfl, hs, rfl⟩ | ⟨k, s, key, rfl, hs, hk, rfl⟩ := path?_cases hp
  · obtain ⟨s', hs', hname, -⟩ := hg.sections id s hs
    rw [path?_section hs', hname]
  · obtain ⟨s', hs', hname, hkeys⟩ := hg.sections k.owner s hs
    obtain ⟨key', hk', hn⟩ := hkeys k key hk
    rw [Document.path?, hs', Option.bind_some, hk', Option.map_some, hname, hn]

theorem grows_addSection {name : String} (h : d.addSection name = .ok (id, d')) : d.Grows d' := by
  unfold addSection at h
  split at h
  · cases h
  · split at h
    · cases h
      exact .refl d
    · cases h
      refine ⟨rfl, fun id s hs => ⟨s, ?_, .refl s⟩⟩
      obtain ⟨hid, hget⟩ := section?_eq_some_iff.1 hs
      refine section?_eq_some_iff.2 ⟨hid, ?_⟩
      rw [Chain.get?_put, if_neg (Chain.lt_size_of_get? hget).ne, hget]

/-- The handle that adding a section answers stands for it. -/
theorem exists_path_addSection (hd : d.WellFormed) {name : String} (h : d.addSection name = .ok (id, d')) :
    ∃ path, d'.path? (.inl id) = some path := by
  have hn : name ≠ "" := by
    rintro rfl
    cases h
  obtain ⟨id', d'', ha, -, -, s, hs, -⟩ := exists_addSection hd hn
  cases ha.symm.trans h
  exact ⟨_, path?_section hs⟩

theorem grows_putSection (hd : d.WellFormed) (hs : d.section? id = some s) (hid : changed.id = s.id)
    (hg : s.Grows changed) : d.Grows (d.putSection changed) := by
  refine ⟨rfl, fun id' t ht => ?_⟩
  by_cases heq : id' = id
  · subst heq
    cases hs.symm.trans ht
    exact ⟨changed, section?_putSection hd hs hid, hg⟩
  · refine ⟨t, ?_, .refl t⟩
    obtain ⟨hid', hget⟩ := section?_eq_some_iff.1 ht
    have hne : id'.index ≠ changed.id.index := by
      intro hindex
      rw [hid, id_of_section? hd hs] at hindex
      exact heq (by rw [hid', (section?_eq_some_iff.1 hs).1, hindex])
    refine section?_eq_some_iff.2 ⟨hid', ?_⟩
    exact (Chain.get?_modify ..).trans (by rw [if_neg hne, hget])

theorem grows_insert (hd : d.WellFormed) {anchor : Option KeyId} {insertion : Insertion} {name data : String}
    {k : KeyId} (h : d.updateSection id (·.insert anchor insertion name data) = some (.ok (k, d'))) : d.Grows d' := by
  obtain ⟨s, changed, hs, he, rfl⟩ := updateSection_cases h
  exact grows_putSection hd hs (Section.id_insert he) (Section.grows_insert he)

/-- The handle that an insertion answers stands for a key. -/
theorem exists_path_insert (hd : d.WellFormed) {anchor : Option KeyId} {insertion : Insertion} {name data : String}
    {k : KeyId} (h : d.updateSection id (·.insert anchor insertion name data) = some (.ok (k, d'))) :
    ∃ path, d'.path? (.inr k) = some path := by
  obtain ⟨s, changed, hs, he, rfl⟩ := updateSection_cases h
  have hid := Section.id_insert he
  obtain ⟨key, hk⟩ := (hd.of_section? hs).exists_key_of_insert he
  have hput := section?_putSection hd hs hid
  rw [← id_of_section? hd hs, ← hid] at hput
  exact ⟨_, path?_key hput hk⟩

/-- What a call that changes a document can do: nothing, without a handle in its answer, or one of two things. -/
theorem mutate_cases (d : Document) (m : Mutation) :
    ((∀ h, (d.mutate m).1 ≠ some (.ok h)) ∧ (d.mutate m).2 = d) ∨
      (∃ name id d', d.addSection name = .ok (id, d') ∧ d.mutate m = (some (.ok (.inl id)), d')) ∨
        ∃ owner anchor insertion name data k d',
          d.updateSection owner (·.insert anchor insertion name data) = some (.ok (k, d')) ∧
            d.mutate m = (some (.ok (.inr k)), d') := by
  have hsettle : ∀ {β : Type} (handle : β → Handle) (r : Option (Except Error (β × Document))),
      ((∀ h, (Mutation.settle handle d r).1 ≠ some (.ok h)) ∧ (Mutation.settle handle d r).2 = d) ∨
        ∃ b d', r = some (.ok (b, d')) ∧ Mutation.settle handle d r = (some (.ok (handle b)), d') := by
    rintro β handle (_ | _ | ⟨b, d'⟩)
    · exact .inl ⟨fun _ => nofun, rfl⟩
    · exact .inl ⟨fun _ => nofun, rfl⟩
    · exact .inr ⟨b, d', rfl, rfl⟩
  cases m with
  | addSection name =>
    rcases hsettle .inl (some (d.addSection name)) with hrefused | ⟨id, d', ha, he⟩
    · exact .inl hrefused
    · exact .inr (.inl ⟨name, id, d', Option.some.inj ha, he⟩)
  | addKey owner name data =>
    rcases hsettle .inr (d.updateSection owner (·.add name data)) with hrefused | ⟨k, d', ha, he⟩
    · exact .inl hrefused
    · exact .inr (.inr ⟨owner, none, .last, name, data, k, d', ha, he⟩)
  | insertKey owner anchor insertion name data =>
    rcases hsettle .inr (d.updateSection owner (·.insert anchor insertion name data)) with hrefused | ⟨k, d', ha, he⟩
    · exact .inl hrefused
    · exact .inr (.inr ⟨owner, anchor, insertion, name, data, k, d', ha, he⟩)

/-- A call that changes a document leaves what handles stand for. -/
theorem grows_mutate (hd : d.WellFormed) (m : Mutation) : d.Grows (d.mutate m).2 := by
  obtain ⟨-, he⟩ | ⟨name, id, d', ha, he⟩ | ⟨owner, anchor, insertion, name, data, k, d', ha, he⟩ := d.mutate_cases m
  · rw [he]
    exact .refl d
  · rw [he]
    exact grows_addSection ha
  · rw [he]
    exact grows_insert hd ha

/-- The handle that a call answers stands for something. -/
theorem exists_path_mutate (hd : d.WellFormed) {m : Mutation} (hm : (d.mutate m).1 = some (.ok h)) :
    ∃ path, (d.mutate m).2.path? h = some path := by
  obtain ⟨hno, -⟩ | ⟨name, id, d', ha, he⟩ | ⟨owner, anchor, insertion, name, data, k, d', ha, he⟩ := d.mutate_cases m
  · exact absurd hm (hno h)
  · rw [he] at hm ⊢
    cases hm
    exact exists_path_addSection hd ha
  · rw [he] at hm ⊢
    cases hm
    exact exists_path_insert hd ha

end Document

/-! ## Scans -/

namespace Progress

variable {p : Progress} {q : Draft}

theorem Shows.grows_add (h : p.Shows q) (item : Item) : p.document.Grows (p.add item).document := by
  cases item with
  | header name =>
    show p.document.Grows (p.addHeader name).document
    unfold Progress.addHeader
    split
    · next id d' ha => exact Document.grows_addSection ha
    · exact .refl _
  | entry name data =>
    show p.document.Grows (p.addEntry name data).document
    unfold Progress.addEntry
    split
    · next k d' ha =>
      obtain ⟨id, -, hu⟩ := Option.bind_eq_some_iff.1 ha
      exact Document.grows_insert h.wellFormed hu
    · exact .refl _
  | namelessHeader => exact .refl _
  | outside => exact .refl _
  | comment => exact .refl _
  | noEquals => exact .refl _
  | unclosed tail => exact .refl _

theorem Shows.grows_addAll (h : p.Shows q) (items : List Item) : p.document.Grows (p.addAll items).document := by
  induction items generalizing p q with
  | nil => exact .refl _
  | cons item items ih => exact (h.grows_add item).trans (ih (h.add item))

end Progress

theorem Document.grows_scan {d : Document} (hd : d.WellFormed) (options : Options) (text : String) :
    d.Grows (d.scan options text).1 :=
  (Progress.Shows.start hd).grows_addAll (Item.all options.quotes text.toList)

end IniDoc
