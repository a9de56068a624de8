import IniDoc.Editing.Command
import IniDoc.Proofs.LedgerRuns
import IniDoc.Proofs.OutlineValues
import IniDoc.Proofs.RoundTrip

/-!
# Edits of an outline

What setting a value does to a document, said on the names and values alone: the section is found or comes last, a known
name takes the value in its place, and a new one goes where the placement says.

* `Outline.putValue`, `Outline.edit`: the edit. Done twice, it is done once.
* `Document.WellFormed.exists_setValue`: a document takes the edit where it can, and says then what the edit says.
* `Document.WellFormed.takes_of_setValue`: it takes no other edit.
-/

namespace IniDoc

open Text (Encoding foldName)

namespace Outline

variable {outline : Outline} {entries : Entries} {new entry : String × String} {sectionName name data : String}
  {placement : Placement}

/-! ## The edit -/

/-- Puts a new entry where a placement says: at an end, or next to the entry with the anchor's name. -/
def placeEntry (new : String × String) (entries : Entries) : Placement → Entries
  | .first => new :: entries
  | .last => entries ++ [new]
  | .before anchor => entries.flatMap fun entry => if foldName entry.1 = foldName anchor then [new, entry] else [entry]
  | .after anchor => entries.flatMap fun entry => if foldName entry.1 = foldName anchor then [entry, new] else [entry]

/-- Gives a name its value: in its place and under its old spelling, or where the placement says. -/
def putValue (entries : Entries) (name data : String) (placement : Placement) : Entries :=
  if hasName entries name then setValue entries name data else placeEntry (name, data) entries placement

/-- Gives a name its value in the section with a name, which is found or comes behind all others. -/
def edit (outline : Outline) (sectionName name data : String) (placement : Placement) : Outline :=
  (addSection outline sectionName).map fun s =>
    if foldName s.1 = foldName sectionName then (s.1, putValue s.2 name data placement) else s

/-- The anchor of a placement, if it has one, is the name of an entry in the section with a name. -/
def HasAnchor (outline : Outline) (sectionName : String) (placement : Placement) : Prop :=
  ∀ anchor ∈ placement.anchor?, ∃ s ∈ outline, foldName s.1 = foldName sectionName ∧ hasName s.2 anchor = true

/-- Nothing that is to be set is empty, and the anchor is there. -/
structure Takes (outline : Outline) (sectionName name data : String) (placement : Placement) : Prop where
  section_ne : sectionName ≠ ""
  name_ne : name ≠ ""
  data_ne : data ≠ ""
  anchor : outline.HasAnchor sectionName placement

/-- Where exactly one entry can be the anchor, a new entry stands in one gap between the others. -/
theorem exists_placeEntry (hn : (entries.map fun entry => foldName entry.1).Nodup)
    (ha : ∀ anchor ∈ placement.anchor?, hasName entries anchor = true) (new : String × String) :
    ∃ pre post, entries = pre ++ post ∧ placeEntry new entries placement = pre ++ new :: post := by
  have hanchor : ∀ {anchor : String}, hasName entries anchor = true → ∃ pre entry post, entries = pre ++ entry :: post ∧
      foldName entry.1 = foldName anchor ∧ ∀ other ∈ pre ++ post, foldName other.1 ≠ foldName anchor := by
    intro anchor h
    obtain ⟨entry, he, hname⟩ := List.any_eq_true.1 h
    obtain ⟨pre, post, rfl⟩ := List.append_of_mem he
    have hfold : foldName entry.1 = foldName anchor := by simpa using hname
    rw [List.map_append, List.map_cons, List.nodup_middle, List.nodup_cons, ← List.map_append] at hn
    refine ⟨pre, entry, post, rfl, hfold, ?_⟩
    intro other ho hof
    exact hn.1 (List.mem_map.2 ⟨other, ho, hof.trans hfold.symm⟩)
  cases placement with
  | first => exact ⟨[], entries, rfl, rfl⟩
  | last => exact ⟨entries, [], (List.append_nil _).symm, rfl⟩
  | before anchor =>
    obtain ⟨pre, entry, post, rfl, hentry, hothers⟩ := hanchor (ha anchor rfl)
    refine ⟨pre, entry :: post, rfl, ?_⟩
    exact flatMap_of_unique (fun entry => [new, entry]) hentry hothers
  | after anchor =>
    obtain ⟨pre, entry, post, rfl, hentry, hothers⟩ := hanchor (ha anchor rfl)
    refine ⟨pre ++ [entry], post, List.append_cons _ _ _, ?_⟩
    rw [placeEntry, flatMap_of_unique (fun entry => [entry, new]) hentry hothers, List.append_assoc]
    rfl

theorem mem_placeEntry (h : entry ∈ placeEntry new entries placement) : entry = new ∨ entry ∈ entries := by
  have hnext : ∀ {anchor : String} {f : String × String → Entries}, (∀ e, ∀ d ∈ f e, d = new ∨ d = e) →
      entry ∈ entries.flatMap (fun e => if foldName e.1 = foldName anchor then f e else [e]) →
        entry = new ∨ entry ∈ entries := by
    intro anchor f hf hm
    obtain ⟨e, he, hm⟩ := List.mem_flatMap.1 hm
    split at hm
    · rcases hf e entry hm with rfl | rfl
      · exact .inl rfl
      · exact .inr he
    · exact .inr (List.mem_singleton.1 hm ▸ he)
  cases placement with
  | first => exact List.mem_cons.1 h
  | last =>
    rcases List.mem_append.1 h with h | h
    · exact .inr h
    · exact .inl (List.mem_singleton.1 h)
  | before anchor => exact hnext (by simp) h
  | after anchor => exact hnext (by simp [or_comm]) h

theorem every_edit {ofSection ofName ofValue : String → Prop} (h : outline.Every ofSection ofName ofValue)
    (hnew : Every ofSection ofName ofValue [(sectionName, [(name, data)])]) :
    (edit outline sectionName name data placement).Every ofSection ofName ofValue := by
  obtain ⟨hs, he⟩ := hnew _ (List.mem_singleton_self _)
  obtain ⟨hn, hd⟩ := he _ (List.mem_singleton_self _)
  intro s hm
  obtain ⟨old, hold, rfl⟩ := List.mem_map.1 hm
  obtain ⟨hsection, hentries⟩ := every_addSection h hs old hold
  split
  · refine ⟨hsection, ?_⟩
    intro entry hentry
    simp only [putValue] at hentry
    split at hentry
    · rcases mem_setValue hentry with rfl | hentry | ⟨rfl, old', hold', he⟩
      · exact ⟨hn, hd⟩
      · exact hentries entry hentry
      · exact ⟨he ▸ (hentries old' hold').1, hd⟩
    · rcases mem_placeEntry hentry with rfl | hentry
      · exact ⟨hn, hd⟩
      · exact hentries entry hentry
  · exact ⟨hsection, hentries⟩

theorem canonical_edit {encoding : Encoding} {quotes : Bool} (h : outline.Canonical encoding quotes)
    (hnew : Canonical encoding quotes [(sectionName, [(name, data)])]) (placement : Placement) :
    (edit outline sectionName name data placement).Canonical encoding quotes :=
  ⟨every_edit h.1 hnew.1, every_edit h.2 hnew.2⟩

/-! ## What stands there after the edit -/

theorem eq_of_mem_putValue (h : entry ∈ putValue entries name data placement) (hn : foldName entry.1 = foldName name) :
    entry.2 = data := by
  rw [putValue] at h
  split at h
  · next hknown =>
    rw [setValue, if_pos hknown] at h
    obtain ⟨old, -, rfl⟩ := List.mem_map.1 h
    split at hn
    · next hold => rw [if_pos hold]
    · contradiction
  · next hnew =>
    rcases mem_placeEntry h with rfl | he
    · rfl
    · exact absurd hn (hasName_eq_false_iff.1 (Bool.eq_false_iff.2 hnew) entry he)

/-- Entries whose value under a name is the right one already stay as they are. -/
theorem putValue_same (h : hasName entries name = true)
    (hd : ∀ entry ∈ entries, foldName entry.1 = foldName name → entry.2 = data) (placement : Placement) :
    putValue entries name data placement = entries := by
  rw [putValue, if_pos h, setValue, if_pos h]
  conv_rhs => rw [← List.map_id entries]
  apply List.map_congr_left
  intro entry he
  split
  · next hn => rw [← hd entry he hn]; rfl
  · rfl

/-- Under the name stands the value, and under every other name what stood there. -/
theorem lastValue_putValue (hn : (entries.map fun entry => foldName entry.1).Nodup)
    (ha : ∀ anchor ∈ placement.anchor?, hasName entries anchor = true) (name data other : String) :
    lastValue (putValue entries name data placement) other =
      if foldName name = foldName other then some data else lastValue entries other := by
  rw [putValue]
  by_cases h : hasName entries name = true
  · rw [if_pos h, lastValue_setValue entries (name, data), lastValue_append, lastValue_singleton]
    split <;> rfl
  · obtain ⟨pre, post, rfl, hplace⟩ := exists_placeEntry hn ha (name, data)
    rw [if_neg h, hplace, List.append_cons, lastValue_append, lastValue_append, lastValue_singleton]
    by_cases ho : foldName name = foldName other
    · have hpost : lastValue post other = none := by
        apply lastValue_eq_none
        intro entry he hentry
        have hnew := hasName_eq_false_iff.1 (Bool.eq_false_iff.2 h) entry (List.mem_append_right _ he)
        exact hnew (hentry.trans ho.symm)
      rw [if_pos ho, if_pos ho, hpost]
      rfl
    · rw [if_neg ho, if_neg ho, Option.none_or, lastValue_append]

theorem hasName_putValue (hn : (entries.map fun entry => foldName entry.1).Nodup)
    (ha : ∀ anchor ∈ placement.anchor?, hasName entries anchor = true) (name data other : String) :
    hasName (putValue entries name data placement) other =
      (decide (foldName name = foldName other) || hasName entries other) := by
  rw [← isSome_lastValue, lastValue_putValue hn ha, ← isSome_lastValue]
  by_cases ho : foldName name = foldName other <;> simp [ho]

/-! ## The edit in its section -/

theorem hasAnchor_iff (hn : (outline.map fun s => foldName s.1).Nodup) : outline.HasAnchor sectionName placement ↔
    ∀ anchor ∈ placement.anchor?, hasName (entriesOf outline sectionName) anchor = true := by
  refine forall₂_congr fun anchor _ => ?_
  constructor
  · rintro ⟨s, hs, hname, ha⟩
    rwa [entriesOf_of_mem hn hs hname]
  · intro h
    rw [entriesOf] at h
    cases hf : outline.find? fun s => foldName s.1 = foldName sectionName with
    | none =>
      rw [hf] at h
      cases h
    | some s =>
      rw [hf] at h
      exact ⟨s, List.mem_of_find?_eq_some hf, by simpa using List.find?_some hf, h⟩

theorem map_fst_edit (outline : Outline) (sectionName name data : String) (placement : Placement) :
    (edit outline sectionName name data placement).map Prod.fst = addName (outline.map Prod.fst) sectionName := by
  rw [edit, List.map_map, ← map_fst_addSection]
  apply List.map_congr_left
  intro s _
  rw [Function.comp_apply]
  split <;> rfl

/-- The edit shows in its section only. -/
theorem entriesOf_edit (outline : Outline) (sectionName name data : String) (placement : Placement) (other : String) :
    entriesOf (edit outline sectionName name data placement) other =
      if foldName sectionName = foldName other then putValue (entriesOf outline other) name data placement
      else entriesOf outline other := by
  rw [edit, entriesOf_update (hasName_addSection outline sectionName) (putValue · name data placement) other,
    entriesOf_addSection]

/-- The anchor is there after the edit as well. -/
theorem HasAnchor.edit (hw : outline.WellFormed) (ha : outline.HasAnchor sectionName placement) (name data : String) :
    (outline.edit sectionName name data placement).HasAnchor sectionName placement := by
  have hnodup : ((outline.edit sectionName name data placement).map fun s => foldName s.1).Nodup := by
    rw [map_foldName, map_fst_edit, ← map_fst_addSection, ← map_foldName]
    exact nodup_addSection hw.nodup sectionName
  have hanchor := (hasAnchor_iff hw.nodup).1 ha
  rw [hasAnchor_iff hnodup, entriesOf_edit, if_pos rfl]
  intro anchor hm
  rw [hasName_putValue (nodup_entriesOf hw sectionName) hanchor, hanchor anchor hm, Bool.or_true]

/-- The section that is edited has the name after the edit. -/
theorem hasName_of_mem_addSection (hw : outline.WellFormed) (ha : outline.HasAnchor sectionName placement)
    {s : String × Entries} (hs : s ∈ addSection outline sectionName) (hn : foldName s.1 = foldName sectionName)
    (name data : String) : hasName (putValue s.2 name data placement) name = true := by
  have hentries : s.2 = entriesOf outline sectionName := by
    rw [← entriesOf_addSection outline sectionName, entriesOf_of_mem (nodup_addSection hw.nodup sectionName) hs hn]
  rw [hentries, hasName_putValue (nodup_entriesOf hw sectionName) ((hasAnchor_iff hw.nodup).1 ha)]
  simp

/-- A section that has no entries after an edit was there before. -/
theorem mem_of_mem_edit (hw : outline.WellFormed) (ha : outline.HasAnchor sectionName placement)
    {s : String × Entries} (hs : s ∈ edit outline sectionName name data placement) (hnil : s.2 = []) :
    s ∈ outline := by
  obtain ⟨old, hold, rfl⟩ := List.mem_map.1 hs
  by_cases hn : foldName old.1 = foldName sectionName
  · have hknown := hasName_of_mem_addSection hw ha hold hn name data
    rw [if_pos hn] at hnil
    rw [show putValue old.2 name data placement = [] from hnil] at hknown
    cases hknown
  · rw [if_neg hn]
    unfold addSection at hold
    split at hold
    · exact hold
    · rcases List.mem_append.1 hold with hold | hold
      · exact hold
      · rw [List.mem_singleton.1 hold] at hn
        exact absurd rfl hn

/-- The edit done twice is the edit done once. -/
theorem edit_edit (hw : outline.WellFormed) (ha : outline.HasAnchor sectionName placement) (name data : String) :
    edit (edit outline sectionName name data placement) sectionName name data placement =
      edit outline sectionName name data placement := by
  have hsection : hasName (edit outline sectionName name data placement) sectionName = true := by
    rw [hasName_eq_any, map_fst_edit, ← map_fst_addSection, ← hasName_eq_any]
    exact hasName_addSection outline sectionName
  -- The second time the section is found, and in it the name with the value.
  rw [edit, addSection, if_pos hsection, edit, List.map_map]
  apply List.map_congr_left
  intro s hs
  rw [Function.comp_apply]
  by_cases hn : foldName s.1 = foldName sectionName
  · have hknown := hasName_of_mem_addSection hw ha hs hn name data
    rw [if_pos hn, if_pos hn, putValue_same hknown fun entry he => eq_of_mem_putValue he]
  · rw [if_neg hn, if_neg hn]

end Outline

/-! ## The edit of a document -/

/-- An insertion into a section of a ledger gives a known name its value, and puts a new entry in its place. -/
theorem Ledger.Section.map_entries_insert {s t : Ledger.Section} {id : KeyId} {anchor : Option KeyId}
    {insertion : Insertion} {name data : String} (h : s.insert anchor insertion name data = .ok (id, t)) :
    let pairs (entries : List Ledger.Entry) : Entries := entries.map fun entry => (entry.name, entry.data)
    pairs t.entries = if Outline.hasName (pairs s.entries) name then Outline.setValue (pairs s.entries) name data
      else pairs (Ledger.place ⟨id, name, data⟩ s.entries insertion anchor) := by
  intro pairs
  have hpairs : Outline.hasName (pairs s.entries) name = s.entries.any fun entry =>
      foldName entry.name == foldName name := List.any_map
  unfold Ledger.Section.insert at h
  split_ifs at h
  split at h
  · next known hfind =>
    cases h
    have hknown : Outline.hasName (pairs s.entries) name = true := by
      rw [hpairs, List.any_eq_true]
      exact ⟨known, List.mem_of_find?_eq_some hfind, by simpa using List.find?_some hfind⟩
    rw [if_pos hknown, Outline.setValue, if_pos hknown]
    simp only [pairs, List.map_map]
    apply List.map_congr_left
    intro entry _
    rw [Function.comp_apply, Function.comp_apply]
    split <;> rfl
  · next hfind =>
    cases h
    have hnew : Outline.hasName (pairs s.entries) name = false := by
      rw [hpairs, List.any_eq_false]
      simpa using hfind
    rw [hnew]
    rfl

namespace Section

variable {s : Section} {name data : String} {placement : Placement} {anchor : Option KeyId} {entry : Ledger.Entry}

/-- The handle found under a name is that of the entry with the name. -/
theorem WellFormed.id_eq_iff (hs : s.WellFormed) {id : KeyId} (hf : s.find? name = some id)
    (he : entry ∈ s.ledger.entries) : entry.id = id ↔ foldName entry.name = foldName name := by
  obtain ⟨i, hi, rfl⟩ := Option.map_eq_some_iff.1 hf
  have hkey := (mem_entries_ledger hs).1 he
  unfold key? at hkey
  split at hkey
  · next hown =>
    have hindex : entry.id = s.keyId i ↔ entry.id.index = i := by
      constructor
      · intro h
        rw [h]
        rfl
      · rintro rfl
        rw [keyId, ← hown]
    have hname := hs.keys.find?_eq_some_iff name entry.id.index
    rw [hkey, hi] at hname
    rw [hindex, eq_comm]
    simpa using hname
  · cases hkey

/-- The handle of a placement's anchor, if it has one, can be told if the anchor is there. -/
theorem exists_anchor_iff (s : Section) (placement : Placement) :
    (∃ anchor : Option KeyId, placement.anchor?.map s.find? = anchor.map some) ↔
      ∀ name ∈ placement.anchor?, (s.find? name).isSome := by
  cases placement.anchor? with
  | none =>
    constructor
    · rintro - name ⟨⟩
    · intro _
      exact ⟨none, rfl⟩
  | some name =>
    constructor
    · rintro ⟨anchor, ha⟩ _ ⟨⟩
      cases anchor with
      | none => cases ha
      | some id =>
        rw [Option.some.inj ha]
        rfl
    · intro h
      obtain ⟨id, hf⟩ := Option.isSome_iff_exists.1 (h name rfl)
      exact ⟨some id, congrArg some hf⟩

/-- What the insertion does to a ledger's list the placement does to the names and values. -/
theorem WellFormed.map_place (hs : s.WellFormed) (ha : placement.anchor?.map s.find? = anchor.map some)
    (new : Ledger.Entry) :
    (Ledger.place new s.ledger.entries placement.insertion anchor).map (fun entry => (entry.name, entry.data)) =
      Outline.placeEntry (new.name, new.data) s.entries placement := by
  have hnext : ∀ {name : String} {id : KeyId} (f : Ledger.Entry → List Ledger.Entry)
      (g : String × String → Entries), s.find? name = some id →
      (∀ entry, (f entry).map (fun entry => (entry.name, entry.data)) = g (entry.name, entry.data)) →
      (s.ledger.entries.flatMap fun entry => if entry.id = id then f entry else [entry]).map
          (fun entry => (entry.name, entry.data)) =
        s.entries.flatMap fun entry => if foldName entry.1 = foldName name then g entry else [entry] := by
    intro name id f g hf hfg
    rw [← map_entries_ledger, List.map_flatMap, List.flatMap_map]
    apply List.flatMap_congr
    intro entry he
    simp only [hs.id_eq_iff hf he]
    split
    · exact hfg entry
    · rfl
  cases placement with
  | first =>
    rw [← map_entries_ledger]
    rfl
  | last =>
    rw [← map_entries_ledger]
    exact List.map_append
  | before name =>
    cases anchor with
    | none => cases ha
    | some id => exact hnext (fun entry => [new, entry]) _ (Option.some.inj ha) fun _ => rfl
  | after name =>
    cases anchor with
    | none => cases ha
    | some id => exact hnext (fun entry => [entry, new]) _ (Option.some.inj ha) fun _ => rfl

/-- A name and a value can be put next to every anchor that is there. -/
theorem WellFormed.exists_insert (hs : s.WellFormed) (ha : placement.anchor?.map s.find? = anchor.map some)
    (hn : name ≠ "") (hd : data ≠ "") : ∃ id changed,
      s.insert anchor placement.insertion name data = .ok (id, changed) ∧
        changed.entries = Outline.putValue s.entries name data placement := by
  have hown : ¬∃ id ∈ anchor, s.key? id = none := by
    rw [hs.foreign_iff]
    rintro ⟨id, hid, hforeign⟩
    rw [Option.mem_def] at hid
    obtain ⟨name, -, hf⟩ := Option.map_eq_some_iff.1 (ha.trans (congrArg (Option.map some) hid))
    obtain ⟨i, hi, rfl⟩ := Option.map_eq_some_iff.1 hf
    obtain ⟨entry, hentry, hentryId⟩ := hs.find?_ledger_eq_some hi
    exact hforeign entry (List.mem_of_find?_eq_some hentry) hentryId
  have hledger := hs.ledger_insert anchor placement.insertion name data
  cases hr : s.insert anchor placement.insertion name data with
  | error e =>
    rcases (hs.insert_eq_error_iff anchor placement.insertion name data).1 ⟨e, hr⟩ with h | h | h
    · exact absurd h hn
    · exact absurd h hd
    · exact absurd h hown
  | ok r =>
    refine ⟨r.1, r.2, rfl, ?_⟩
    rw [hr] at hledger
    have hentries := Ledger.Section.map_entries_insert hledger.symm
    simp only [map_entries_ledger] at hentries
    rw [hentries, Outline.putValue, hs.map_place ha]

end Section

namespace Document

variable {d d₁ d' : Document} {file sectionName name data : String} {placement : Placement} {id : SectionId}
  {s : Section} {anchor : Option KeyId}

theorem setValue_of_anchor (hadd : d.addSection sectionName = .ok (id, d₁)) (hs : d₁.section? id = some s)
    (ha : placement.anchor?.map s.find? = anchor.map some) (file name data : String) :
    d.setValue file sectionName name data placement =
      ((s.insert anchor placement.insertion name data).mapError .edit).map fun r => d₁.putSection r.2 := by
  rw [setValue, hadd]
  simp only [Except.mapError, bind, Except.bind, hs]
  cases hp : placement.anchor? with
  | none =>
    rw [hp] at ha
    cases anchor with
    | none =>
      simp only [pure, Except.pure]
      cases s.insert none placement.insertion name data <;> rfl
    | some id => cases ha
  | some anchorName =>
    rw [hp] at ha
    cases anchor with
    | none => cases ha
    | some id =>
      have hf : s.find? anchorName = some id := Option.some.inj ha
      simp only [hf, pure, Except.pure]
      cases s.insert (some id) placement.insertion name data <;> rfl

theorem setValue_of_noAnchor (hadd : d.addSection sectionName = .ok (id, d₁)) (hs : d₁.section? id = some s)
    {anchorName : String} (hp : placement.anchor? = some anchorName) (hf : s.find? anchorName = none)
    (file name data : String) :
    d.setValue file sectionName name data placement = .error (.noAnchor anchorName sectionName) := by
  rw [setValue, hadd]
  simp only [Except.mapError, bind, Except.bind, hs, hp, hf]

/-- The section that a value is set in: it has the entries that the document has under the name. -/
theorem WellFormed.exists_target (hd : d.WellFormed) (hne : sectionName ≠ "") : ∃ id d₁ s,
    d.addSection sectionName = .ok (id, d₁) ∧ d₁.WellFormed ∧
      d₁.contents = Outline.addSection d.contents sectionName ∧ d₁.section? id = some s ∧ s.WellFormed ∧
        foldName s.name = foldName sectionName ∧
          ∀ name, (s.find? name).isSome = Outline.hasName (Outline.entriesOf d.contents sectionName) name := by
  obtain ⟨id, d₁, hadd, hw, hc, s, hs, hname⟩ := exists_addSection hd hne
  have hws := hw.of_section? hs
  have hmem : (s.name, s.entries) ∈ d₁.contents := by
    refine List.mem_map_of_mem (f := fun s : Section => (s.name, s.entries)) ((mem_toList_iff hw).2 ?_)
    rwa [id_of_section? hw hs]
  refine ⟨id, d₁, s, hadd, hw, hc, hs, hws, hname, ?_⟩
  intro name
  rw [← Outline.entriesOf_addSection d.contents sectionName, ← hc,
    Outline.entriesOf_of_mem (wellFormed_contents hw).nodup hmem hname, Section.hasName_entries hws]
  exact Option.isSome_map

/-- A document takes the edit where it can, and says then what the edit says. -/
theorem WellFormed.exists_setValue (hd : d.WellFormed) (h : Outline.Takes d.contents sectionName name data placement)
    (file : String) : ∃ d', d.setValue file sectionName name data placement = .ok d' ∧ d'.WellFormed ∧
      d'.contents = Outline.edit d.contents sectionName name data placement := by
  obtain ⟨id, d₁, s, hadd, hw, hc, hs, hws, hname, hfind⟩ := hd.exists_target h.section_ne
  have hanchor := (Outline.hasAnchor_iff (wellFormed_contents hd).nodup).1 h.anchor
  simp only [← hfind] at hanchor
  obtain ⟨anchor, ha⟩ := (s.exists_anchor_iff placement).2 hanchor
  obtain ⟨key, changed, hinsert, hentries⟩ := hws.exists_insert ha h.name_ne h.data_ne
  have hid := Section.id_insert hinsert
  have hsame := Section.name_insert hinsert
  refine ⟨d₁.putSection changed, ?_, wellFormed_putSection hw hs hid hsame (hws.insert hinsert), ?_⟩
  · rw [setValue_of_anchor hadd hs ha, hinsert]
    rfl
  · rw [contents_putSection (f := (Outline.putValue · name data placement)) hw hs hid hsame hentries, hc, hname]
    rfl

/-- A document takes no other edit. -/
theorem WellFormed.takes_of_setValue (hd : d.WellFormed)
    (h : d.setValue file sectionName name data placement = .ok d') :
    Outline.Takes d.contents sectionName name data placement := by
  by_cases hne : sectionName = ""
  · subst hne
    cases h
  obtain ⟨id, d₁, s, hadd, hw, hc, hs, hws, hname, hfind⟩ := hd.exists_target hne
  have hanchor : ∀ anchorName ∈ placement.anchor?, (s.find? anchorName).isSome := by
    intro anchorName hp
    rw [Option.isSome_iff_ne_none]
    intro hk
    rw [setValue_of_noAnchor hadd hs hp hk] at h
    cases h
  obtain ⟨anchor, ha⟩ := (s.exists_anchor_iff placement).2 hanchor
  rw [setValue_of_anchor hadd hs ha] at h
  cases hinsert : s.insert anchor placement.insertion name data with
  | error e =>
    rw [hinsert] at h
    cases h
  | ok r =>
    obtain ⟨hn, hdata, -⟩ := Section.insert_cases hinsert
    simp only [hfind] at hanchor
    exact ⟨hne, hn, hdata, (Outline.hasAnchor_iff (wellFormed_contents hd).nodup).2 hanchor⟩

end Document

end IniDoc
