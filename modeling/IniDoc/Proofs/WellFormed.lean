import IniDoc.Document.Scan
import IniDoc.Proofs.ChainNames
import IniDoc.Proofs.Outline

/-!
# Well-formed documents

Every document that the operations can build is well formed, and on well-formed documents the operations do to the
outline what they say.

* `Document.WellFormed`: chains whose names are their values' names, no empty names or values, sections that know
  their handles.
* `Document.run`, `Document.wellFormed_run`: any sequence of edits and scans keeps this.
* `Document.exists_addSection`, `Document.contents_putSection`: the outline after an edit.
* `Progress.Shows.addAll`: a scan does to a document what a draft does to its outline.
-/

namespace IniDoc

open Text (foldName Item)

/-! ## Sections -/

/-- The keys are found by their names, and neither names nor values are empty. -/
structure Section.WellFormed (s : Section) : Prop where
  keys : s.keys.WellFormed Key.name
  nonempty : ∀ key ∈ s.keys.toList, key.name ≠ "" ∧ key.data ≠ ""

namespace Section

variable {s changed : Section} {name data : String} {anchor : Option KeyId} {insertion : Insertion} {id : KeyId}

/-- What a successful insertion does to the keys: a known key is changed, a new one is put in. -/
theorem insert_cases (h : s.insert anchor insertion name data = .ok (id, changed)) :
    name ≠ "" ∧ data ≠ "" ∧
      ((∃ i, s.keys.find? name = some i ∧ id = s.keyId i ∧
          changed = { s with keys := s.keys.modify i ({ · with data }) }) ∨
        (s.keys.find? name = none ∧ s.keys.hasAnchor (place insertion anchor) = true ∧ id = s.keyId s.keys.size ∧
          changed = { s with keys := s.keys.put name ⟨name, data⟩ (place insertion anchor) })) := by
  unfold insert at h
  split at h
  · cases h
  · next hn =>
    split at h
    · cases h
    · next hd =>
      refine ⟨by simpa using hn, by simpa using hd, ?_⟩
      split at h
      · cases h
      · split at h
        · next i hf =>
          cases h
          exact .inl ⟨i, hf, rfl, rfl⟩
        · next hf =>
          unfold Chain.insert at h
          split at h
          · next i keys hi =>
            cases h
            split at hi
            · next ha =>
              cases hi
              exact .inr ⟨hf, ha, rfl, rfl⟩
            · cases hi
          · cases h

theorem WellFormed.insert (hs : s.WellFormed) (h : s.insert anchor insertion name data = .ok (id, changed)) :
    changed.WellFormed := by
  obtain ⟨hn, hd, ⟨i, hf, -, rfl⟩ | ⟨hf, ha, -, rfl⟩⟩ := insert_cases h
  · obtain ⟨key, hk, -⟩ := (hs.keys.find?_eq_some_iff name i).1 hf
    let update : Key → Key := ({ · with data })
    have hkeys : (s.keys.modify i update).WellFormed Key.name := hs.keys.modify i fun _ _ => rfl
    constructor
    · exact hkeys
    · intro key' hk'
      rw [show _ = _ from hs.keys.toList_modify hk update] at hk'
      obtain ⟨old, hold, rfl⟩ := List.mem_map.1 hk'
      split
      · exact ⟨(hs.nonempty old hold).1, hd⟩
      · exact hs.nonempty old hold
  · obtain ⟨pre, post, hl, hp⟩ := hs.keys.linked.exists_between ha
    let key : Key := ⟨name, data⟩
    have hkeys : (s.keys.put key.name key (place insertion anchor)).WellFormed Key.name := hs.keys.put ha hf
    have hlist : s.keys.toList = pre.filterMap s.keys.get? ++ post.filterMap s.keys.get? := by
      rw [hs.keys.linked.toList_eq, hl, List.filterMap_append]
    have hlink : s.keys.Linked (pre ++ post) := hl ▸ hs.keys.linked
    constructor
    · exact hkeys
    · intro key' hk'
      rw [show _ = _ from Chain.toList_put hlink hp name key] at hk'
      rcases List.mem_append.1 hk' with hk' | hk'
      · exact hs.nonempty key' (hlist ▸ List.mem_append_left _ hk')
      · rcases List.mem_cons.1 hk' with rfl | hk'
        · exact ⟨hn, hd⟩
        · exact hs.nonempty key' (hlist ▸ List.mem_append_right _ hk')

theorem id_insert (h : s.insert anchor insertion name data = .ok (id, changed)) : changed.id = s.id := by
  obtain ⟨-, -, ⟨i, -, -, rfl⟩ | ⟨-, -, -, rfl⟩⟩ := insert_cases h <;> rfl

theorem name_insert (h : s.insert anchor insertion name data = .ok (id, changed)) : changed.name = s.name := by
  obtain ⟨-, -, ⟨i, -, -, rfl⟩ | ⟨-, -, -, rfl⟩⟩ := insert_cases h <;> rfl

theorem hasName_entries (hs : s.WellFormed) (name : String) :
    Outline.hasName s.entries name = (s.keys.find? name).isSome := by
  cases hf : s.keys.find? name with
  | none =>
    apply Outline.hasName_eq_false_iff.2
    intro entry he
    obtain ⟨key, hk, rfl⟩ := List.mem_map.1 he
    exact (hs.keys.find?_eq_none_iff name).1 hf key hk
  | some i =>
    obtain ⟨key, hk, hn⟩ := (hs.keys.find?_eq_some_iff name i).1 hf
    have hm : (key.name, key.data) ∈ s.entries :=
      List.mem_map_of_mem (f := fun key : Key => (key.name, key.data)) (hs.keys.linked.mem_toList.2 ⟨i, hk⟩)
    exact List.any_eq_true.2 ⟨_, hm, by simpa using hn⟩

/-- The names of the entries are pairwise different, whatever their case. -/
theorem WellFormed.nodup_entries (hs : s.WellFormed) : (s.entries.map fun entry => foldName entry.1).Nodup := by
  rw [entries, List.map_map]
  exact hs.keys.nodup_names

/-- An entry with a name and a value can always be added. -/
theorem WellFormed.exists_add (hs : s.WellFormed) (hn : name ≠ "") (hd : data ≠ "") :
    ∃ id changed, s.add name data = .ok (id, changed) ∧ changed.entries = Outline.setValue s.entries name data := by
  have hf := hasName_entries hs name
  unfold Section.add Section.insert
  rw [if_neg (by simpa using hn), if_neg (by simpa using hd), if_neg (by simp)]
  cases hi : s.keys.find? name with
  | some i =>
    obtain ⟨key, hk, hkn⟩ := (hs.keys.find?_eq_some_iff name i).1 hi
    refine ⟨_, _, rfl, ?_⟩
    rw [Outline.setValue, hf, hi]
    simp only [entries, Option.isSome_some, if_true]
    rw [hs.keys.toList_modify hk, List.map_map, List.map_map]
    apply List.map_congr_left
    intro old _
    rw [Function.comp_apply, Function.comp_apply, hkn]
    split <;> rfl
  | none =>
    refine ⟨_, _, rfl, ?_⟩
    rw [Outline.setValue, hf, hi]
    simp only [entries, Option.isSome_none, Bool.false_eq_true, if_false]
    rw [show place .last none = .back from rfl, Chain.toList_put_back hs.keys.linked, List.map_append]
    rfl

theorem add_eq_error (s : Section) (h : name = "" ∨ data = "") : ∃ e, s.add name data = .error e := by
  unfold add insert
  rcases h with rfl | rfl
  · exact ⟨_, if_pos rfl⟩
  · split
    · exact ⟨_, rfl⟩
    · exact ⟨_, if_pos rfl⟩

end Section

/-! ## Documents -/

/-- The sections are found by their names, and each is well formed and knows its own handle. -/
structure Document.WellFormed (d : Document) : Prop where
  sections : d.sections.WellFormed Section.name
  each : ∀ i s, d.sections.get? i = some s → s.id = d.sectionId i ∧ s.name ≠ "" ∧ s.WellFormed

namespace Document

variable {d : Document} {id : SectionId} {s changed : Section}

theorem section?_eq_some_iff :
    d.section? id = some s ↔ id = d.sectionId id.index ∧ d.sections.get? id.index = some s := by
  obtain ⟨document, index⟩ := id
  simp [section?, sectionId]

theorem section?_sectionId (d : Document) (i : Nat) : d.section? (d.sectionId i) = d.sections.get? i := by
  simp [section?, sectionId]

theorem id_of_section? (hd : d.WellFormed) (hs : d.section? id = some s) : s.id = id := by
  obtain ⟨hid, hg⟩ := section?_eq_some_iff.1 hs
  rw [(hd.each _ s hg).1, ← hid]

/-- The sections that handles stand for are well formed. -/
theorem WellFormed.of_section? (hd : d.WellFormed) (hs : d.section? id = some s) : s.WellFormed :=
  (hd.each _ s (section?_eq_some_iff.1 hs).2).2.2

theorem wellFormed_empty (i : Nat) : (empty i).WellFormed := by
  constructor
  · exact Chain.wellFormed_empty _
  · intro j s h
    simp [empty, Chain.empty, Chain.get?] at h

theorem wellFormed_putSection (hd : d.WellFormed) (hs : d.section? id = some s) (hid : changed.id = s.id)
    (hname : changed.name = s.name) (hc : changed.WellFormed) : (d.putSection changed).WellFormed := by
  obtain ⟨-, hg⟩ := section?_eq_some_iff.1 hs
  have hi : changed.id.index = id.index := by rw [hid, id_of_section? hd hs]
  have hsections : (d.sections.modify id.index fun _ => changed).WellFormed Section.name := by
    apply hd.sections.modify
    intro t ht
    rw [hname, Option.some.inj (hg.symm.trans ht)]
  unfold putSection
  rw [hi]
  constructor
  · exact hsections
  · intro j t ht
    obtain ⟨hold, hne, -⟩ := hd.each _ s hg
    simp only [Chain.get?_modify] at ht
    split at ht
    · next hj =>
      rw [hj, hg] at ht
      cases ht
      exact ⟨by rw [hid, hj]; exact hold, by rw [hname]; exact hne, hc⟩
    · exact hd.each j t ht

/-- The handle of a changed section stands for it. -/
theorem section?_putSection (hd : d.WellFormed) (hs : d.section? id = some s) (hid : changed.id = s.id) :
    (d.putSection changed).section? id = some changed := by
  obtain ⟨hdoc, hg⟩ := section?_eq_some_iff.1 hs
  have hi : changed.id.index = id.index := by rw [hid, id_of_section? hd hs]
  refine section?_eq_some_iff.2 ⟨hdoc, ?_⟩
  show (d.sections.modify changed.id.index fun _ => changed).get? id.index = some changed
  rw [hi, Chain.get?_modify, if_pos rfl, hg]
  rfl

/-- A changed section shows in its own place only. -/
theorem contents_putSection (hd : d.WellFormed) (hs : d.section? id = some s) (hid : changed.id = s.id)
    (hname : changed.name = s.name) {f : Entries → Entries} (he : changed.entries = f s.entries) :
    (d.putSection changed).contents =
      d.contents.map fun t => if foldName t.1 = foldName s.name then (t.1, f t.2) else t := by
  obtain ⟨-, hg⟩ := section?_eq_some_iff.1 hs
  have hi : changed.id.index = id.index := by rw [hid, id_of_section? hd hs]
  simp only [contents, putSection]
  rw [hi, hd.sections.toList_modify hg, List.map_map, List.map_map]
  apply List.map_congr_left
  intro t ht
  rw [Function.comp_apply, Function.comp_apply]
  by_cases hn : foldName t.name = foldName s.name
  · obtain ⟨j, hj⟩ := hd.sections.linked.mem_toList.1 ht
    obtain rfl := hd.sections.eq_of_foldName_eq hj hg hn
    obtain rfl : t = s := Option.some.inj (hj.symm.trans hg)
    simp [hname, he]
  · rw [if_neg hn, if_neg hn]

theorem updateSection_cases {β : Type} {edit : Section → Except Error (β × Section)} {b : β} {d' : Document}
    (h : d.updateSection id edit = some (.ok (b, d'))) :
    ∃ s changed, d.section? id = some s ∧ edit s = .ok (b, changed) ∧ d' = d.putSection changed := by
  obtain ⟨s, hs, he⟩ := Option.map_eq_some_iff.1 h
  cases hr : edit s with
  | error e =>
    rw [hr] at he
    cases he
  | ok r =>
    rw [hr] at he
    cases he
    exact ⟨s, r.2, hs, hr, rfl⟩

theorem hasName_contents (hd : d.WellFormed) (name : String) :
    Outline.hasName d.contents name = (d.sections.find? name).isSome := by
  cases hf : d.sections.find? name with
  | none =>
    apply Outline.hasName_eq_false_iff.2
    intro t ht
    obtain ⟨s, hs, rfl⟩ := List.mem_map.1 ht
    exact (hd.sections.find?_eq_none_iff name).1 hf s hs
  | some i =>
    obtain ⟨s, hs, hn⟩ := (hd.sections.find?_eq_some_iff name i).1 hf
    have hm : (s.name, s.entries) ∈ d.contents :=
      List.mem_map_of_mem (f := fun s : Section => (s.name, s.entries)) (hd.sections.linked.mem_toList.2 ⟨i, hs⟩)
    exact List.any_eq_true.2 ⟨_, hm, by simpa using hn⟩

/-- A named section is found or added behind all others, and its handle stands for it. -/
theorem exists_addSection (hd : d.WellFormed) {name : String} (hn : name ≠ "") :
    ∃ id d', d.addSection name = .ok (id, d') ∧ d'.WellFormed ∧ d'.contents = Outline.addSection d.contents name ∧
      ∃ s, d'.section? id = some s ∧ foldName s.name = foldName name := by
  have hf := hasName_contents hd name
  unfold addSection
  rw [if_neg (by simpa using hn)]
  cases hi : d.sections.find? name with
  | some i =>
    obtain ⟨s, hs, hsn⟩ := (hd.sections.find?_eq_some_iff name i).1 hi
    refine ⟨_, _, rfl, hd, ?_, s, (section?_sectionId d i).trans hs, hsn⟩
    rw [Outline.addSection, hf, hi]
    rfl
  | none =>
    let s : Section := ⟨d.sectionId d.size, name, .empty⟩
    have hsections : (d.sections.put s.name s .back).WellFormed Section.name := hd.sections.put rfl hi
    refine ⟨_, _, rfl, ⟨hsections, ?_⟩, ?_, s, ?_, rfl⟩
    · intro j t ht
      rw [show _ = _ from Chain.get?_put d.sections s.name s .back j] at ht
      split at ht
      · next hj =>
        cases ht
        exact ⟨by rw [hj]; rfl, hn, Chain.wellFormed_empty _, by simp [s, Chain.toList, Chain.empty, Chain.order,
          Chain.follow, Chain.size]⟩
      · exact hd.each j t ht
    · rw [Outline.addSection, hf, hi]
      show (d.sections.put s.name s .back).toList.map _ = _
      rw [Chain.toList_put_back hd.sections.linked, List.map_append]
      rfl
    · rw [section?_eq_some_iff]
      refine ⟨rfl, ?_⟩
      exact (Chain.get?_put d.sections s.name s .back d.sections.size).trans (if_pos rfl)

theorem wellFormed_contents (hd : d.WellFormed) : Outline.WellFormed d.contents := by
  constructor
  · rw [contents, List.map_map]
    exact hd.sections.nodup_names
  · intro t ht
    obtain ⟨s, hs, rfl⟩ := List.mem_map.1 ht
    obtain ⟨i, hi⟩ := hd.sections.linked.mem_toList.1 hs
    obtain ⟨-, hn, hw⟩ := hd.each i s hi
    refine ⟨hn, hw.nodup_entries, ?_⟩
    intro entry he
    obtain ⟨key, hk, rfl⟩ := List.mem_map.1 he
    exact hw.nonempty key hk

theorem wellFormed_addSection (hd : d.WellFormed) {name : String} {d' : Document}
    (h : d.addSection name = .ok (id, d')) : d'.WellFormed := by
  by_cases hn : name = ""
  · subst hn
    cases h
  · obtain ⟨id, d'', ha, hw, -⟩ := exists_addSection hd hn
    cases ha.symm.trans h
    exact hw

theorem wellFormed_insert (hd : d.WellFormed) {anchor : Option KeyId} {insertion : Insertion} {name data : String}
    {key : KeyId} {d' : Document}
    (h : d.updateSection id (·.insert anchor insertion name data) = some (.ok (key, d'))) : d'.WellFormed := by
  obtain ⟨s, changed, hs, he, rfl⟩ := updateSection_cases h
  exact wellFormed_putSection hd hs (Section.id_insert he) (Section.name_insert he) ((hd.of_section? hs).insert he)

end Document

/-! ## Scans -/

namespace Progress

/-- An entry without a name or without a value is dropped. -/
theorem addEntry_eq_skip (p : Progress) {name data : String} (h : name = "" ∨ data = "") :
    p.addEntry name data = p.skip := by
  unfold addEntry
  split
  · next r d hb =>
    obtain ⟨id, -, hu⟩ := Option.bind_eq_some_iff.1 hb
    obtain ⟨s, changed, -, he, -⟩ := Document.updateSection_cases hu
    obtain ⟨e, hee⟩ := s.add_eq_error h
    rw [hee] at he
    cases he
  · rfl

/-- The state of a scan shows a draft: the outlines and the counts are the same, and so is the current section. -/
structure Shows (p : Progress) (q : Draft) : Prop where
  wellFormed : p.document.WellFormed
  outline : p.document.contents = q.outline
  summary : p.summary = q.summary
  current : (p.current = none ∧ q.current = none) ∨ ∃ id name s, p.current = some id ∧ q.current = some name ∧
    p.document.section? id = some s ∧ foldName s.name = foldName name

theorem Shows.start {d : Document} (hd : d.WellFormed) : (start d).Shows (Draft.start d.contents) :=
  ⟨hd, rfl, rfl, .inl ⟨rfl, rfl⟩⟩

variable {p : Progress} {q : Draft}

theorem Shows.skip (h : p.Shows q) : p.skip.Shows q.skip :=
  ⟨h.wellFormed, h.outline, by simp [Progress.skip, Draft.skip, h.summary], h.current⟩

theorem Shows.clear (h : p.Shows q) : { p with current := none }.Shows { q with current := none } :=
  ⟨h.wellFormed, h.outline, h.summary, .inl ⟨rfl, rfl⟩⟩

theorem Shows.addHeader (h : p.Shows q) (name : String) : (p.addHeader name).Shows (q.addHeader name) := by
  unfold Progress.addHeader Draft.addHeader
  by_cases hn : name = ""
  · rw [if_pos hn, show p.document.addSection name = .error _ from if_pos (by simpa using hn)]
    exact h.clear.skip
  · obtain ⟨id, d', ha, hw, hc, s, hs, hsn⟩ := Document.exists_addSection h.wellFormed hn
    rw [if_neg hn, ha]
    exact ⟨hw, by rw [hc, h.outline], by simp [h.summary], .inr ⟨id, name, s, rfl, rfl, hs, hsn⟩⟩

theorem Shows.addEntry (h : p.Shows q) (name data : String) : (p.addEntry name data).Shows (q.addEntry name data) := by
  unfold Progress.addEntry Draft.addEntry
  rcases h.current with ⟨hp, hq⟩ | ⟨id, sectionName, s, hp, hq, hs, hsn⟩
  · rw [hp, hq]
    exact h.skip
  · rw [hp, hq]
    simp only [Option.bind_some, Document.updateSection, hs, Option.map_some]
    by_cases hnd : name = "" ∨ data = ""
    · obtain ⟨e, he⟩ := s.add_eq_error hnd
      rw [if_pos hnd, he]
      exact h.skip
    · obtain ⟨hn, hd⟩ := not_or.1 hnd
      have hsw := h.wellFormed.of_section? hs
      obtain ⟨key, changed, ha, he⟩ := hsw.exists_add hn hd
      have hid := Section.id_insert ha
      have hname := Section.name_insert ha
      have hput := Document.section?_putSection h.wellFormed hs hid
      rw [if_neg hnd, ha]
      refine ⟨?_, ?_, ?_, .inr ⟨id, sectionName, changed, rfl, rfl, hput, by rw [hname, hsn]⟩⟩
      · exact Document.wellFormed_putSection h.wellFormed hs hid hname (hsw.insert ha)
      · show (p.document.putSection changed).contents = q.outline.setEntry sectionName name data
        rw [Document.contents_putSection h.wellFormed hs hid hname (f := (Outline.setValue · name data)) he,
          h.outline, hsn]
        rfl
      · show { p.summary with keys := p.summary.keys + 1 } = _
        rw [h.summary]

theorem addAll_append (p : Progress) (items rest : List Item) :
    p.addAll (items ++ rest) = (p.addAll items).addAll rest := List.foldl_append

/-- An item does to a document what it does to a draft. -/
theorem Shows.add (h : p.Shows q) (item : Item) : (p.add item).Shows (q.add item) := by
  cases item with
  | header name => exact h.addHeader name
  | namelessHeader => exact h.clear.skip
  | outside => exact h
  | comment => exact h
  | noEquals => exact h.skip
  | entry name data => exact h.addEntry name data
  | unclosed tail =>
    have hs := h.skip
    exact ⟨hs.wellFormed, hs.outline, by simp [Progress.add, Draft.add, hs.summary], hs.current⟩

/-- A scan does to a document what it does to a draft. -/
theorem Shows.addAll (h : p.Shows q) (items : List Item) : (p.addAll items).Shows (q.addAll items) := by
  induction items generalizing p q with
  | nil => exact h
  | cons item items ih => exact ih (h.add item)

end Progress

namespace Document

variable {d : Document}

/-- What a scan leaves in a document is what a draft leaves in its outline, and so are the counts. -/
theorem contents_scanChars (hd : d.WellFormed) (options : Options) (text : List Char) :
    (d.scanChars options text).1.contents =
      ((Draft.start d.contents).addAll (Item.all options.quotes text)).outline :=
  ((Progress.Shows.start hd).addAll _).outline

theorem wellFormed_scanChars (hd : d.WellFormed) (options : Options) (text : List Char) :
    (d.scanChars options text).1.WellFormed :=
  ((Progress.Shows.start hd).addAll _).wellFormed

/-! ## Runs of edits -/

/-- One change of a document. The handles may be those of other documents; then nothing changes. -/
inductive Edit where
  | addSection (name : String)
  | addKey (owner : SectionId) (name data : String)
  | insertKey (owner : SectionId) (anchor : Option KeyId) (insertion : Insertion) (name data : String)
  | scan (options : Options) (text : String)
  deriving Repr, DecidableEq

/-- The document after a change that may be refused. -/
def orKeep {β : Type} (d : Document) : Option (Except Error (β × Document)) → Document
  | some (.ok (_, changed)) => changed
  | _ => d

/-- The document after an edit. -/
def apply (d : Document) : Edit → Document
  | .addSection name => d.orKeep (some (d.addSection name))
  | .addKey owner name data => d.orKeep (d.updateSection owner (·.add name data))
  | .insertKey owner anchor insertion name data =>
    d.orKeep (d.updateSection owner (·.insert anchor insertion name data))
  | .scan options text => (d.scan options text).1

/-- The document after a run of edits. -/
def run (d : Document) (edits : List Edit) : Document := edits.foldl apply d

theorem wellFormed_orKeep {β : Type} (hd : d.WellFormed) {r : Option (Except Error (β × Document))}
    (h : ∀ b d', r = some (.ok (b, d')) → d'.WellFormed) : (d.orKeep r).WellFormed := by
  unfold orKeep
  split
  · exact h _ _ rfl
  · exact hd

theorem wellFormed_apply (hd : d.WellFormed) (edit : Edit) : (d.apply edit).WellFormed := by
  cases edit with
  | addSection name =>
    apply wellFormed_orKeep hd
    intro id d' h
    exact wellFormed_addSection hd (Option.some.inj h)
  | addKey owner name data =>
    apply wellFormed_orKeep hd
    intro id d' h
    exact wellFormed_insert hd h
  | insertKey owner anchor insertion name data =>
    apply wellFormed_orKeep hd
    intro id d' h
    exact wellFormed_insert hd h
  | scan options text => exact wellFormed_scanChars hd options text.toList

/-- Every run of edits keeps a document well formed. -/
theorem wellFormed_run (hd : d.WellFormed) (edits : List Edit) : (d.run edits).WellFormed := by
  induction edits generalizing d with
  | nil => exact hd
  | cons edit edits ih => exact ih (wellFormed_apply hd edit)

end Document

end IniDoc
