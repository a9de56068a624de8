import IniDoc.Proofs.OutlineValues
import IniDoc.Proofs.Rendering

/-!
# Scanning into a document

A scan into a document is a merge: the text makes a document of its own first, and what that one says is added to the
other section by section and entry by entry. Names keep the place and the spelling they had first, and values are the
last ones written.

* `Draft.names_addAll`, `Draft.entriesOf_addAll`: the names and entries behind a run of items.
* `Document.merge`: adding an outline to a document through its handles.
* `Document.names_scanChars`, `Document.entriesOf_scanChars`: the same behind a scan.
* `Document.scan_eq_merge`: a scan is the merge of what a scan into an empty document leaves.
-/

namespace IniDoc

open Text (Item foldName)

/-! ## Items -/

namespace Text.Item

/-- The name of a header that makes sense. -/
def headerName? : Item → Option String
  | .header name => if name = "" then none else some name
  | _ => none

/-- The entries that items bring into the section with a name, which the first of them may be inside of. -/
def entriesIn (sectionName : String) (inside : Bool) : List Item → Entries
  | [] => []
  | .header name :: items => entriesIn sectionName (name ≠ "" && foldName name == foldName sectionName) items
  | .namelessHeader :: items => entriesIn sectionName false items
  | .entry name data :: items =>
    if inside ∧ name ≠ "" ∧ data ≠ "" then (name, data) :: entriesIn sectionName inside items
    else entriesIn sectionName inside items
  | _ :: items => entriesIn sectionName inside items

end Text.Item

namespace Draft

variable {q q' : Draft} {items : List Item}

/-- Headers add their names; nothing else does. -/
theorem names_addAll (q : Draft) (items : List Item) : (q.addAll items).outline.map Prod.fst =
    Outline.addNames (q.outline.map Prod.fst) (items.filterMap Item.headerName?) := by
  induction items generalizing q with
  | nil => rfl
  | cons item items ih =>
    rw [addAll_cons, ih]
    cases item with
    | header name =>
      by_cases hn : name = ""
      · simp [add, addHeader, hn, Item.headerName?, skip]
      · simp only [add, addHeader, if_neg hn, Outline.map_fst_addSection, Item.headerName?, List.filterMap_cons]
        rfl
    | entry name data =>
      simp only [add, addEntry, List.filterMap_cons, Item.headerName?]
      split
      · rfl
      · split
        · rfl
        · rw [Outline.map_fst_setEntry]
    | _ => rfl

/-- Entries are written into the section that is the current one. -/
theorem entriesOf_addAll (hq : ∀ name ∈ q.current, Outline.hasName q.outline name = true) (items : List Item)
    (sectionName : String) : (q.addAll items).outline.entriesOf sectionName =
      Outline.setAll (q.outline.entriesOf sectionName)
        (Item.entriesIn sectionName (q.current.any (foldName · == foldName sectionName)) items) := by
  induction items generalizing q with
  | nil => rfl
  | cons item items ih =>
    rw [addAll_cons]
    cases item with
    | header name =>
      by_cases hn : name = ""
      · rw [add, addHeader, if_pos hn, ih (by simp [skip])]
        simp [skip, Item.entriesIn, hn]
      · rw [add, addHeader, if_neg hn, ih (by simpa using Outline.hasName_addSection _ _)]
        simp [Item.entriesIn, hn, Outline.entriesOf_addSection]
    | namelessHeader =>
      rw [add, ih (by simp [skip])]
      rfl
    | entry name data =>
      cases hc : q.current with
      | none =>
        simp only [add, addEntry, hc, Item.entriesIn]
        rw [ih (by simp [skip, hc])]
        simp [skip, hc]
      | some current =>
        -- The current section is there, so that the entry is written and does not get lost.
        have hcurrent := hq current hc
        by_cases hnd : name = "" ∨ data = ""
        · rw [add, addEntry, hc]
          simp only [if_pos hnd]
          rw [ih (by simpa [skip, hc] using hcurrent), Item.entriesIn, if_neg (by tauto)]
          simp [skip, hc]
        · have hkept : Outline.hasName (q.outline.setEntry current name data) current = true := by
            rw [Outline.hasName_eq_any, Outline.map_fst_setEntry, ← Outline.hasName_eq_any, hcurrent]
          rw [add, addEntry, hc]
          simp only [if_neg hnd]
          rw [ih (by simpa [hc] using hkept), Outline.entriesOf_setEntry hcurrent]
          simp only [Option.any_some, Item.entriesIn]
          obtain ⟨hn, hd⟩ := not_or.1 hnd
          by_cases hs : foldName current = foldName sectionName
          · rw [if_pos hs, if_pos ⟨by simpa using hs, hn, hd⟩]
            rfl
          · rw [if_neg hs, if_neg (by simp [hs])]
    | outside => exact ih hq
    | comment => exact ih hq
    | noEquals => exact ih hq
    | unclosed tail => exact ih hq

/-- What is current and what is counted does not depend on what is there. -/
theorem addAll_congr (hc : q.current = q'.current) (hs : q.summary = q'.summary) (items : List Item) :
    (q.addAll items).current = (q'.addAll items).current ∧ (q.addAll items).summary = (q'.addAll items).summary := by
  induction items generalizing q q' with
  | nil => exact ⟨hc, hs⟩
  | cons item items ih =>
    rw [addAll_cons, addAll_cons]
    suffices h : (q.add item).current = (q'.add item).current ∧ (q.add item).summary = (q'.add item).summary from
      ih h.1 h.2
    cases item with
    | header name =>
      simp only [add, addHeader, skip, hs]
      split <;> exact ⟨rfl, rfl⟩
    | entry name data =>
      simp only [add, addEntry, skip, hs, ← hc]
      cases q.current with
      | none => exact ⟨rfl, rfl⟩
      | some current => by_cases hnd : name = "" ∨ data = "" <;> simp [hnd]
    | namelessHeader => exact ⟨rfl, by simp [add, skip, hs]⟩
    | outside => exact ⟨hc, hs⟩
    | comment => exact ⟨hc, hs⟩
    | noEquals => exact ⟨hc, by simp [add, skip, hs]⟩
    | unclosed tail => exact ⟨hc, by simp [add, skip, hs]⟩

end Draft

/-! ## What an outline is read as -/

namespace Outline

variable {outline : Outline}

theorem filterMap_headerName?_items (h : outline.WellFormed) :
    (items outline).filterMap Item.headerName? = outline.map Prod.fst := by
  induction outline with
  | nil => rfl
  | cons s outline ih =>
    obtain ⟨hs, -⟩ := h.each s List.mem_cons_self
    have hentries : (s.2.map fun entry => Item.entry entry.1 entry.2).filterMap Item.headerName? = [] := by
      rw [List.filterMap_eq_nil_iff]
      intro item hi
      obtain ⟨entry, -, rfl⟩ := List.mem_map.1 hi
      rfl
    rw [items, List.flatMap_cons, List.filterMap_append, ← items, ih h.tail, List.filterMap_cons, hentries,
      Item.headerName?, if_neg hs]
    rfl

theorem entriesIn_entries {entries : Entries} (h : ∀ entry ∈ entries, entry.1 ≠ "" ∧ entry.2 ≠ "") (name : String)
    (inside : Bool) (rest : List Item) :
    Item.entriesIn name inside (entries.map (fun entry => .entry entry.1 entry.2) ++ rest) =
      (if inside then entries else []) ++ Item.entriesIn name inside rest := by
  induction entries with
  | nil => simp
  | cons entry entries ih =>
    rw [List.forall_mem_cons] at h
    rw [List.map_cons, List.cons_append, Item.entriesIn, ih h.2]
    cases inside <;> simp [h.1]

theorem entriesIn_items (h : outline.WellFormed) (name : String) (inside : Bool) :
    Item.entriesIn name inside (items outline) = entriesOf outline name := by
  induction outline generalizing inside with
  | nil => rfl
  | cons s outline ih =>
    obtain ⟨hs, -, hentries⟩ := h.each s List.mem_cons_self
    rw [items, List.flatMap_cons, ← items, List.cons_append, Item.entriesIn, entriesIn_entries hentries, ih h.tail]
    by_cases hn : foldName s.1 = foldName name
    · have hnew : entriesOf outline name = [] := by
        have hnodup := (List.nodup_cons.1 h.nodup).1
        rw [entriesOf, List.find?_eq_none.2]
        · rfl
        · intro t ht htn
          exact hnodup (List.mem_map.2 ⟨t, ht, (of_decide_eq_true htn).trans hn.symm⟩)
      rw [hnew, entriesOf_of_mem h.nodup List.mem_cons_self hn]
      simp [hs, hn]
    · simp [entriesOf, hn]

end Outline

/-! ## Documents -/

namespace Document

/-- Adds a section, and entries through its handle. -/
def addSectionWith (d : Document) (name : String) (entries : Entries) : Document :=
  match d.addSection name with
  | .ok (id, d) => entries.foldl (fun d entry => d.orKeep (d.updateSection id (·.add entry.1 entry.2))) d
  | .error _ => d

/-- Adds sections with their entries, one after the other. -/
def merge (d : Document) (outline : Outline) : Document :=
  outline.foldl (fun d s => d.addSectionWith s.1 s.2) d

end Document

namespace Progress

theorem addEntry_eq (p : Progress) (name data : String) :
    (p.addEntry name data).current = p.current ∧ (p.addEntry name data).document =
      p.document.orKeep (p.current.bind fun id => p.document.updateSection id (·.add name data)) := by
  unfold addEntry
  rcases p.current.bind fun id => p.document.updateSection id (·.add name data) with _ | (_ | _) <;> exact ⟨rfl, rfl⟩

theorem document_addEntries (p : Progress) (entries : Entries) :
    (p.addAll (entries.map fun entry => .entry entry.1 entry.2)).document =
      entries.foldl (fun d entry => d.orKeep (p.current.bind fun id => d.updateSection id (·.add entry.1 entry.2)))
        p.document := by
  induction entries generalizing p with
  | nil => rfl
  | cons entry entries ih =>
    obtain ⟨hcurrent, hdocument⟩ := p.addEntry_eq entry.1 entry.2
    show ((p.addEntry entry.1 entry.2).addAll _).document = _
    rw [ih, hcurrent, hdocument]
    rfl

/-- Adding the items of a section is adding it with its entries. -/
theorem document_addSection (p : Progress) (s : String × Entries) :
    (p.addAll (.header s.1 :: s.2.map fun entry => .entry entry.1 entry.2)).document =
      p.document.addSectionWith s.1 s.2 := by
  show ((p.addHeader s.1).addAll _).document = _
  rw [document_addEntries, addHeader, Document.addSectionWith]
  cases p.document.addSection s.1 with
  | ok r => rfl
  | error cause =>
    show s.2.foldl (fun d _ => d) p.document = p.document
    exact List.foldl_fixed _

/-- Adding the items of an outline is adding its sections with their entries. -/
theorem document_addAll_items (p : Progress) (outline : Outline) :
    (p.addAll outline.items).document = p.document.merge outline := by
  induction outline generalizing p with
  | nil => rfl
  | cons s outline ih =>
    rw [Outline.items, List.flatMap_cons, ← Outline.items, addAll_append, ih, document_addSection]
    rfl

end Progress

namespace Document

variable {d : Document}

/-- What has been added shows in the outline as the items of what was added do. -/
theorem contents_merge (hd : d.WellFormed) (outline : Outline) :
    (d.merge outline).contents = ((Draft.start d.contents).addAll outline.items).outline := by
  rw [← ((Progress.Shows.start hd).addAll outline.items).outline, Progress.document_addAll_items]
  rfl

theorem wellFormed_merge (hd : d.WellFormed) (outline : Outline) : (d.merge outline).WellFormed := by
  have hw := ((Progress.Shows.start hd).addAll outline.items).wellFormed
  rwa [Progress.document_addAll_items] at hw

theorem result_scanChars (hd : d.WellFormed) {d' : Document} (hd' : d'.WellFormed) (options : Options)
    (text : List Char) : (d.scanChars options text).2 = (d'.scanChars options text).2 := by
  have hcurrent : (Draft.start d.contents).current = (Draft.start d'.contents).current := rfl
  have hsummary := (Draft.addAll_congr hcurrent rfl (Item.all options.quotes text)).2
  rw [← ((Progress.Shows.start hd).addAll _).summary, ← ((Progress.Shows.start hd').addAll _).summary] at hsummary
  rw [scanChars, scanChars, hsummary]

/-- A scan adds the names of the headers behind the names that are there. -/
theorem names_scanChars (hd : d.WellFormed) (options : Options) (text : List Char) :
    (d.scanChars options text).1.contents.map Prod.fst =
      Outline.addNames (d.contents.map Prod.fst) ((Item.all options.quotes text).filterMap Item.headerName?) := by
  rw [contents_scanChars hd]
  exact Draft.names_addAll _ _

/-- A scan writes the entries of the text into each section. -/
theorem entriesOf_scanChars (hd : d.WellFormed) (options : Options) (text : List Char) (sectionName : String) :
    Outline.entriesOf (d.scanChars options text).1.contents sectionName =
      Outline.setAll (Outline.entriesOf d.contents sectionName)
        (Item.entriesIn sectionName false (Item.all options.quotes text)) := by
  rw [contents_scanChars hd]
  exact Draft.entriesOf_addAll (by simp [Draft.start]) _ sectionName

theorem names_merge (hd : d.WellFormed) {outline : Outline} (h : outline.WellFormed) :
    (d.merge outline).contents.map Prod.fst = Outline.addNames (d.contents.map Prod.fst) (outline.map Prod.fst) := by
  rw [contents_merge hd, ← Outline.filterMap_headerName?_items h]
  exact Draft.names_addAll _ _

theorem entriesOf_merge (hd : d.WellFormed) {outline : Outline} (h : outline.WellFormed) (sectionName : String) :
    Outline.entriesOf (d.merge outline).contents sectionName =
      Outline.setAll (Outline.entriesOf d.contents sectionName) (outline.entriesOf sectionName) := by
  rw [contents_merge hd, ← Outline.entriesIn_items h sectionName false]
  exact Draft.entriesOf_addAll (by simp [Draft.start]) _ sectionName

/-- A scan does to a document what merging does that leaves of an empty document. -/
theorem contents_scanChars_eq_merge (hd : d.WellFormed) (id : Nat) (options : Options) (text : List Char) :
    (d.scanChars options text).1.contents = (d.merge ((empty id).scanChars options text).1.contents).contents := by
  have hempty : (empty id).WellFormed := wellFormed_empty id
  have hparsed := wellFormed_contents (wellFormed_scanChars hempty options text)
  apply Outline.ext_entriesOf
  · exact (wellFormed_contents (wellFormed_scanChars hd options text)).nodup
  · exact (wellFormed_contents (wellFormed_merge hd _)).nodup
  · rw [names_scanChars hd, names_merge hd hparsed, names_scanChars hempty]
    exact (Outline.addNames_spellings _ _).symm
  · intro sectionName
    rw [entriesOf_scanChars hd, entriesOf_merge hd hparsed, entriesOf_scanChars hempty]
    exact (Outline.setAll_setAll (Outline.nodup_entriesOf (wellFormed_contents hd) sectionName) _).symm

/-- A scan into a document, however that was made, is the merge of what the text makes of an empty document, and its
result is the same. So names keep the place and the spelling of their first appearance, in the document or else in the
text, and every value is the last one written. -/
theorem scan_eq_merge (id id' : Nat) (edits : List Edit) (options : Options) (text : String) :
    let d := (empty id).run edits
    let scanned := d.scan options text
    let parsed := (empty id').scan options text
    let items := Item.all options.quotes text.toList
    scanned.2 = parsed.2 ∧
      scanned.1.contents = (d.merge parsed.1.contents).contents ∧
      scanned.1.contents.map Prod.fst =
        Outline.spellings (d.contents.map Prod.fst ++ items.filterMap Item.headerName?) ∧
      ∀ sectionName,
        let before := Outline.entriesOf d.contents sectionName
        let written := Item.entriesIn sectionName false items
        let after := Outline.entriesOf scanned.1.contents sectionName
        after.map Prod.fst = Outline.spellings ((before ++ written).map Prod.fst) ∧
          ∀ name, Outline.lastValue after name = Outline.lastValue (before ++ written) name := by
  intro d scanned parsed items
  have hd : d.WellFormed := wellFormed_run (wellFormed_empty id) edits
  have hw : Outline.WellFormed d.contents := wellFormed_contents hd
  refine ⟨result_scanChars hd (wellFormed_empty id') options text.toList,
    contents_scanChars_eq_merge hd id' options text.toList, ?_, ?_⟩
  · have hnodup : ((d.contents.map Prod.fst).map foldName).Nodup := by
      rw [List.map_map]
      exact hw.nodup
    rw [Outline.spellings_append hnodup]
    exact names_scanChars hd options text.toList
  · intro sectionName before written after
    have hafter : after = Outline.setAll before written := entriesOf_scanChars hd options text.toList sectionName
    have hnodup : ((before.map Prod.fst).map foldName).Nodup := by
      rw [List.map_map]
      exact Outline.nodup_entriesOf hw sectionName
    rw [hafter]
    constructor
    · rw [Outline.map_fst_setAll, List.map_append, Outline.spellings_append hnodup]
    · exact Outline.lastValue_setAll before written

end Document

end IniDoc
