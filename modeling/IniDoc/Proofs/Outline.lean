import IniDoc.Document.Scan

/-!
# Outlines

An outline is a document as plain lists: section names in order, each with its names and values in order. The
operations on it search the lists from the front and know neither numbers nor links.

* `Outline.addSection`, `Outline.setEntry`: what a header and an entry do to an outline.
* `Draft.add`: what an item of a text does to an outline, the section that entries go to, and the counts.
* `Outline.Every`: a property of all names and values, which a draft keeps as long as the items have it.
-/

namespace IniDoc

open Text (Item byteCount foldName)

/-- The names and values of a section in order. -/
abbrev Entries := List (String × String)

/-- What a document says: the sections in order. -/
abbrev Outline := List (String × Entries)

/-- Where exactly one value has a property, a search from the front finds it. -/
theorem find?_eq_some_of_unique {β : Type} {l : List β} {p : β → Bool} {a : β} (ha : a ∈ l) (hp : p a = true)
    (hu : ∀ b ∈ l, p b = true → b = a) : l.find? p = some a := by
  cases hf : l.find? p with
  | none => exact absurd hp (List.find?_eq_none.1 hf a ha)
  | some b => rw [hu b (List.mem_of_find?_eq_some hf) (List.find?_some hf)]

namespace Outline

/-- Whether one of the pairs has the name, whatever its case. -/
def hasName {β : Type} (pairs : List (String × β)) (name : String) : Bool :=
  pairs.any fun pair => foldName pair.1 == foldName name

/-- Gives a name its value: in its place and under its old spelling, or behind all others. -/
def setValue (entries : Entries) (name data : String) : Entries :=
  if hasName entries name then
    entries.map fun entry => if foldName entry.1 = foldName name then (entry.1, data) else entry
  else entries ++ [(name, data)]

/-- Adds a section behind all others, unless there is one with the name. -/
def addSection (outline : Outline) (name : String) : Outline :=
  if hasName outline name then outline else outline ++ [(name, [])]

/-- Gives a name its value in one section. -/
def setEntry (outline : Outline) (sectionName name data : String) : Outline :=
  outline.map fun s => if foldName s.1 = foldName sectionName then (s.1, setValue s.2 name data) else s

theorem hasName_eq_false_iff {β : Type} {pairs : List (String × β)} {name : String} :
    hasName pairs name = false ↔ ∀ pair ∈ pairs, foldName pair.1 ≠ foldName name := by
  simp [hasName]

/-- A property of the section names, the names of entries and the values. -/
def Every (ofSection ofName ofValue : String → Prop) (outline : Outline) : Prop :=
  ∀ s ∈ outline, ofSection s.1 ∧ ∀ entry ∈ s.2, ofName entry.1 ∧ ofValue entry.2

instance (ofSection ofName ofValue : String → Prop) [DecidablePred ofSection] [DecidablePred ofName]
    [DecidablePred ofValue] (outline : Outline) : Decidable (outline.Every ofSection ofName ofValue) :=
  inferInstanceAs (Decidable (∀ s ∈ outline, ofSection s.1 ∧ ∀ entry ∈ s.2, ofName entry.1 ∧ ofValue entry.2))

/-- The outlines that documents have: names are pairwise different, whatever their case, and nothing is empty. -/
structure WellFormed (outline : Outline) : Prop where
  nodup : (outline.map fun s => foldName s.1).Nodup
  each : ∀ s ∈ outline, s.1 ≠ "" ∧ (s.2.map fun entry => foldName entry.1).Nodup ∧
    ∀ entry ∈ s.2, entry.1 ≠ "" ∧ entry.2 ≠ ""

theorem WellFormed.tail {s : String × Entries} {outline : Outline} (h : WellFormed (s :: outline)) :
    outline.WellFormed := by
  constructor
  · exact (List.nodup_cons.1 h.nodup).2
  · intro t ht
    exact h.each t (List.mem_cons_of_mem s ht)

variable {ofSection ofName ofValue : String → Prop} {outline : Outline}

theorem Every.imp {ofSection' ofName' ofValue' : String → Prop} (h : outline.Every ofSection ofName ofValue)
    (hs : ∀ name, ofSection name → ofSection' name) (hn : ∀ name, ofName name → ofName' name)
    (hv : ∀ data, ofValue data → ofValue' data) : outline.Every ofSection' ofName' ofValue' := by
  intro s hm
  obtain ⟨hsection, hentries⟩ := h s hm
  constructor
  · exact hs _ hsection
  · intro entry he
    obtain ⟨hname, hvalue⟩ := hentries entry he
    exact ⟨hn _ hname, hv _ hvalue⟩

theorem every_addSection (h : outline.Every ofSection ofName ofValue) {name : String} (hn : ofSection name) :
    (addSection outline name).Every ofSection ofName ofValue := by
  unfold addSection
  split
  · exact h
  · intro s hs
    rcases List.mem_append.1 hs with hs | hs
    · exact h s hs
    · obtain rfl := List.mem_singleton.1 hs
      exact ⟨hn, by simp⟩

theorem mem_setValue {entries : Entries} {name data : String} {entry : String × String}
    (h : entry ∈ setValue entries name data) :
    entry = (name, data) ∨ entry ∈ entries ∨ entry.2 = data ∧ ∃ old ∈ entries, old.1 = entry.1 := by
  unfold setValue at h
  split at h
  · obtain ⟨old, hold, rfl⟩ := List.mem_map.1 h
    split
    · exact .inr (.inr ⟨rfl, old, hold, rfl⟩)
    · exact .inr (.inl hold)
  · rcases List.mem_append.1 h with h | h
    · exact .inr (.inl h)
    · exact .inl (List.mem_singleton.1 h)

theorem every_setEntry (h : outline.Every ofSection ofName ofValue) {sectionName name data : String}
    (hn : ofName name) (hd : ofValue data) :
    (setEntry outline sectionName name data).Every ofSection ofName ofValue := by
  intro s hs
  obtain ⟨old, hold, rfl⟩ := List.mem_map.1 hs
  split
  · constructor
    · exact (h old hold).1
    · intro entry he
      rcases mem_setValue he with rfl | he | ⟨rfl, old', hold', he⟩
      · exact ⟨hn, hd⟩
      · exact (h old hold).2 entry he
      · exact ⟨he ▸ ((h old hold).2 old' hold').1, hd⟩
  · exact h old hold

end Outline

/-! ## Drafts -/

/-- The state of a scan as a reader of the document sees it: the section that entries go to is known by its name. -/
structure Draft where
  outline : Outline
  current : Option String
  summary : Summary

namespace Draft

/-- The state before the first item. -/
def start (outline : Outline) : Draft := ⟨outline, none, ⟨0, 0, 0, 0⟩⟩

/-- Counts something dropped. -/
def skip (q : Draft) : Draft := { q with summary := { q.summary with skipped := q.summary.skipped + 1 } }

/-- Makes the section with a name the current one. -/
def addHeader (q : Draft) (name : String) : Draft :=
  if name = "" then { q with current := none }.skip
  else ⟨q.outline.addSection name, some name, { q.summary with sections := q.summary.sections + 1 }⟩

/-- Adds an entry to the current section. -/
def addEntry (q : Draft) (name data : String) : Draft :=
  match q.current with
  | none => q.skip
  | some sectionName =>
    if name = "" ∨ data = "" then q.skip
    else { q with
      outline := q.outline.setEntry sectionName name data
      summary := { q.summary with keys := q.summary.keys + 1 } }

/-- Does what an item says. -/
def add (q : Draft) : Item → Draft
  | .header name => q.addHeader name
  | .namelessHeader => { q with current := none }.skip
  | .outside | .comment => q
  | .noEquals => q.skip
  | .entry name data => q.addEntry name data
  | .unclosed tail => { q.skip with summary := { q.skip.summary with abandoned := byteCount tail } }

/-- Does what all items say. -/
def addAll (q : Draft) (items : List Item) : Draft := items.foldl add q

@[simp] theorem addAll_nil (q : Draft) : q.addAll [] = q := rfl

@[simp] theorem addAll_cons (q : Draft) (item : Item) (items : List Item) :
    q.addAll (item :: items) = (q.add item).addAll items := rfl

@[simp] theorem addAll_append (q : Draft) (items rest : List Item) :
    q.addAll (items ++ rest) = (q.addAll items).addAll rest := List.foldl_append

end Draft

/-! ## What items bring into a draft -/

/-- A property of the names and the value that an item brings. -/
def Text.Item.Every (ofSection ofName ofValue : String → Prop) : Item → Prop
  | .header name => ofSection name
  | .entry name data => ofName name ∧ ofValue data
  | _ => True

theorem Text.Item.Every.imp {ofSection ofName ofValue ofSection' ofName' ofValue' : String → Prop} {item : Item}
    (h : item.Every ofSection ofName ofValue) (hs : ∀ name, ofSection name → ofSection' name)
    (hn : ∀ name, ofName name → ofName' name) (hv : ∀ data, ofValue data → ofValue' data) :
    item.Every ofSection' ofName' ofValue' := by
  cases item with
  | header name => exact hs _ h
  | entry name data => exact ⟨hn _ h.1, hv _ h.2⟩
  | _ => trivial

namespace Draft

variable {ofSection ofName ofValue : String → Prop} {q : Draft}

theorem every_add (h : q.outline.Every ofSection ofName ofValue) {item : Item}
    (hi : item.Every ofSection ofName ofValue) : (q.add item).outline.Every ofSection ofName ofValue := by
  cases item with
  | header name =>
    simp only [add, addHeader]
    split
    · exact h
    · exact Outline.every_addSection h hi
  | entry name data =>
    simp only [add, addEntry]
    split
    · exact h
    · split
      · exact h
      · exact Outline.every_setEntry h hi.1 hi.2
  | _ => exact h

/-- A draft says nothing but what it said before and what the items bring. -/
theorem every_addAll (h : q.outline.Every ofSection ofName ofValue) {items : List Item}
    (hi : ∀ item ∈ items, item.Every ofSection ofName ofValue) :
    (q.addAll items).outline.Every ofSection ofName ofValue := by
  induction items generalizing q with
  | nil => exact h
  | cons item items ih =>
    rw [List.forall_mem_cons] at hi
    exact ih (every_add h hi.1) hi.2

end Draft

end IniDoc
