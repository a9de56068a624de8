import IniDoc.Proofs.Encodings
import IniDoc.Proofs.Rendering

/-!
# Writing a document and reading it back

Exactly the canonical documents come back from their own bytes. Canonical is what reading can bring: names and values
that look as they must, made of characters that the encoding keeps.

* `Outline.Canonical`: what a document says is canonical.
* `Document.contents_ofText_text`: the text of a readable outline is read as this outline.
* `Document.toBytes_ofBytes_iff`: a document comes back from its bytes if and only if it is canonical.
-/

namespace IniDoc

open Text

namespace Outline

variable {outline : Outline} {encoding : Encoding} {quotes : Bool}

/-! ## Canonical outlines -/

/-- Names and values look as they must, and the encoding keeps them. -/
def Canonical (encoding : Encoding) (quotes : Bool) (outline : Outline) : Prop :=
  outline.Readable quotes ∧
    outline.Every (encoding.Keeps ·.toList) (encoding.Keeps ·.toList) (encoding.Keeps ·.toList)

instance (encoding : Encoding) (quotes : Bool) (outline : Outline) : Decidable (outline.Canonical encoding quotes) :=
  inferInstanceAs (Decidable (_ ∧ outline.Every _ _ _))

theorem mem_entryLine {entry : String × String} {c : Char} :
    c ∈ entryLine entry ↔ c ∈ entry.1.toList ∨ c = '=' ∨ c ∈ entry.2.toList ∨ c ∈ returnFeed := by
  simp [entryLine]

theorem mem_headerLine {name : String} {c : Char} :
    c ∈ headerLine name ↔ c = '[' ∨ c ∈ name.toList ∨ c = ']' ∨ c ∈ returnFeed := by
  simp [headerLine]

/-- The characters of a text stand in its sections or in the empty lines between them. -/
theorem mem_text {c : Char} (h : c ∈ text outline) : (∃ s ∈ outline, c ∈ sectionText s) ∨ c ∈ returnFeed := by
  induction outline with
  | nil => simp [text] at h
  | cons s outline ih =>
    obtain ⟨gap, hgap, htext⟩ := exists_text_cons s outline
    rw [htext, List.mem_append, List.mem_append] at h
    rcases h with h | h | h
    · exact .inl ⟨s, List.mem_cons_self, h⟩
    · rcases hgap with rfl | rfl
      · cases h
      · exact .inr h
    · rcases ih h with ⟨t, ht, hc⟩ | hc
      · exact .inl ⟨t, List.mem_cons_of_mem s ht, hc⟩
      · exact .inr hc

theorem sectionText_subset {s : String × Entries} (hs : s ∈ outline) : sectionText s ⊆ text outline := by
  induction outline with
  | nil => cases hs
  | cons t outline ih =>
    obtain ⟨gap, -, htext⟩ := exists_text_cons t outline
    rw [htext]
    rcases List.mem_cons.1 hs with rfl | hs
    · exact List.subset_append_left _ _
    · exact List.subset_append_of_subset_right _ (List.subset_append_of_subset_right _ (ih hs))

/-- All characters of names and values stand in the text. -/
theorem every_subset_text (outline : Outline) :
    outline.Every (·.toList ⊆ text outline) (·.toList ⊆ text outline) (·.toList ⊆ text outline) := by
  intro s hs
  constructor
  · intro c hc
    exact sectionText_subset hs (List.mem_append_left _ (mem_headerLine.2 (.inr (.inl hc))))
  · intro entry he
    have hline : entryLine entry ⊆ text outline := by
      intro c hc
      exact sectionText_subset hs (List.mem_append_right _ (List.mem_flatMap.2 ⟨entry, he, hc⟩))
    constructor
    · intro c hc
      exact hline (mem_entryLine.2 (.inl hc))
    · intro c hc
      exact hline (mem_entryLine.2 (.inr (.inr (.inl hc))))

/-- What the encoding keeps of names and values it keeps of the whole text. -/
theorem keeps_text (h : outline.Every (encoding.Keeps ·.toList) (encoding.Keeps ·.toList) (encoding.Keeps ·.toList)) :
    encoding.Keeps (text outline) := by
  have hascii : ∀ c ∈ marks, c ≠ '\x00' ∧ c.toNat < 256 := by simp [marks, returnFeed]
  have hmark : ∀ c ∈ marks, c ≠ '\x00' ∧ (encoding = .latin1 → c.toNat < 256) := by
    intro c hc
    exact ⟨(hascii c hc).1, fun _ => (hascii c hc).2⟩
  intro c hc
  rcases mem_text hc with ⟨s, hs, hc⟩ | hc
  · obtain ⟨hname, hentries⟩ := h s hs
    rcases List.mem_append.1 hc with hc | hc
    · rcases mem_headerLine.1 hc with rfl | hc | rfl | hc
      · exact hmark _ (by decide)
      · exact hname c hc
      · exact hmark _ (by decide)
      · exact hmark c (by simp [marks, hc])
    · obtain ⟨entry, he, hc⟩ := List.mem_flatMap.1 hc
      rcases mem_entryLine.1 hc with hc | rfl | hc | hc
      · exact (hentries entry he).1 c hc
      · exact hmark _ (by decide)
      · exact (hentries entry he).2 c hc
      · exact hmark c (by simp [marks, hc])
  · exact hmark c (by simp [marks, hc])

end Outline

/-! ## What a scan brings -/

namespace Document

variable {options : Options} {text : List Char} {encoding : Encoding}

/-- The document that a text makes, up to a quote that is never closed. -/
def ofText (id : Nat) (options : Options) (text : List Char) : Document := ((empty id).scanChars options text).1

theorem wellFormed_ofText (id : Nat) (options : Options) (text : List Char) : (ofText id options text).WellFormed :=
  wellFormed_scanChars (wellFormed_empty id) options text

theorem contents_ofText (id : Nat) (options : Options) (text : List Char) :
    (ofText id options text).contents = ((Draft.start []).addAll (Item.all options.quotes text)).outline :=
  contents_scanChars (wellFormed_empty id) options text

/-- A text makes a document of what its items bring. -/
theorem every_ofText {ofSection ofName ofValue : String → Prop} (id : Nat)
    (h : ∀ item ∈ Item.all options.quotes text, item.Every ofSection ofName ofValue) :
    Outline.Every ofSection ofName ofValue (ofText id options text).contents := by
  rw [contents_ofText]
  exact Draft.every_addAll (by simp [Draft.start, Outline.Every]) h

theorem keeps_ofText (id : Nat) (options : Options) (h : encoding.Keeps text) :
    Outline.Every (encoding.Keeps ·.toList) (encoding.Keeps ·.toList) (encoding.Keeps ·.toList)
      (ofText id options text).contents := by
  have hkeeps : ∀ value : String, value.toList ⊆ text → encoding.Keeps value.toList := by
    intro value hs c hc
    exact h c (hs hc)
  exact (every_ofText id (Item.every_subset_of_mem_allFrom _ _ _)).imp hkeeps hkeeps hkeeps

/-- What a text without opening quotes makes is canonical, provided that the encoding keeps the text. -/
theorem canonical_ofText (id : Nat) (h : options.quotes = true → QuoteFree text) (hk : encoding.Keeps text) :
    Outline.Canonical encoding options.quotes (ofText id options text).contents :=
  ⟨every_ofText id (Item.every_of_quoteFree h), keeps_ofText id options hk⟩

/-- No quote opens in the text of a document that a text has made, even if values were in quotes there. -/
theorem quoteFree_text_ofText (id : Nat) (options : Options) (text : List Char) :
    options.quotes = true → QuoteFree (Outline.text (ofText id options text).contents) := by
  intro hq
  apply Outline.quoteFree_text
  refine (every_ofText id (Item.every_of_mem_allFrom _ _ _)).imp (fun _ h => h) (fun _ h => h) ?_
  rintro value (hplain | ⟨-, hquoted⟩)
  · exact .inl (hq ▸ hplain)
  · exact .inr hquoted

/-- A scan succeeds where no quote is left open. -/
theorem scanChars_of_closed (d : Document) (h : (Item.all options.quotes text).findSome? Item.unclosed? = none) :
    ∃ s, (d.scanChars options text).2 = .ok s := by
  refine ⟨((Progress.start d).addAll (Item.all options.quotes text)).summary, ?_⟩
  simp only [scanChars, h]
  cases options.strict <;> rfl

theorem scanChars_of_quoteFree (d : Document) (h : options.quotes = true → QuoteFree text) :
    ∃ s, (d.scanChars options text).2 = .ok s := by
  refine scanChars_of_closed d ?_
  rw [Item.all, Item.allFrom_of_quoteFree h]
  exact Item.findSome?_unclosed?_eq_none false text

theorem quoteFree_of_readable {outline : Outline} {quotes : Bool} (h : outline.Readable quotes) :
    quotes = true → QuoteFree outline.text := by
  intro hq
  apply Outline.quoteFree_text
  exact h.imp (fun _ h => h) (fun _ h => h) fun _ h => .inl (hq ▸ h)

/-- The text of a readable outline is read as this outline. -/
theorem contents_ofText_text (id : Nat) {outline : Outline} (h : outline.WellFormed)
    (hr : outline.Readable options.quotes) : (ofText id options outline.text).contents = outline := by
  rw [contents_ofText, Item.all, Outline.allFrom_text h hr false]
  exact Draft.outline_addAll_items (Draft.start []) rfl h

/-! ## Bytes -/

variable {bytes : Bytes} {d d' : Document}

/-- Reading bytes is scanning the characters that they stand for. -/
theorem ofBytes_eq (id : Nat) (options : Options) (bytes : Bytes) :
    ofBytes id options bytes = ((empty id).scanChars options (options.encoding.decodeChars bytes)).2.map
      fun _ => ofText id options (options.encoding.decodeChars bytes) := by
  simp [ofBytes, parse, scan, Encoding.decode, ofText]

theorem ofBytes_append_zero (id : Nat) (options : Options) (bytes rest : Bytes) :
    ofBytes id options (bytes ++ 0 :: rest) = ofBytes id options bytes := by
  rw [ofBytes_eq, ofBytes_eq, Encoding.decodeChars_append_zero]

theorem ofBytes_nil (id : Nat) (options : Options) : ofBytes id options [] = .ok (empty id) := by
  have hnone : Item.all options.quotes (options.encoding.decodeChars []) = [] := by
    cases options.encoding <;> exact Item.allFrom_of_next_none (Item.next_nil rfl)
  rw [ofBytes_eq, ofText, scanChars, hnone]
  cases options.strict <;> rfl

theorem ofBytes_of_quoteFree (id : Nat) (h : options.quotes = true → QuoteFree (options.encoding.decodeChars bytes)) :
    ofBytes id options bytes = .ok (ofText id options (options.encoding.decodeChars bytes)) := by
  obtain ⟨s, hs⟩ := scanChars_of_quoteFree (empty id) h
  rw [ofBytes_eq, hs]
  rfl

theorem eq_of_ofBytes {id : Nat} (h : ofBytes id options bytes = .ok d) :
    ofText id options (options.encoding.decodeChars bytes) = d := by
  rw [ofBytes_eq] at h
  cases hr : ((empty id).scanChars options (options.encoding.decodeChars bytes)).2 with
  | error e =>
    rw [hr] at h
    cases h
  | ok s =>
    rw [hr] at h
    exact Except.ok.inj h

/-- The bytes of a document whose names and values the encoding keeps stand for its text. -/
theorem exists_toBytes (h : Outline.Every (encoding.Keeps ·.toList) (encoding.Keeps ·.toList)
    (encoding.Keeps ·.toList) d.contents) :
    ∃ bytes, d.toBytes encoding = .ok bytes ∧ encoding.decodeChars bytes = Outline.text d.contents := by
  have hkeeps : encoding.Keeps d.text.toList := by
    rw [toList_text]
    exact Outline.keeps_text h
  obtain ⟨bytes, he, hd⟩ := Encoding.exists_encode hkeeps
  exact ⟨bytes, he, hd.trans d.toList_text⟩

theorem toBytes_congr (h : d.contents = d'.contents) (encoding : Encoding) :
    d.toBytes encoding = d'.toBytes encoding := by
  have htext : d.text = d'.text := by rw [← String.toList_inj, toList_text, toList_text, h]
  rw [toBytes, toBytes, htext]

/-- A canonical document comes back from its bytes. -/
theorem exists_ofBytes_of_canonical (hd : d.WellFormed) (id : Nat)
    (h : Outline.Canonical options.encoding options.quotes d.contents) :
    ∃ bytes d', d.toBytes options.encoding = .ok bytes ∧ ofBytes id options bytes = .ok d' ∧
      d'.contents = d.contents := by
  obtain ⟨hr, hk⟩ := h
  obtain ⟨bytes, hb, hchars⟩ := exists_toBytes hk
  have hfree := quoteFree_of_readable hr
  rw [← hchars] at hfree
  refine ⟨bytes, _, hb, ofBytes_of_quoteFree id hfree, ?_⟩
  rw [hchars]
  exact contents_ofText_text id (wellFormed_contents hd) hr

/-- A document, however it was made, comes back from its own bytes if and only if it is canonical. -/
theorem toBytes_ofBytes_iff (id id' : Nat) (edits : List Edit) (options : Options) :
    let d := (empty id).run edits
    (∃ bytes d', d.toBytes options.encoding = .ok bytes ∧ ofBytes id' options bytes = .ok d' ∧
      d'.contents = d.contents) ↔ Outline.Canonical options.encoding options.quotes d.contents := by
  intro d
  have hd : d.WellFormed := wellFormed_run (wellFormed_empty id) edits
  constructor
  · rintro ⟨bytes, d', hb, ho, hc⟩
    obtain rfl := eq_of_ofBytes ho
    -- What came back has characters that the encoding keeps, so the bytes stand for the whole text.
    have hkeeps := keeps_ofText id' options (options.encoding.keeps_decodeChars bytes)
    have hfree := quoteFree_text_ofText id' options (options.encoding.decodeChars bytes)
    rw [hc] at hkeeps hfree
    obtain ⟨bytes', hb', hchars⟩ := exists_toBytes hkeeps
    obtain rfl : bytes' = bytes := Except.ok.inj (hb'.symm.trans hb)
    rw [← hchars] at hfree
    exact hc ▸ canonical_ofText id' hfree (options.encoding.keeps_decodeChars bytes')
  · exact exists_ofBytes_of_canonical hd id'

/-- A quote in front of a value matters where quotes mean something only. -/
example : Outline.Canonical .latin1 false [("a b", [("k", "\"1\"")])] ∧
    ¬Outline.Canonical .latin1 true [("a b", [("k", "\"1\"")])] := by decide

end Document

end IniDoc
