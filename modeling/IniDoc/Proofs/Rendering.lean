import IniDoc.Document.Layout
import IniDoc.Proofs.Line
import IniDoc.Proofs.WellFormed
import IniDoc.Proofs.Words

/-!
# The text of an outline

The layout of a document depends on its outline only, and a text in that layout is read back line by line.

* `Document.toList_text`: the characters of a document's text are those of the outline's text.
* `Outline.allFrom_text`: the items of the text are the headers and entries of the outline, provided that its names
  and values look like those that are read from a text.
* `Draft.outline_addAll_items`: these items bring the outline back.
-/

namespace IniDoc

open Text
open Text.Item (allFrom behindWord endsName next word)

variable {outline : Outline} {quotes inSection : Bool}

/-! ## Lines -/

namespace Outline

/-- The line end as characters. -/
def returnFeed : List Char := ['\r', '\n']

/-- The line of an entry. -/
def entryLine (entry : String × String) : List Char := entry.1.toList ++ '=' :: entry.2.toList ++ returnFeed

/-- The line of a header. -/
def headerLine (name : String) : List Char := '[' :: name.toList ++ ']' :: returnFeed

/-- The characters that stand between names and values. -/
def marks : List Char := '[' :: ']' :: '=' :: returnFeed

/-- The lines of a section. -/
def sectionText (s : String × Entries) : List Char := headerLine s.1 ++ s.2.flatMap entryLine

/-- The text of an outline, with an empty line between sections. -/
def text (outline : Outline) : List Char := returnFeed.intercalate (outline.map sectionText)

/-- The text is that of the first section and that of the others, if any, behind an empty line. -/
theorem exists_text_cons (s : String × Entries) (outline : Outline) :
    ∃ gap, (gap = [] ∨ gap = returnFeed) ∧ text (s :: outline) = sectionText s ++ (gap ++ text outline) := by
  cases outline with
  | nil => exact ⟨[], .inl rfl, by simp [text]⟩
  | cons t outline => exact ⟨returnFeed, .inr rfl, by simp [text, List.intercalate_cons_cons]⟩

end Outline

theorem Document.toList_text (d : Document) : d.text.toList = Outline.text d.contents := by
  have hkey : ∀ key : Key, key.line.toList = Outline.entryLine (key.name, key.data) := by
    intro key
    simp [Key.line, lineEnd, Outline.entryLine, Outline.returnFeed]
  have hsection : ∀ s : Section, s.text.toList = Outline.sectionText (s.name, s.entries) := by
    intro s
    simp [Section.text, Section.headerLine, lineEnd, Outline.sectionText, Outline.headerLine, Outline.returnFeed,
      Section.entries, List.flatMap_map, hkey]
  simp [Document.text, lineEnd, Outline.text, Outline.returnFeed, contents,
    Function.comp_def, hsection]

namespace Outline

/-! ## Reading the text -/

/-- The names and values look like those that are read from a text in which no quote opens. -/
def Readable (quotes : Bool) (outline : Outline) : Prop :=
  outline.Every (IsHeaderName ·.toList) (IsWord ·.toList) (IsPlain quotes ·.toList)

instance (quotes : Bool) (outline : Outline) : Decidable (outline.Readable quotes) :=
  inferInstanceAs (Decidable (outline.Every _ _ _))

theorem lineEnd_returnFeed (rest : List Char) : LineEnd (returnFeed ++ rest) rest := .crlf rest

theorem isLine_of_isHeaderName {name : List Char} (h : IsHeaderName name) : IsLine name := by
  intro c hc
  have := h.1 c hc
  simp_all [Item.endsHeader]

/-- A line that starts with the name of an entry reads as its value does. -/
theorem next_name {name : String} (hne : name ≠ "") (hn : IsWord name.toList) (value : List Char) :
    next quotes true (name.toList ++ '=' :: value) = some (Item.ofValue quotes name (skipBlanks value)) := by
  cases hname : name.toList with
  | nil => exact absurd (by simpa using hname) hne
  | cons c text =>
    have hword : word (name.toList ++ '=' :: value) = name.toList := by
      rw [word, List.takeWhile_append_of_pos (by simpa using hn.1)]
      exact List.append_nil _
    have hbehind : behindWord (name.toList ++ '=' :: value) = '=' :: value :=
      List.dropWhile_append_of_pos (by simpa using hn.1)
    rw [hname] at hn hword hbehind
    have hc : isSpace c = false := by
      have := hn.1 c List.mem_cons_self
      simp_all [endsName]
    have hskip : skipSpace (c :: text ++ '=' :: value) = c :: (text ++ '=' :: value) :=
      List.dropWhile_cons_of_neg (by simp [hc])
    have hhead : c ≠ '[' := by
      rintro rfl
      exact hn.2 rfl
    rw [Item.next_other hskip hhead, if_pos rfl, ← List.cons_append, hword, hbehind, ← hname, String.ofList_toList,
      Item.ofLine_equals name rfl]

/-- The line of an entry with a plain value reads as the entry. -/
theorem next_entryLine {name data : String} (hne : name ≠ "") (hn : IsWord name.toList)
    (hd : IsPlain quotes data.toList) (rest : List Char) :
    next quotes true (entryLine (name, data) ++ rest) = some (.entry name data, rest) := by
  have hline : entryLine (name, data) ++ rest = name.toList ++ '=' :: (data.toList ++ (returnFeed ++ rest)) := by
    simp [entryLine]
  have hstart : ∀ c ∈ (data.toList ++ (returnFeed ++ rest)).head?, isBlank c = false ∧
      (quotes = true → c ≠ '"') := by
    intro c hc
    cases hl : data.toList with
    | nil =>
      rw [hl] at hc
      obtain rfl : '\r' = c := Option.some.inj hc
      exact ⟨rfl, fun _ => by decide⟩
    | cons d text =>
      rw [hl] at hc hd
      obtain rfl : d = c := Option.some.inj hc
      exact ⟨hd.2.1 d rfl, fun hq he => hd.2.2 hq (he ▸ rfl)⟩
  have hend : ∀ c ∈ (returnFeed ++ rest).head?, (!Item.endsValue c) = false := by
    rintro c ⟨⟩
    rfl
  have hall : ∀ c ∈ data.toList, (!Item.endsValue c) = true := by simpa using hd.1
  rw [hline, next_name hne hn, skipBlanks_of_head fun c hc => (hstart c hc).1,
    Item.ofValue_plain name fun hq hc => (hstart '"' hc).2 hq rfl, takeWhile_append_stop _ hend,
    dropWhile_append_stop _ hend, List.takeWhile_eq_self_iff.2 hall, List.dropWhile_eq_nil_iff.2 hall,
    String.ofList_toList]
  rfl

/-- The line of a header reads as the header. -/
theorem next_headerLine {name : String} (hne : name ≠ "") (hn : IsHeaderName name.toList) (inSection : Bool)
    (rest : List Char) : next quotes inSection (headerLine name ++ rest) = some (.header name, rest) := by
  have hline : IsLine ('[' :: (name.toList ++ [']'])) := by
    simp only [IsLine, List.mem_append, List.mem_cons, List.mem_nil_iff, or_false]
    rintro c (rfl | hc | rfl)
    · rfl
    · exact isLine_of_isHeaderName hn c hc
    · rfl
  have hskip : skipBlanks (name.toList ++ [']']) = name.toList ++ [']'] := by
    apply skipBlanks_of_head
    intro c hc
    cases hname : name.toList with
    | nil => exact absurd (by simpa using hname) hne
    | cons d text =>
      rw [hname] at hn hc
      exact hn.2 c hc
  have htake : (skipBlanks (name.toList ++ [']'])).takeWhile (· != ']') = name.toList := by
    rw [hskip, List.takeWhile_append_of_pos]
    · exact List.append_nil _
    · intro c hc
      have := hn.1 c hc
      simp_all [Item.endsHeader]
  have hnext : next quotes inSection ('[' :: (name.toList ++ [']']) ++ (returnFeed ++ rest)) = _ :=
    (lineEnd_returnFeed rest).next_header hline rfl quotes inSection
  rw [htake, if_neg (by simpa using hne), String.ofList_toList] at hnext
  rw [← hnext, headerLine]
  simp

/-! ## Reading a whole text -/

/-- The items that an outline is read as. -/
def items (outline : Outline) : List Item :=
  outline.flatMap fun s => .header s.1 :: s.2.map fun entry => .entry entry.1 entry.2

theorem allFrom_gap {gap : List Char} (h : gap = [] ∨ gap = returnFeed) (rest : List Char) :
    allFrom quotes inSection (gap ++ rest) = allFrom quotes inSection rest := by
  rcases h with rfl | rfl
  · rfl
  · have hline : IsLine [] := by simp [IsLine]
    exact Item.allFrom_congr ((lineEnd_returnFeed rest).next_blank hline rfl quotes inSection)

/-- The outline with its values as they are written. -/
def mapValues (write : String → String) (outline : Outline) : Outline :=
  outline.map fun s => (s.1, s.2.map fun entry => (entry.1, write entry.2))

/-- An entry whose value is written in some way is read from its line. -/
def ReadsBack (quotes : Bool) (write : String → String) (entry : String × String) : Prop :=
  ∀ rest, next quotes true (entryLine (entry.1, write entry.2) ++ rest) = some (.entry entry.1 entry.2, rest)

variable {write : String → String}

theorem allFrom_entries {entries : Entries} (h : ∀ entry ∈ entries, ReadsBack quotes write entry) (rest : List Char) :
    allFrom quotes true ((entries.map fun entry => (entry.1, write entry.2)).flatMap entryLine ++ rest) =
      entries.map (fun entry => .entry entry.1 entry.2) ++ allFrom quotes true rest := by
  induction entries with
  | nil => rfl
  | cons entry entries ih =>
    rw [List.forall_mem_cons] at h
    rw [List.map_cons, List.flatMap_cons, List.append_assoc, Item.allFrom_of_next (h.1 _), List.map_cons,
      List.cons_append]
    exact congrArg _ (ih h.2)

/-- Where each entry is read from its line, the text of an outline reads as its headers and entries. -/
theorem allFrom_text_mapValues (h : outline.WellFormed) (hn : ∀ s ∈ outline, IsHeaderName s.1.toList)
    (hr : ∀ s ∈ outline, ∀ entry ∈ s.2, ReadsBack quotes write entry) (inSection : Bool) :
    allFrom quotes inSection (mapValues write outline).text = items outline := by
  induction outline generalizing inSection with
  | nil => exact Item.allFrom_of_next_none (Item.next_nil rfl)
  | cons s outline ih =>
    obtain ⟨gap, hgap, htext⟩ := exists_text_cons (s.1, s.2.map fun entry => (entry.1, write entry.2))
      (mapValues write outline)
    obtain ⟨hs, -, -⟩ := h.each s List.mem_cons_self
    rw [List.forall_mem_cons] at hn hr
    have hrest := ih h.tail hn.2 hr.2 true
    rw [mapValues, List.map_cons]
    refine (congrArg (allFrom quotes inSection) htext).trans ?_
    rw [sectionText, List.append_assoc, Item.allFrom_of_next (next_headerLine hs hn.1 inSection _)]
    show _ :: allFrom quotes true _ = _
    rw [allFrom_entries hr.1, allFrom_gap hgap, hrest]
    rfl

/-- The text of a readable outline reads as its headers and entries. -/
theorem allFrom_text (h : outline.WellFormed) (hr : outline.Readable quotes) (inSection : Bool) :
    allFrom quotes inSection outline.text = items outline := by
  have hid : mapValues id outline = outline := by simp [mapValues]
  rw [← hid, allFrom_text_mapValues h (fun s hs => (hr s hs).1) ?_ inSection, hid]
  intro s hs entry he rest
  obtain ⟨-, -, hentries⟩ := h.each s hs
  obtain ⟨-, hwords⟩ := hr s hs
  exact next_entryLine (hentries entry he).1 (hwords entry he).1 (hwords entry he).2 rest

end Outline

/-! ## Quotes in the text -/

namespace Outline

theorem quoteFree_headerLine {name : String} (hn : IsHeaderName name.toList) {rest : List Char}
    (h : QuoteFree rest) : QuoteFree (headerLine name ++ rest) := by
  have hline : '\n' ∉ '[' :: (name.toList ++ [']', '\r']) := by
    simp only [List.mem_cons, List.mem_append, List.mem_nil_iff, or_false]
    rintro (hc | hc | hc | hc)
    · cases hc
    · cases isLine_of_isHeaderName hn _ hc
    · cases hc
    · cases hc
  have := (quoteFree_of_line hline (not_opensQuote_bracket _)).append_lf h
  simpa [headerLine, returnFeed] using this

theorem quoteFree_entryLine {name data : String} (hn : IsWord name.toList)
    (hd : IsPlain true data.toList ∨ '"' ∉ data.toList) {rest : List Char} (h : QuoteFree rest) :
    QuoteFree (entryLine (name, data) ++ rest) := by
  have hdata : '"' ∉ data.toList ++ ['\r'] ∨
      '\n' ∉ data.toList ++ ['\r'] ∧ (skipBlanks (data.toList ++ ['\r'])).head? ≠ some '"' := by
    rcases hd with hd | hd
    · refine .inr ⟨?_, ?_⟩
      · intro hc
        rcases List.mem_append.1 hc with hc | hc
        · cases hd.1 _ hc
        · cases List.mem_singleton.1 hc
      · cases hl : data.toList with
        | nil => decide
        | cons c text =>
          rw [hl] at hd
          have hskip : skipBlanks (c :: text ++ ['\r']) = c :: text ++ ['\r'] := skipBlanks_of_head hd.2.1
          rw [hskip]
          exact hd.2.2 rfl
    · exact .inl (by simp [hd])
  have := (quoteFree_entry hn.1 hdata).append_lf h
  simpa [entryLine, returnFeed] using this

theorem quoteFree_entries {entries : Entries} (h : ∀ entry ∈ entries, IsWord entry.1.toList ∧
    (IsPlain true entry.2.toList ∨ '"' ∉ entry.2.toList)) {rest : List Char} (hr : QuoteFree rest) :
    QuoteFree (entries.flatMap entryLine ++ rest) := by
  induction entries with
  | nil => exact hr
  | cons entry entries ih =>
    rw [List.forall_mem_cons] at h
    rw [List.flatMap_cons, List.append_assoc]
    exact quoteFree_entryLine h.1.1 h.1.2 (ih h.2)

/-- No quote opens in the text of an outline whose values are plain or without quotes. -/
theorem quoteFree_text (h : outline.Every (IsHeaderName ·.toList) (IsWord ·.toList)
    fun data => IsPlain true data.toList ∨ '"' ∉ data.toList) : QuoteFree (text outline) := by
  induction outline with
  | nil => exact quoteFree_of_notMem (by simp [text])
  | cons s outline ih =>
    obtain ⟨gap, hgap, htext⟩ := exists_text_cons s outline
    obtain ⟨hs, hentries⟩ := h s List.mem_cons_self
    have hothers : QuoteFree (text outline) := ih fun t ht => h t (List.mem_cons_of_mem s ht)
    have hreturn : QuoteFree ['\r'] := quoteFree_of_notMem (by decide)
    have hrest : QuoteFree (gap ++ text outline) := by
      rcases hgap with rfl | rfl
      · exact hothers
      · exact hreturn.append_lf hothers
    rw [htext, sectionText, List.append_assoc]
    exact quoteFree_headerLine hs (quoteFree_entries hentries hrest)

end Outline

/-! ## The outline that was read -/

namespace Outline

theorem setValue_of_new {entries : Entries} {name data : String}
    (h : ∀ entry ∈ entries, foldName entry.1 ≠ foldName name) :
    setValue entries name data = entries ++ [(name, data)] := by
  rw [setValue, hasName_eq_false_iff.2 h]
  rfl

theorem addSection_of_new {outline : Outline} {name : String} (h : ∀ s ∈ outline, foldName s.1 ≠ foldName name) :
    addSection outline name = outline ++ [(name, [])] := by
  rw [addSection, hasName_eq_false_iff.2 h]
  rfl

/-- A new name goes to the end of the last section, if the sections before it have other names. -/
theorem setEntry_append {outline : Outline} {entries : Entries} {sectionName name data : String}
    (hs : ∀ s ∈ outline, foldName s.1 ≠ foldName sectionName)
    (hn : ∀ entry ∈ entries, foldName entry.1 ≠ foldName name) :
    setEntry (outline ++ [(sectionName, entries)]) sectionName name data =
      outline ++ [(sectionName, entries ++ [(name, data)])] := by
  have hsame : outline.map (fun s => if foldName s.1 = foldName sectionName then (s.1, setValue s.2 name data) else s)
      = outline := by
    conv_rhs => rw [← List.map_id outline]
    apply List.map_congr_left
    intro s h
    exact if_neg (hs s h)
  rw [setEntry, List.map_append, hsame, List.map_singleton, if_pos rfl, setValue_of_new hn]

end Outline

namespace Draft

/-- Entries with new names go to the end of the last section. -/
theorem outline_addAll_entries (q : Draft) {before : Outline} {sectionName : String} {done entries : Entries}
    (hq : q.outline = before ++ [(sectionName, done)]) (hc : q.current = some sectionName)
    (hs : ∀ s ∈ before, foldName s.1 ≠ foldName sectionName)
    (hn : ((done ++ entries).map fun entry => foldName entry.1).Nodup)
    (hne : ∀ entry ∈ entries, entry.1 ≠ "" ∧ entry.2 ≠ "") :
    (q.addAll (entries.map fun entry => .entry entry.1 entry.2)).outline =
      before ++ [(sectionName, done ++ entries)] := by
  induction entries generalizing q done with
  | nil => rw [List.map_nil, addAll_nil, hq, List.append_nil]
  | cons entry entries ih =>
    rw [List.forall_mem_cons] at hne
    obtain ⟨⟨hname, hdata⟩, hne⟩ := hne
    have hnew : ∀ old ∈ done, foldName old.1 ≠ foldName entry.1 := by
      rw [List.map_append, List.nodup_append] at hn
      intro old ho
      exact hn.2.2 _ (List.mem_map_of_mem ho) _ (by simp)
    have hadd : q.add (.entry entry.1 entry.2) = { q with
        outline := before ++ [(sectionName, done ++ [entry])]
        summary := { q.summary with keys := q.summary.keys + 1 } } := by
      simp only [add, addEntry, hc, hname, hdata, or_self, if_false, hq]
      rw [Outline.setEntry_append hs hnew]
    rw [List.append_cons] at hn
    rw [List.map_cons, addAll_cons, hadd, List.append_cons done entry entries]
    exact ih _ rfl hc hn hne

/-- The items of an outline add it behind what is there. -/
theorem outline_addAll_items (q : Draft) {before outline : Outline} (hq : q.outline = before)
    (h : Outline.WellFormed (before ++ outline)) : (q.addAll outline.items).outline = before ++ outline := by
  induction outline generalizing q before with
  | nil => rw [List.append_nil]; exact hq
  | cons s outline ih =>
    obtain ⟨hs, hn, hne⟩ := h.each s (by simp)
    have hnew : ∀ t ∈ before, foldName t.1 ≠ foldName s.1 := by
      have := h.nodup
      rw [List.map_append, List.nodup_append] at this
      intro t ht
      exact this.2.2 _ (List.mem_map_of_mem ht) _ (by simp)
    have hadd : q.add (.header s.1) =
        ⟨before ++ [(s.1, [])], some s.1, { q.summary with sections := q.summary.sections + 1 }⟩ := by
      simp only [add, addHeader, hs, if_false, hq]
      rw [Outline.addSection_of_new hnew]
    have hentries := outline_addAll_entries (q.add (.header s.1)) (congrArg Draft.outline hadd)
      (congrArg Draft.current hadd) hnew hn hne
    rw [Outline.items, List.flatMap_cons, List.cons_append, addAll_cons, addAll_append, List.append_cons]
    exact ih _ hentries (by rwa [List.append_assoc])

end Draft

end IniDoc
