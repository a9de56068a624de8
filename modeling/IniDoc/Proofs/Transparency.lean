import IniDoc.Proofs.Bytewise
import IniDoc.Proofs.Folding
import IniDoc.Proofs.Lookup
import IniDoc.Proofs.OutlineValues
import IniDoc.Proofs.RoundTrip
import IniDoc.Proofs.Sizes
import IniDoc.Proofs.Unclosed

/-!
# Files in UTF-8 that are edited in Latin-1

A file in UTF-8 whose names are ASCII may be read in Latin-1. Its values are then strange, but nothing is lost: the
document has the same sections and keys as the one that is read in UTF-8, and is written as the same bytes.

* `isAscii_of_foldName_eq`: folding takes no other character of Latin-1 to ASCII.
* `Draft.Alike`: drafts whose values alone are read differently.
* `Draft.Alike.add`, `Draft.Alike.addAll`: the same items keep them alike.
* `Document.contents_ofText_bytewise`, `Outline.text_mapValues_asLatin1`: documents and their texts.
* `Document.latin1_transparent`: reading and writing bytes.
-/

namespace IniDoc

open Text

variable {name a b : String}

/-! ## Names in ASCII -/

/-- All characters are ASCII. -/
def IsAscii (name : String) : Prop := ∀ c ∈ name.toList, c.toNat < 0x80

instance (name : String) : Decidable (IsAscii name) := List.decidableBAll _ name.toList

theorem asLatin1_of_isAscii (h : IsAscii name) : asLatin1 name = name := by
  rw [asLatin1, bytewise_of_ascii h, String.ofList_toList]

theorem isAscii_of_asLatin1 (h : IsAscii (asLatin1 name)) : IsAscii name := by
  rw [IsAscii, asLatin1, String.toList_ofList] at h
  exact ascii_of_bytewise h

theorem asLatin1_eq_empty_iff : asLatin1 name = "" ↔ name = "" := by
  rw [asLatin1, ← String.toList_inj, String.toList_ofList, ← String.toList_inj]
  exact bytewise_eq_nil_iff

/-- A name in Latin-1 that is a name in ASCII up to its case is in ASCII. -/
theorem isAscii_of_foldName_eq (h : foldName a = foldName b) (ha : ∀ c ∈ a.toList, c.toNat < 256) (hb : IsAscii b) :
    IsAscii a := by
  intro c hc
  obtain ⟨d, rest, hd⟩ := List.exists_cons_of_ne_nil (lowerChar_ne_nil c)
  have hd : d ∈ lowerChar c := hd ▸ List.mem_cons_self
  have hmem : d ∈ (foldName b).toList := by
    rw [← h, toList_foldName]
    exact List.mem_flatMap.2 ⟨c, hc, hd⟩
  rw [toList_foldName] at hmem
  obtain ⟨e, he, hde⟩ := List.mem_flatMap.1 hmem
  have hlt := hb e he
  exact (lt_of_mem_lowerChar (ha c hc) hd).1 ((lt_of_mem_lowerChar (Nat.lt_trans hlt (by decide)) hde).2 hlt)

/-- A name that reads in Latin-1 as some spelling of a name in ASCII reads as itself. -/
theorem asLatin1_of_same (h : foldName (asLatin1 a) = foldName b) (hb : IsAscii b) : asLatin1 a = a := by
  have hlt : ∀ c ∈ (asLatin1 a).toList, c.toNat < 256 := by
    rw [asLatin1, String.toList_ofList]
    exact fun c => lt_of_mem_bytewise
  exact asLatin1_of_isAscii (isAscii_of_asLatin1 (isAscii_of_foldName_eq h hlt hb))

/-! ## Outlines whose values are read differently -/

namespace Outline

variable {outline : Outline} {ofSection ofName : String → Prop} {write : String → String} {β γ : Type}

theorem hasName_map (f : β → γ) (pairs : List (String × β)) (name : String) :
    hasName (pairs.map fun pair => (pair.1, f pair.2)) name = hasName pairs name := by
  rw [hasName, List.any_map, hasName]
  rfl

theorem mapValues_addSection (write : String → String) (outline : Outline) (name : String) :
    addSection (mapValues write outline) name = mapValues write (addSection outline name) := by
  rw [addSection, addSection, mapValues, hasName_map]
  split
  · rfl
  · rw [mapValues, List.map_append]
    rfl

theorem setValue_map (write : String → String) (entries : Entries) (name data : String) :
    setValue (entries.map fun entry => (entry.1, write entry.2)) name (write data) =
      (setValue entries name data).map fun entry => (entry.1, write entry.2) := by
  rw [setValue, setValue, hasName_map]
  split
  · rw [List.map_map, List.map_map]
    apply List.map_congr_left
    intro entry _
    rw [Function.comp_apply, Function.comp_apply]
    dsimp only
    split <;> rfl
  · rw [List.map_append]
    rfl

theorem mapValues_setEntry (write : String → String) (outline : Outline) (sectionName name data : String) :
    setEntry (mapValues write outline) sectionName name (write data) =
      mapValues write (setEntry outline sectionName name data) := by
  rw [setEntry, mapValues, List.map_map, setEntry, mapValues, List.map_map]
  apply List.map_congr_left
  intro s _
  rw [Function.comp_apply, Function.comp_apply]
  dsimp only
  split
  · rw [setValue_map]
  · rfl

/-- After a value has been set, there is an entry with its name. -/
theorem exists_mem_setValue (entries : Entries) (name data : String) :
    ∃ entry ∈ setValue entries name data, foldName entry.1 = foldName name := by
  obtain ⟨n, hn, hf⟩ := exists_mem_addNames (entries.map Prod.fst) (List.mem_singleton_self name)
  have hnames : addNames (entries.map Prod.fst) [name] = (setValue entries name data).map Prod.fst :=
    (map_fst_setValue entries name data).symm
  rw [hnames] at hn
  obtain ⟨entry, he, rfl⟩ := List.mem_map.1 hn
  exact ⟨entry, he, hf⟩

/-- After an entry has been set in a section that is there, the section has an entry with its name. -/
theorem exists_mem_setEntry {sectionName : String} (h : hasName outline sectionName = true) (name data : String) :
    ∃ s ∈ setEntry outline sectionName name data, ∃ entry ∈ s.2, foldName entry.1 = foldName name := by
  obtain ⟨s, hs, hn⟩ := List.any_eq_true.1 h
  refine ⟨(s.1, setValue s.2 name data), List.mem_map.2 ⟨s, hs, if_pos (by simpa using hn)⟩, ?_⟩
  exact exists_mem_setValue s.2 name data

/-- The names do not depend on how the values are written. -/
theorem every_of_mapValues (h : (mapValues write outline).Every ofSection ofName fun _ => True) :
    outline.Every ofSection ofName fun _ => True := by
  intro s hs
  obtain ⟨hsection, hentries⟩ := h _ (List.mem_map_of_mem hs)
  refine ⟨hsection, ?_⟩
  intro entry he
  exact hentries (entry.1, write entry.2) (List.mem_map_of_mem he)

/-- No section goes away. -/
theorem every_of_addSection {ofValue : String → Prop} (h : (addSection outline name).Every ofSection ofName ofValue) :
    outline.Every ofSection ofName ofValue := by
  unfold addSection at h
  split at h
  · exact h
  · intro s hs
    exact h s (List.mem_append_left _ hs)

/-- No name of an entry goes away. -/
theorem every_of_setEntry {sectionName data : String}
    (h : (setEntry outline sectionName name data).Every ofSection ofName fun _ => True) :
    outline.Every ofSection ofName fun _ => True := by
  intro s hs
  have hs' := h _ (List.mem_map_of_mem hs)
  split at hs'
  · refine ⟨hs'.1, ?_⟩
    intro entry he
    have hname : entry.1 ∈ (setValue s.2 name data).map Prod.fst := by
      rw [map_fst_setValue]
      exact subset_addName _ _ (List.mem_map_of_mem he)
    obtain ⟨entry', he', hsame⟩ := List.mem_map.1 hname
    exact ⟨hsame ▸ (hs'.2 entry' he').1, trivial⟩
  · exact hs'

end Outline

/-! ## Drafts whose values are read differently -/

namespace Draft

variable {q q' : Draft} {item : Item} {items : List Item} {ofSection ofName : String → Prop}

/-- No name goes away. -/
theorem every_of_add (h : (q.add item).outline.Every ofSection ofName fun _ => True) :
    q.outline.Every ofSection ofName fun _ => True := by
  cases item with
  | header name =>
    simp only [add, addHeader] at h
    split at h
    · exact h
    · exact Outline.every_of_addSection h
  | entry name data =>
    simp only [add, addEntry] at h
    split at h
    · exact h
    · split at h
      · exact h
      · exact Outline.every_of_setEntry h
  | _ => exact h

theorem every_of_addAll (h : (q.addAll items).outline.Every ofSection ofName fun _ => True) :
    q.outline.Every ofSection ofName fun _ => True := by
  induction items generalizing q with
  | nil => exact h
  | cons item items ih => exact every_of_add (ih h)

/-- One draft says in UTF-8 what the other says in Latin-1: the values alone are read differently. Entries go to a
section that is there. -/
structure Alike (q q' : Draft) : Prop where
  outline : q'.outline = Outline.mapValues asLatin1 q.outline
  current : q'.current = q.current
  known : ∀ name ∈ q.current, Outline.hasName q.outline name = true

theorem alike_start : (start []).Alike (start []) := ⟨rfl, rfl, by simp [start]⟩

theorem Alike.skip (h : q.Alike q') : q.skip.Alike q'.skip := ⟨h.outline, h.current, h.known⟩

theorem Alike.clear (h : q.Alike q') : { q with current := none }.Alike { q' with current := none } :=
  ⟨h.outline, rfl, by simp⟩

theorem Alike.hasName_outline (h : q.Alike q') (name : String) :
    Outline.hasName q'.outline name = Outline.hasName q.outline name := by
  rw [h.outline]
  exact Outline.hasName_map _ q.outline name

/-- Where the names stay ASCII, a header names a section in ASCII, which reads as itself. -/
theorem Alike.addHeader (h : q.Alike q') {name : String}
    (hascii : (q'.addHeader (asLatin1 name)).outline.Every IsAscii IsAscii fun _ => True) :
    (q.addHeader name).Alike (q'.addHeader (asLatin1 name)) := by
  unfold Draft.addHeader at hascii ⊢
  by_cases hn : name = ""
  · rw [if_pos hn, if_pos (asLatin1_eq_empty_iff.2 hn)]
    exact h.clear.skip
  · rw [if_neg (mt asLatin1_eq_empty_iff.1 hn)] at hascii ⊢
    obtain ⟨s, hs, hname⟩ := List.any_eq_true.1 (Outline.hasName_addSection q'.outline (asLatin1 name))
    have hself : asLatin1 name = name := asLatin1_of_same (beq_iff_eq.1 hname).symm (hascii s hs).1
    rw [if_neg hn, hself, h.outline, Outline.mapValues_addSection]
    refine ⟨rfl, rfl, ?_⟩
    rintro _ ⟨⟩
    exact Outline.hasName_addSection q.outline name

/-- Where the names stay ASCII, an entry has a name in ASCII, which reads as itself. -/
theorem Alike.addEntry (h : q.Alike q') {name data : String}
    (hascii : (q'.addEntry (asLatin1 name) (asLatin1 data)).outline.Every IsAscii IsAscii fun _ => True) :
    (q.addEntry name data).Alike (q'.addEntry (asLatin1 name) (asLatin1 data)) := by
  unfold Draft.addEntry at hascii ⊢
  rw [h.current] at hascii ⊢
  cases hc : q.current with
  | none => exact h.skip
  | some sectionName =>
    rw [hc] at hascii
    dsimp only at hascii ⊢
    have hempty : asLatin1 name = "" ∨ asLatin1 data = "" ↔ name = "" ∨ data = "" :=
      or_congr asLatin1_eq_empty_iff asLatin1_eq_empty_iff
    by_cases hnd : name = "" ∨ data = ""
    · rw [if_pos hnd, if_pos (hempty.2 hnd)]
      exact h.skip
    · rw [if_neg (mt hempty.1 hnd)] at hascii ⊢
      rw [if_neg hnd]
      have hknown : Outline.hasName q'.outline sectionName = true := by
        rw [h.hasName_outline]
        exact h.known sectionName hc
      obtain ⟨s, hs, entry, he, hname⟩ := Outline.exists_mem_setEntry hknown (asLatin1 name) (asLatin1 data)
      have hself : asLatin1 name = name := asLatin1_of_same hname.symm ((hascii s hs).2 entry he).1
      refine ⟨?_, rfl, ?_⟩
      · dsimp only
        rw [hself, h.outline, Outline.mapValues_setEntry]
      · rintro _ ⟨⟩
        rw [Outline.hasName_eq_any, Outline.map_fst_setEntry, ← Outline.hasName_eq_any]
        exact h.known sectionName hc

theorem Alike.add (h : q.Alike q')
    (hascii : (q'.add item.bytewise).outline.Every IsAscii IsAscii fun _ => True) :
    (q.add item).Alike (q'.add item.bytewise) := by
  cases item with
  | header name => exact h.addHeader hascii
  | namelessHeader => exact h.clear.skip
  | outside => exact h
  | comment => exact h
  | noEquals => exact h.skip
  | entry name data => exact h.addEntry hascii
  | unclosed tail => exact ⟨h.outline, h.current, h.known⟩

/-- Where the names end up in ASCII, all items are read alike. -/
theorem Alike.addAll (h : q.Alike q')
    (hascii : (q'.addAll (items.map Item.bytewise)).outline.Every IsAscii IsAscii fun _ => True) :
    (q.addAll items).Alike (q'.addAll (items.map Item.bytewise)) := by
  induction items generalizing q q' with
  | nil => exact h
  | cons item items ih => exact ih (h.add (every_of_addAll hascii)) hascii

end Draft

/-! ## Texts -/

namespace Outline

theorem bytewise_returnFeed : bytewise returnFeed = returnFeed := by
  rw [returnFeed, bytewise_cons (by decide), bytewise_cons (by decide), bytewise_nil]

theorem bytewise_headerLine (h : IsAscii name) : bytewise (headerLine name) = headerLine name := by
  rw [headerLine, bytewise_append, bytewise_cons (by decide), bytewise_cons (by decide), bytewise_of_ascii h,
    bytewise_returnFeed]

theorem bytewise_entryLine {entry : String × String} (h : IsAscii entry.1) :
    bytewise (entryLine entry) = entryLine (entry.1, asLatin1 entry.2) := by
  rw [entryLine, bytewise_append, bytewise_append, bytewise_of_ascii h, bytewise_cons (by decide),
    bytewise_returnFeed, entryLine, toList_asLatin1]

theorem bytewise_sectionText {s : String × Entries} (hs : IsAscii s.1) (hn : ∀ entry ∈ s.2, IsAscii entry.1) :
    bytewise (sectionText s) = sectionText (s.1, s.2.map fun entry => (entry.1, asLatin1 entry.2)) := by
  rw [sectionText, bytewise_append, bytewise_headerLine hs, bytewise_flatMap, sectionText, List.flatMap_map]
  exact congrArg _ (List.flatMap_congr fun entry he => bytewise_entryLine (hn entry he))

/-- The text of the document in Latin-1 is that of the document in UTF-8, byte by byte. -/
theorem text_mapValues_asLatin1 {outline : Outline} (h : outline.Every IsAscii IsAscii fun _ => True) :
    text (mapValues asLatin1 outline) = bytewise (text outline) := by
  rw [text, text, bytewise_intercalate, bytewise_returnFeed, mapValues, List.map_map, List.map_map]
  congr 1
  apply List.map_congr_left
  intro s hs
  exact (bytewise_sectionText (h s hs).1 fun entry he => ((h s hs).2 entry he).1).symm

end Outline

/-! ## Documents -/

namespace Document

variable {d d' : Document} {text : List Char}

/-- Reading a text byte by byte makes a document with the same names, if they are ASCII, and each value byte by byte. -/
theorem contents_ofText_bytewise (id id' : Nat) (quotes strict : Bool) (encoding encoding' : Encoding)
    (hascii : Outline.Every IsAscii IsAscii (fun _ => True)
      (ofText id ⟨quotes, strict, encoding⟩ (bytewise text)).contents) :
    (ofText id ⟨quotes, strict, encoding⟩ (bytewise text)).contents =
      Outline.mapValues asLatin1 (ofText id' ⟨quotes, strict, encoding'⟩ text).contents := by
  rw [contents_ofText, Item.all, Item.allFrom_bytewise] at hascii ⊢
  rw [contents_ofText, Item.all]
  exact (Draft.alike_start.addAll hascii).outline

theorem WellFormed.length_contents (hd : d.WellFormed) : d.contents.length = d.size := by
  rw [contents, List.length_map, hd.sections.linked.length_toList]
  rfl

theorem WellFormed.map_size_toList (hd : d.WellFormed) :
    d.sections.toList.map Section.size = d.contents.map fun s => s.2.length := by
  rw [contents, List.map_map]
  apply List.map_congr_left
  intro s hs
  have hw := hd.of_section? ((mem_toList_iff hd).1 hs)
  rw [Function.comp_apply, Section.entries, List.length_map, hw.keys.linked.length_toList]
  rfl

/-- Documents whose values alone differ have as many sections, and each section as many keys. -/
theorem sizes_of_contents {write : String → String} (hd : d.WellFormed) (hd' : d'.WellFormed)
    (h : d.contents = Outline.mapValues write d'.contents) :
    d.size = d'.size ∧ d.sections.toList.map Section.size = d'.sections.toList.map Section.size := by
  constructor
  · rw [← hd.length_contents, ← hd'.length_contents, h, Outline.mapValues, List.length_map]
  · rw [hd.map_size_toList, hd'.map_size_toList, h, Outline.mapValues, List.map_map]
    apply List.map_congr_left
    intro s _
    exact List.length_map _

/-- Documents in which each value of one is the other's byte by byte are written as the same bytes, one in Latin-1 and
the other in UTF-8. -/
theorem toBytes_of_contents (hascii : Outline.Every IsAscii IsAscii (fun _ => True) d'.contents)
    (h : d.contents = Outline.mapValues asLatin1 d'.contents) : d.toBytes .latin1 = d'.toBytes .utf8 := by
  rw [toBytes_utf8, toBytes, Encoding.encode_latin1, toList_text, h, Outline.text_mapValues_asLatin1 hascii]
  exact Encoding.mapM_latin1Byte_bytewise _

/-- A text and the text that it is byte by byte are both left with an open quote on the same line, or both read to the
end. -/
theorem scanChars_bytewise (d d' : Document) (quotes strict : Bool) (encoding encoding' : Encoding)
    (text : List Char) :
    (∃ line offset offset',
      (d.scanChars ⟨quotes, strict, encoding⟩ (bytewise text)).2 = .error (.unclosedQuote line offset) ∧
      (d'.scanChars ⟨quotes, strict, encoding'⟩ text).2 = .error (.unclosedQuote line offset')) ∨
    ∃ s s', (d.scanChars ⟨quotes, strict, encoding⟩ (bytewise text)).2 = .ok s ∧
      (d'.scanChars ⟨quotes, strict, encoding'⟩ text).2 = .ok s' := by
  have hitems : Item.all quotes (bytewise text) = (Item.all quotes text).map Item.bytewise :=
    Item.allFrom_bytewise quotes false text
  simp only [scanChars, hitems, Item.findSome?_unclosed?_bytewise]
  cases strict with
  | false => exact .inr ⟨_, _, rfl, rfl⟩
  | true =>
    cases hopen : (Item.all quotes text).findSome? Item.unclosed? with
    | none => exact .inr ⟨_, _, rfl, rfl⟩
    | some tail =>
      obtain ⟨-, before, -, -, -, rfl, -⟩ := Item.exists_cut hopen
      refine .inl ⟨lineFeeds before + 1, byteCount (bytewise before), byteCount before, ?_, ?_⟩
      · simp only [Option.map_some, bytewise_append, unclosedQuote_append, lineFeeds_bytewise]
      · simp only [unclosedQuote_append]

/-- A file in UTF-8 in which all names are ASCII when it is read in Latin-1 is read alike in both encodings. Either both
fail at a quote on the same line that is left open, or both give documents with as many sections, and as many keys in
each; and these are written as the same bytes, each in its own encoding. -/
theorem latin1_transparent (id id' : Nat) (quotes strict : Bool) {bytes : Bytes}
    (hvalid : bytes.toByteArray.IsValidUTF8)
    (hascii : ∀ d, ofBytes id ⟨quotes, strict, .latin1⟩ bytes = .ok d →
      Outline.Every IsAscii IsAscii (fun _ => True) d.contents) :
    (∃ line offset offset', ofBytes id ⟨quotes, strict, .latin1⟩ bytes = .error (.unclosedQuote line offset) ∧
      ofBytes id' ⟨quotes, strict, .utf8⟩ bytes = .error (.unclosedQuote line offset')) ∨
    ∃ d d' written, ofBytes id ⟨quotes, strict, .latin1⟩ bytes = .ok d ∧
      ofBytes id' ⟨quotes, strict, .utf8⟩ bytes = .ok d' ∧
      d.size = d'.size ∧ d.sections.toList.map Section.size = d'.sections.toList.map Section.size ∧
      d.toBytes .latin1 = .ok written ∧ d'.toBytes .utf8 = .ok written := by
  obtain ⟨text, htext⟩ := hvalid
  obtain rfl : bytes = Utf8.encode text := List.toByteArray_inj.1 htext
  have hlatin := ofBytes_eq id ⟨quotes, strict, .latin1⟩ (Utf8.encode text)
  have hutf8 := ofBytes_eq id' ⟨quotes, strict, .utf8⟩ (Utf8.encode text)
  simp only [Encoding.decodeChars_latin1_encode, Encoding.decodeChars_utf8_encode] at hlatin hutf8
  generalize text.takeWhile (· != '\x00') = read at hlatin hutf8
  rcases scanChars_bytewise (empty id) (empty id') quotes strict .latin1 .utf8 read with
    ⟨line, offset, offset', hfail, hfail'⟩ | ⟨s, s', hdone, hdone'⟩
  · rw [hlatin, hutf8, hfail, hfail']
    exact .inl ⟨line, offset, offset', rfl, rfl⟩
  · rw [hdone] at hlatin
    rw [hdone'] at hutf8
    have hnames := hascii _ hlatin
    have hcontents := contents_ofText_bytewise id id' quotes strict .latin1 .utf8 hnames
    obtain ⟨hsize, hsizes⟩ := sizes_of_contents (wellFormed_ofText _ _ _) (wellFormed_ofText _ _ _) hcontents
    refine .inr ⟨_, _, _, hlatin, hutf8, hsize, hsizes, ?_, toBytes_utf8 _⟩
    rw [hcontents] at hnames
    rw [toBytes_of_contents (Outline.every_of_mapValues hnames) hcontents, toBytes_utf8]

/-- A value with an accent is read in Latin-1 as one character more, and is written as the two bytes it was. -/
theorem latin1_transparent_of_accent :
    let bytes := Utf8.encode "[A]\nk=é".toList
    let read (encoding : Encoding) := ofBytes 0 ⟨true, true, encoding⟩ bytes
    ((read .latin1).map contents).toOption = some [("A", [("k", "Ã©")])] ∧
      ((read .utf8).map contents).toOption = some [("A", [("k", "é")])] ∧
      ∃ d d' written, read .latin1 = .ok d ∧ read .utf8 = .ok d' ∧ d.toBytes .latin1 = .ok written ∧
        d'.toBytes .utf8 = .ok written := by
  intro bytes read
  have hlatin : ((read .latin1).map contents).toOption = some [("A", [("k", "Ã©")])] := by decide +kernel
  have hascii : ∀ d, read .latin1 = .ok d → Outline.Every IsAscii IsAscii (fun _ => True) d.contents := by
    intro d hd
    rw [hd] at hlatin
    obtain hcontents : d.contents = [("A", [("k", "Ã©")])] := Option.some_inj.1 hlatin
    rw [hcontents]
    simp only [Outline.Every, List.forall_mem_singleton, and_true]
    decide
  refine ⟨hlatin, by decide +kernel, ?_⟩
  rcases latin1_transparent 0 0 true true ⟨"[A]\nk=é".toList, rfl⟩ hascii with
    ⟨line, offset, offset', hfail, -⟩ | ⟨d, d', written, hd, hd', -, -, hwritten⟩
  · change read .latin1 = _ at hfail
    rw [hfail] at hlatin
    cases hlatin
  · exact ⟨d, d', written, hd, hd', hwritten⟩

end Document

end IniDoc
