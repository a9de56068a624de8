import IniDoc.Proofs.Cursors
import IniDoc.Proofs.Lookup
import IniDoc.Proofs.Observing

/-!
# What is listed and what is found

The lists of a file walk along the links of its document, and a value is looked up through the index. They tell the
same: cut at its first equals sign, a line of a list is a name and the value that is found under it.

* `Text.cutAtEquals`: the two parts of a line.
* `Section.cut_lines`: the lines of a section, cut, are its entries.
* `Document.lines_eq_ok_iff`, `Document.getValue_eq_ok_iff`: what is listed and what is found.
* `listLines_agrees_with_getValue`: the commands on a file, whatever it contains.
-/

namespace IniDoc

open Text (Bytes Item foldName)

/-- What stands before and behind the first equals sign of a line. -/
def Text.cutAtEquals (line : String) : Option (String × String) :=
  match line.toList.dropWhile (· != '=') with
  | [] => none
  | _ :: data => some (String.ofList (line.toList.takeWhile (· != '=')), String.ofList data)

theorem Text.cutAtEquals_append {name : String} (h : '=' ∉ name.toList) (data : String) :
    cutAtEquals (name ++ "=" ++ data) = some (name, data) := by
  have hline : (name ++ "=" ++ data).toList = name.toList ++ '=' :: data.toList := by simp
  have hstop : ∀ c ∈ ('=' :: data.toList).head?, (c != '=') = false := by simp
  have hname : ∀ c ∈ name.toList, (c != '=') = true := by
    intro c hc
    exact bne_iff_ne.2 fun heq => h (heq ▸ hc)
  rw [cutAtEquals, hline, takeWhile_append_stop _ hstop, dropWhile_append_stop _ hstop,
    List.takeWhile_eq_self_iff.2 hname, List.dropWhile_eq_nil_iff.2 hname, List.nil_append, String.ofList_toList]
  simp only [String.ofList_toList]

/-! ## Sections -/

namespace Section

variable {s : Section} {name data : String}

/-- A line for each entry, in the order of the entries. -/
theorem WellFormed.lines_eq (hs : s.WellFormed) :
    s.lines = s.entries.map fun (name, data) => name ++ "=" ++ data := by
  rw [lines, Cursor.entries_eq hs]

/-- Cut at their first equals signs, the lines of a section are its entries, as no name has an equals sign. -/
theorem WellFormed.cut_lines (hs : s.WellFormed) (hn : ∀ entry ∈ s.entries, '=' ∉ entry.1.toList) :
    s.lines.filterMap Text.cutAtEquals = s.entries := by
  rw [hs.lines_eq, List.filterMap_map]
  have hcut : ∀ entry ∈ s.entries, (Text.cutAtEquals ∘ fun (name, data) => name ++ "=" ++ data) entry = some entry := by
    intro entry he
    exact Text.cutAtEquals_append (hn entry he) entry.2
  rw [List.filterMap_congr hcut, List.filterMap_some]

/-- A value is found if and only if exactly one entry has the name, and has this value. -/
theorem WellFormed.value_eq_ok_iff (hs : s.WellFormed) : s.value name = .ok data ↔
    ∃ spelling, s.entries.filter (fun entry => foldName entry.1 = foldName name) = [(spelling, data)] := by
  have hentries : s.entries.filter (fun entry => foldName entry.1 = foldName name) =
      ((s.keys.find? name).bind s.keys.get?).toList.map fun key => (key.name, key.data) := by
    rw [hs.keys.toList_find?, Chain.search, entries, List.filter_map]
    rfl
  rw [hentries, value]
  cases (s.keys.find? name).bind s.keys.get? <;> simp [eq_comm]

end Section

/-! ## Documents -/

namespace Document

variable {d : Document} {s : Section} {file sectionName name data : String} {lines : List String}

/-- The section with a name is the one that stands among the sections. -/
theorem WellFormed.named?_eq_some_iff (hd : d.WellFormed) :
    d.named? sectionName = some s ↔ s ∈ d.sections.toList ∧ foldName s.name = foldName sectionName := by
  rw [← Option.mem_toList, hd.toList_named?, Chain.search, List.mem_filter, decide_eq_true_iff]

theorem lines_eq_ok_iff : d.lines file (some sectionName) = .ok lines ↔
    ∃ s, d.named? sectionName = some s ∧ s.lines = lines := by
  rw [Document.lines]
  cases d.named? sectionName <;> simp

theorem getValue_eq_ok_iff : d.getValue file sectionName name = .ok data ↔
    ∃ s, d.named? sectionName = some s ∧ s.value name = .ok data := by
  rw [getValue]
  cases d.named? sectionName with
  | none => simp
  | some s =>
    simp only [Option.some.injEq, exists_eq_left']
    cases s.value name <;> simp [Except.mapError]

theorem WellFormed.named?_of_mem (hd : d.WellFormed) (hs : s ∈ d.sections.toList) : d.named? s.name = some s :=
  hd.named?_eq_some_iff.2 ⟨hs, rfl⟩

/-- Nothing is listed of a section that is not there. -/
theorem WellFormed.lines_eq_error_iff (hd : d.WellFormed) :
    (∃ failure, d.lines file (some sectionName) = .error failure) ↔
      ∀ s ∈ d.sections.toList, foldName s.name ≠ foldName sectionName := by
  have hnone : d.named? sectionName = none ↔ ∀ s ∈ d.sections.toList, foldName s.name ≠ foldName sectionName := by
    simp only [Option.eq_none_iff_forall_ne_some, ne_eq, hd.named?_eq_some_iff, not_and]
  rw [← hnone, Document.lines]
  cases d.named? sectionName <;> simp

/-- An entry is found under its section's name and its own. -/
theorem WellFormed.getValue_of_mem (hd : d.WellFormed) (hs : s ∈ d.sections.toList) {entry : String × String}
    (he : entry ∈ s.entries) (file : String) : d.getValue file s.name entry.1 = .ok entry.2 := by
  have hw := hd.of_section? ((mem_toList_iff hd).1 hs)
  exact getValue_eq_ok_iff.2 ⟨s, hd.named?_of_mem hs, hw.value_eq_ok_iff.2
    ⟨entry.1, filter_eq_singleton_of_nodup_map hw.nodup_entries he⟩⟩

/-- A value is found in a section if and only if exactly one of its lines, cut, has the name, and has this value. -/
theorem WellFormed.value_eq_ok_iff_lines (hd : d.WellFormed) (hs : s ∈ d.sections.toList)
    (hn : ∀ entry ∈ s.entries, '=' ∉ entry.1.toList) (file : String) :
    s.value name = .ok data ↔ ∃ lines spelling, d.lines file (some s.name) = .ok lines ∧
      (lines.filterMap Text.cutAtEquals).filter (fun entry => foldName entry.1 = foldName name) =
        [(spelling, data)] := by
  have hw := hd.of_section? ((mem_toList_iff hd).1 hs)
  simp only [hw.value_eq_ok_iff, lines_eq_ok_iff, hd.named?_of_mem hs, Option.some.injEq, exists_eq_left']
  rw [exists_comm]
  simp only [exists_eq_left', hw.cut_lines hn]

/-- The same for a section that is looked up by its name. -/
theorem WellFormed.getValue_eq_ok_iff_lines (hd : d.WellFormed)
    (hn : ∀ s ∈ d.sections.toList, ∀ entry ∈ s.entries, '=' ∉ entry.1.toList) :
    d.getValue file sectionName name = .ok data ↔
      ∃ s ∈ d.sections.toList, foldName s.name = foldName sectionName ∧ ∃ lines spelling,
        d.lines file (some s.name) = .ok lines ∧
        (lines.filterMap Text.cutAtEquals).filter (fun entry => foldName entry.1 = foldName name) =
          [(spelling, data)] := by
  rw [getValue_eq_ok_iff]
  simp only [hd.named?_eq_some_iff, and_assoc]
  refine exists_congr fun s => and_congr_right fun hs => and_congr_right fun _ => ?_
  exact hd.value_eq_ok_iff_lines hs (hn s hs) file

end Document

/-! ## Files -/

/-- No name of a key that is read has an equals sign. -/
theorem notMem_of_ofBytes {d : Document} {options : Options} {id : Nat} {bytes : Bytes}
    (h : Document.ofBytes id options bytes = .ok d) :
    ∀ s ∈ d.sections.toList, ∀ entry ∈ s.entries, '=' ∉ entry.1.toList := by
  obtain rfl := Document.eq_of_ofBytes h
  have hwords := Document.every_ofText id (Item.every_of_mem_allFrom options.quotes false
    (options.encoding.decodeChars bytes))
  intro s hs entry he hmem
  have hs' : (s.name, s.entries) ∈ (Document.ofText id options (options.encoding.decodeChars bytes)).contents :=
    List.mem_map_of_mem hs
  exact absurd (((hwords _ hs').2 entry he).1.1 '=' hmem) (by decide)

/-- Whatever a file that loads contains, its sections are listed under names that are pairwise different, whatever their
case. Each line that is listed of one of them, cut at its first equals sign, is a name and the value that is found under
it. A value is found under any spelling of its names if and only if exactly one line of the section has the name and has
this value; and the lines of a section are refused exactly if it is not listed. -/
theorem listLines_agrees_with_getValue {σ η : Type} (volume : Volume (StateM σ) η) (room : Nat) (options : Options)
    (file : String) (s : σ) {d : Document} (hload : ((loadFile volume room options file).run s).1 = .ok d) :
    let list (sectionName : Option String) := ((listLines volume room options file sectionName).run s).1
    let get (sectionName key : String) := ((getValue volume room options file sectionName key).run s).1
    ∃ names, list none = .ok names ∧ (names.map foldName).Nodup ∧
      (∀ name ∈ names, ∃ lines, list (some name) = .ok lines ∧
        ∀ line ∈ lines, ∃ key value, Text.cutAtEquals line = some (key, value) ∧ get name key = .ok value) ∧
      (∀ sectionName key value, get sectionName key = .ok value ↔
        ∃ name ∈ names, foldName name = foldName sectionName ∧ ∃ lines spelling, list (some name) = .ok lines ∧
          (lines.filterMap Text.cutAtEquals).filter (fun entry => foldName entry.1 = foldName key) =
            [(spelling, value)]) ∧
      ∀ sectionName, (∃ failure, list (some sectionName) = .error failure) ↔
        ∀ name ∈ names, foldName name ≠ foldName sectionName := by
  intro list get
  obtain ⟨bytes, hbytes⟩ := exists_ofBytes_of_loadFile hload
  have hd : d.WellFormed := Document.eq_of_ofBytes hbytes ▸ Document.wellFormed_ofText 0 options _
  have hn := notMem_of_ofBytes hbytes
  have hlist (sectionName : Option String) : list sectionName = d.lines file sectionName := by
    rw [show list sectionName = _ from run_listLines volume room options file s sectionName, hload]
    rfl
  have hget (sectionName key : String) : get sectionName key = d.getValue file sectionName key := by
    rw [show get sectionName key = _ from run_getValue volume room options file s sectionName key, hload]
    rfl
  simp only [hlist, hget]
  refine ⟨d.sections.toList.map (·.name), rfl, ?_, ?_, ?_, ?_⟩
  · rw [List.map_map]
    exact hd.sections.nodup_names
  · rw [List.forall_mem_map]
    intro t ht
    have hw := hd.of_section? ((Document.mem_toList_iff hd).1 ht)
    refine ⟨t.lines, Document.lines_eq_ok_iff.2 ⟨t, hd.named?_of_mem ht, rfl⟩, ?_⟩
    rw [hw.lines_eq, List.forall_mem_map]
    intro entry he
    exact ⟨entry.1, entry.2, Text.cutAtEquals_append (hn t ht entry he) entry.2, hd.getValue_of_mem ht he file⟩
  · intro sectionName key value
    rw [hd.getValue_eq_ok_iff_lines hn]
    simp only [List.mem_map, exists_exists_and_eq_and]
  · intro sectionName
    rw [hd.lines_eq_error_iff, List.forall_mem_map]

/-- A file with one section in two spellings, and one key in two spellings whose last value has an equals sign. -/
theorem listLines_agrees_with_getValue_of_two_spellings :
    let tree := FileTree.scratch.setNode ["tmp", "scratch", "a.ini"]
      (.file (Text.Utf8.encode "[S]\na=1\n[s]\nA=2=3\n".toList))
    let list (sectionName : Option String) := ((listLines FileTree.volume 100 default "a.ini" sectionName).run tree).1
    let get (sectionName key : String) := ((getValue FileTree.volume 100 default "a.ini" sectionName key).run tree).1
    list none = .ok ["S"] ∧ list (some "S") = .ok ["a=2=3"] ∧ get "s" "A" = .ok "2=3" := by
  intro tree list get
  have hnames : list none = .ok ["S"] := eq_ok_of_toOption (by decide +kernel)
  have hlines : list (some "S") = .ok ["a=2=3"] := eq_ok_of_toOption (by decide +kernel)
  obtain ⟨d, hload⟩ : ∃ d, ((loadFile FileTree.volume 100 default "a.ini").run tree).1 = .ok d := by
    cases hr : ((loadFile FileTree.volume 100 default "a.ini").run tree).1 with
    | error failure =>
      rw [show list none = _ from run_listLines FileTree.volume 100 default "a.ini" tree none, hr] at hnames
      cases hnames
    | ok d => exact ⟨d, rfl⟩
  obtain ⟨names, hnames', -, -, hfound, -⟩ :=
    listLines_agrees_with_getValue FileTree.volume 100 default "a.ini" tree hload
  obtain rfl : ["S"] = names := Except.ok.inj (hnames.symm.trans hnames')
  refine ⟨hnames, hlines, (hfound "s" "A" "2=3").2 ⟨"S", by simp, by decide +kernel, _, "a", hlines, ?_⟩⟩
  decide +kernel

end IniDoc
