import IniDoc.Proofs.Folding
import IniDoc.Proofs.Setting

/-!
# What can be found after a value has been set

A document is written without quotes and read again with its own rules, so that a value that was set can be found, and
all others as before, exactly if the document that was written is canonical.

* `Outline.value?`: what is found under a section's name and a key's name.
* `Document.canonical_of_value?`: a document under whose names the same is found when it is read back is canonical.
* `FileTree.Observable`: the value that was set is found, and nothing else has changed.
* `FileTree.observable_iff_canonical`: what is needed for it.
-/

namespace IniDoc

open Text (Bytes Encoding foldName IsHeaderName IsPlain IsWord)

namespace Outline

variable {outline read : Outline} {entries : Entries} {s : String × Entries} {entry : String × String}
  {sectionName sectionName' name name' data : String} {placement : Placement}

/-! ## Finding values -/

/-- The value under a section's name and a key's name. -/
def value? (outline : Outline) (sectionName name : String) : Option String :=
  lastValue (entriesOf outline sectionName) name

theorem value?_congr (hs : foldName sectionName = foldName sectionName') (hn : foldName name = foldName name')
    (outline : Outline) : value? outline sectionName name = value? outline sectionName' name' := by
  simp only [value?, lastValue, entriesOf, hs, hn]

theorem value?_of_mem (hw : outline.WellFormed) (hs : s ∈ outline) (he : entry ∈ s.2) :
    value? outline s.1 entry.1 = some entry.2 := by
  rw [value?, entriesOf_of_mem hw.nodup hs rfl]
  exact lastValue_of_mem (hw.each s hs).2.1 he rfl

theorem exists_of_value? (h : value? outline sectionName name = some data) : ∃ s ∈ outline,
    foldName s.1 = foldName sectionName ∧ ∃ entry ∈ s.2, foldName entry.1 = foldName name ∧ entry.2 = data := by
  rw [value?, entriesOf] at h
  cases hf : outline.find? fun s => foldName s.1 = foldName sectionName with
  | none =>
    rw [hf] at h
    cases h
  | some s =>
    rw [hf] at h
    obtain ⟨entry, hlast, rfl⟩ := Option.map_eq_some_iff.1 h
    obtain ⟨he, hn⟩ := List.mem_filter.1 (List.mem_of_getLast? hlast)
    exact ⟨s, List.mem_of_find?_eq_some hf, by simpa using List.find?_some hf, entry, he, by simpa using hn, rfl⟩

/-- After an edit its value is found under its names, and under all other names what was found before. -/
theorem value?_edit (hw : outline.WellFormed) (ha : outline.HasAnchor sectionName placement)
    (name data other key : String) : value? (edit outline sectionName name data placement) other key =
      if foldName sectionName = foldName other ∧ foldName name = foldName key then some data
      else value? outline other key := by
  rw [value?, entriesOf_edit]
  by_cases hs : foldName sectionName = foldName other
  · have hsame : entriesOf outline sectionName = entriesOf outline other := by
      simp only [entriesOf, hs]
    have hanchor := (hasAnchor_iff hw.nodup).1 ha
    rw [hsame] at hanchor
    rw [if_pos hs, lastValue_putValue (nodup_entriesOf hw other) hanchor]
    simp only [hs, true_and, value?]
  · rw [if_neg hs, if_neg fun h => hs h.1, value?]

/-! ## Reading back -/

/-- Where the same is found under all names, what the names and values of one outline look like those of the other look
like as well. Names are known up to their case, and sections without entries are not known at all. -/
theorem every_of_value? {ofSection ofName ofValue : String → Prop} (hw : outline.WellFormed)
    (hvalue : ∀ sectionName name, value? read sectionName name = value? outline sectionName name)
    (hread : read.Every ofSection ofName ofValue)
    (hs : ∀ s ∈ outline, ∀ name, foldName name = foldName s.1 → ofSection name → ofSection s.1)
    (hn : ∀ s ∈ outline, ∀ entry ∈ s.2, ∀ name, foldName name = foldName entry.1 → ofName name → ofName entry.1)
    (hempty : ∀ s ∈ outline, s.2 = [] → ofSection s.1) : outline.Every ofSection ofName ofValue := by
  have hknown : ∀ s ∈ outline, ∀ entry ∈ s.2, ofSection s.1 ∧ ofName entry.1 ∧ ofValue entry.2 := by
    intro s hsm entry he
    obtain ⟨t, ht, htn, e, hem, hen, hdata⟩ := exists_of_value? ((hvalue s.1 entry.1).trans (value?_of_mem hw hsm he))
    obtain ⟨hsection, hentries⟩ := hread t ht
    exact ⟨hs s hsm t.1 htn hsection, hn s hsm entry he e.1 hen (hentries e hem).1, hdata ▸ (hentries e hem).2⟩
  intro s hsm
  constructor
  · cases hentries : s.2 with
    | nil => exact hempty s hsm hentries
    | cons entry rest => exact (hknown s hsm entry (hentries ▸ List.mem_cons_self)).1
  · intro entry he
    exact (hknown s hsm entry he).2

/-- What a name looks like is read off any spelling of it. -/
theorem looks_of_value? {ofValue : String → Prop} (hw : outline.WellFormed)
    (hvalue : ∀ sectionName name, value? read sectionName name = value? outline sectionName name)
    (hread : read.Every (IsHeaderName ·.toList) (IsWord ·.toList) ofValue)
    (hempty : ∀ s ∈ outline, s.2 = [] → IsHeaderName s.1.toList) :
    outline.Every (IsHeaderName ·.toList) (IsWord ·.toList) ofValue := by
  refine every_of_value? hw hvalue hread ?_ ?_ hempty
  · intro s _ name h
    exact Text.IsHeaderName.congr h
  · intro s _ entry _ name h
    exact Text.IsWord.congr h

/-- What the encoding keeps of a name it keeps of every spelling of it that has characters of the encoding only. -/
theorem keeps_congr {encoding : Encoding} {a b : String} (h : foldName a = foldName b)
    (hlt : encoding = .latin1 → ∀ c ∈ b.toList, c.toNat < 256) (ha : encoding.Keeps a.toList) :
    encoding.Keeps b.toList := by
  intro c hc
  constructor
  · rintro rfl
    exact (ha _ ((Text.nul_notMem_congr h).2 hc)).1 rfl
  · intro he
    exact hlt he c hc

theorem keeps_of_value? {encoding : Encoding} (hw : outline.WellFormed)
    (hvalue : ∀ sectionName name, value? read sectionName name = value? outline sectionName name)
    (hlt : encoding = .latin1 → ∀ c ∈ text outline, c.toNat < 256)
    (hread : read.Every (encoding.Keeps ·.toList) (encoding.Keeps ·.toList) (encoding.Keeps ·.toList))
    (hempty : ∀ s ∈ outline, s.2 = [] → encoding.Keeps s.1.toList) :
    outline.Every (encoding.Keeps ·.toList) (encoding.Keeps ·.toList) (encoding.Keeps ·.toList) := by
  have hsubset := every_subset_text outline
  refine every_of_value? hw hvalue hread ?_ ?_ hempty
  · intro s hs name h
    exact keeps_congr h fun he c hc => hlt he c ((hsubset s hs).1 hc)
  · intro s hs entry he name h
    exact keeps_congr h fun hl c hc => hlt hl c (((hsubset s hs).2 entry he).1 hc)

end Outline

theorem eq_ok_of_toOption {ε α : Type} {r : Except ε α} {a : α} (h : r.toOption = some a) : r = .ok a := by
  cases r with
  | error e => cases h
  | ok b => exact congrArg _ (Option.some.inj h)

/-- The values of a section are those of its entries. -/
theorem Section.toOption_value {s : Section} (hs : s.WellFormed) (name : String) :
    (s.value name).toOption = Outline.lastValue s.entries name := by
  rw [value]
  cases hf : s.keys.find? name with
  | none =>
    have hnone := hasName_entries hs name
    rw [hf] at hnone
    rw [Outline.lastValue_eq_none (Outline.hasName_eq_false_iff.1 hnone)]
    rfl
  | some i =>
    obtain ⟨key, hk, hname⟩ := (hs.keys.find?_eq_some_iff name i).1 hf
    have hmem : (key.name, key.data) ∈ s.entries :=
      List.mem_map_of_mem (f := fun key : Key => (key.name, key.data)) (hs.keys.linked.mem_toList.2 ⟨i, hk⟩)
    rw [Option.bind_some, hk, Outline.lastValue_of_mem hs.nodup_entries hmem hname]
    rfl

namespace Document

variable {d : Document} {options : Options} {bytes : Bytes} {file sectionName name data : String}

/-- A document under whose names the same is found when it has been written and read back is canonical, provided that
its sections without entries are. -/
theorem canonical_of_value? (hd : d.WellFormed) (hb : d.toBytes options.encoding = .ok bytes) (id : Nat)
    (hvalue : ∀ sectionName name,
      Outline.value? (ofText id options (options.encoding.decodeChars bytes)).contents sectionName name =
        Outline.value? d.contents sectionName name)
    (hempty : ∀ s ∈ d.contents, s.2 = [] → IsHeaderName s.1.toList ∧ options.encoding.Keeps s.1.toList) :
    Outline.Canonical options.encoding options.quotes d.contents := by
  have hw := wellFormed_contents hd
  have hheader : ∀ s ∈ d.contents, s.2 = [] → IsHeaderName s.1.toList := fun s hs hnil => (hempty s hs hnil).1
  have hlt : options.encoding = .latin1 → ∀ c ∈ Outline.text d.contents, c.toNat < 256 := by
    intro he
    rw [← toList_text]
    rw [toBytes, he] at hb
    exact Encoding.lt_of_mapM_latin1Byte ((Encoding.encode_latin1 _).symm.trans hb)
  have hkeeps := Outline.keeps_of_value? hw hvalue hlt
    (keeps_ofText id options (options.encoding.keeps_decodeChars bytes)) fun s hs hnil => (hempty s hs hnil).2
  -- The bytes stand for the whole text then, and no quote opens in it.
  have hfree : options.quotes = true → Text.QuoteFree (options.encoding.decodeChars bytes) := by
    intro hq
    obtain ⟨bytes', hb', hchars⟩ := exists_toBytes hkeeps
    obtain rfl : bytes = bytes' := Except.ok.inj (hb.symm.trans hb')
    rw [hchars]
    refine Outline.quoteFree_text (Outline.looks_of_value? hw hvalue ?_ hheader)
    refine (every_ofText id (Text.Item.every_of_mem_allFrom _ _ _)).imp (fun _ h => h) (fun _ h => h) ?_
    rintro value (hplain | ⟨-, hquoted⟩)
    · exact .inl (hq ▸ hplain)
    · exact .inr hquoted
  have hreadable := (canonical_ofText id hfree (options.encoding.keeps_decodeChars bytes)).1
  exact ⟨Outline.looks_of_value? hw hvalue hreadable hheader, hkeeps⟩

/-- A value is found in a document under the names under which its outline has it. -/
theorem toOption_getValue (hd : d.WellFormed) (file sectionName name : String) :
    (d.getValue file sectionName name).toOption = Outline.value? d.contents sectionName name := by
  rw [getValue, named?]
  cases hf : d.sections.find? sectionName with
  | none =>
    have hnone := hasName_contents hd sectionName
    rw [hf] at hnone
    have hentries : Outline.entriesOf d.contents sectionName = [] := by
      rw [Outline.entriesOf, List.find?_eq_none.2]
      · rfl
      · simpa using Outline.hasName_eq_false_iff.1 hnone
    rw [Outline.value?, hentries]
    rfl
  | some i =>
    obtain ⟨s, hs, hname⟩ := (hd.sections.find?_eq_some_iff sectionName i).1 hf
    have hw := (hd.each i s hs).2.2
    have hmem : (s.name, s.entries) ∈ d.contents :=
      List.mem_map_of_mem (f := fun s : Section => (s.name, s.entries)) (hd.sections.linked.mem_toList.2 ⟨i, hs⟩)
    rw [Option.bind_some, hs, Outline.value?, Outline.entriesOf_of_mem (wellFormed_contents hd).nodup hmem hname]
    rw [← Section.toOption_value hw]
    dsimp only
    cases s.value name <;> rfl

end Document

/-- The section or the key was not found. -/
def Failure.isNotFound : Failure → Bool
  | .noSection _ _ | .noKey _ _ => true
  | _ => false

theorem Document.isNotFound_of_getValue {d : Document} {file sectionName name : String} {failure : Failure}
    (h : d.getValue file sectionName name = .error failure) : failure.isNotFound = true := by
  unfold getValue at h
  split at h
  · cases h
    rfl
  · next s _ =>
    cases hv : s.value name with
    | error e =>
      rw [hv] at h
      cases h
      rfl
    | ok v =>
      rw [hv] at h
      cases h

namespace FileTree

variable {tree tree' : FileTree} {room : Nat} {place : List String} {options : Options} {before : Document}
  {bytes : Bytes} {file sectionName name data : String} {placement : Placement}

/-! ## What is found in a file -/

/-- The same value is found before and after, or none before and after; what is said after is that it was not found. -/
def SameAnswer (before after : Except Failure String) : Prop :=
  after.toOption = before.toOption ∧ ∀ failure, after = .error failure → failure.isNotFound = true

/-- The value that was set is found under its names, and under all other names the same as before. -/
def Observable (room : Nat) (options : Options) (file sectionName name data : String) (tree tree' : FileTree) : Prop :=
  ((getValue volume room options file sectionName name).run tree').1 = .ok data ∧
    ∀ other key, ¬(foldName sectionName = foldName other ∧ foldName name = foldName key) →
      SameAnswer ((getValue volume room options file other key).run tree).1
        ((getValue volume room options file other key).run tree').1

/-- What is found in a file is what is found in its document; nothing is found in a file that is not there. -/
theorem toOption_run_getValue (hl : tree.locateForWrite file = .ok place)
    (ho : tree.read room options place = .ok before) (sectionName name : String) :
    ((getValue volume room options file sectionName name).run tree).1.toOption =
      Outline.value? before.contents sectionName name := by
  rw [run_getValue]
  by_cases hn : tree.node? place = none
  · have hat : tree.bytesAt place = [] := by
      rw [bytesAt, hn]
    have hbefore : before = .empty 0 := by
      have := (read_eq_ok_iff.1 ho).2
      rw [hat, Document.ofBytes_nil] at this
      exact (Except.ok.inj this).symm
    rw [loadFile, run_bind, load_of_none (locate_of_locateForWrite hl) hn, hbefore]
    rfl
  · rw [run_loadFile hl hn room, ho]
    exact Document.toOption_getValue (wellFormed_read ho) file sectionName name

/-- After a file has been written, the value of an edit can be found and all others as before, if and only if the same
is found in the file as in the edited document. -/
theorem observable_iff (hl : tree.locateForWrite file = .ok place) (ho : tree.read room options place = .ok before)
    (hw : tree.Wrote tree' place bytes) (ha : Outline.HasAnchor before.contents sectionName placement)
    (name data : String) : Observable room options file sectionName name data tree tree' ↔
      ∃ after, tree'.read room options place = .ok after ∧ ∀ other key, Outline.value? after.contents other key =
        Outline.value? (Outline.edit before.contents sectionName name data placement) other key := by
  have hl' := hw.locateForWrite hl
  have hload := run_loadFile hl' (by simp [hw.node?]) room options
  have hedit := Outline.value?_edit (Document.wellFormed_contents (wellFormed_read ho)) ha name data
  constructor
  · rintro ⟨hself, hothers⟩
    cases hr : tree'.read room options place with
    | error e =>
      rw [run_getValue, hload, hr] at hself
      cases hself
    | ok after =>
      refine ⟨after, rfl, ?_⟩
      intro other key
      rw [hedit]
      split
      · next hsame =>
        rw [← Outline.value?_congr hsame.1 hsame.2, ← toOption_run_getValue hl' hr, hself]
        rfl
      · next hother =>
        have := (hothers other key hother).1
        rwa [toOption_run_getValue hl' hr, toOption_run_getValue hl ho] at this
  · rintro ⟨after, hr, hvalue⟩
    have hfound : ∀ other key, ((getValue volume room options file other key).run tree').1.toOption =
        Outline.value? (Outline.edit before.contents sectionName name data placement) other key := by
      intro other key
      rw [toOption_run_getValue hl' hr, hvalue]
    constructor
    · apply eq_ok_of_toOption
      rw [hfound, hedit, if_pos ⟨rfl, rfl⟩]
    · intro other key hother
      constructor
      · rw [hfound, hedit, if_neg hother, toOption_run_getValue hl ho]
      · intro failure hf
        rw [run_getValue, hload, hr] at hf
        exact Document.isNotFound_of_getValue hf

/-- After a value has been set, it can be found and all others as before, if and only if the document that was written
is canonical. -/
theorem observable_iff_canonical (room : Nat) (options : Options) (tree tree' : FileTree)
    (file sectionName name data : String) (placement : Placement)
    (h : (setValue volume room options file sectionName name data placement).run tree = (.ok (), tree')) :
    ∃ place before, tree.locateForWrite file = .ok place ∧
      ((loadOrEmpty volume room options file).run tree).1 = .ok before ∧
      (tree'.Fits room place → (Observable room options file sectionName name data tree tree' ↔
        Outline.Canonical options.encoding options.quotes
          (Outline.edit before.contents sectionName name data placement))) := by
  obtain ⟨place, before, d, bytes, hl, ho, hset, hb, hwrote⟩ := exists_of_run_setValue h
  have hbefore := wellFormed_read ho
  have ht := hbefore.takes_of_setValue hset
  obtain ⟨d', hset', hd, hcontents⟩ := hbefore.exists_setValue ht file
  obtain rfl : d = d' := Except.ok.inj (hset.symm.trans hset')
  refine ⟨place, before, hl, ?_, ?_⟩
  · rw [run_loadOrEmpty hl, ho]
    rfl
  intro hfits
  rw [observable_iff hl ho hwrote ht.anchor, ← hcontents]
  constructor
  · rintro ⟨after, ho', hvalue⟩
    obtain rfl := Document.eq_of_ofBytes (read_eq_ok_iff.1 ho').2
    rw [hwrote.bytesAt] at hvalue
    refine Document.canonical_of_value? hd hb 0 hvalue ?_
    intro s hs hnil
    -- A section without entries was read from the file before.
    rw [hcontents] at hs
    have hold := Outline.mem_of_mem_edit (Document.wellFormed_contents hbefore) ht.anchor hs hnil
    obtain rfl := Document.eq_of_ofBytes (read_eq_ok_iff.1 ho).2
    exact ⟨(Document.every_ofText 0 (Text.Item.every_of_mem_allFrom _ _ _) s hold).1,
      (Document.keeps_ofText 0 options (options.encoding.keeps_decodeChars _) s hold).1⟩
  · intro hc
    obtain ⟨bytes', after, hb', hafter, hsame⟩ := Document.exists_ofBytes_of_canonical hd 0 hc
    obtain rfl : bytes = bytes' := Except.ok.inj (hb.symm.trans hb')
    refine ⟨after, read_eq_ok_iff.2 ⟨hfits, hwrote.bytesAt.symm ▸ hafter⟩, ?_⟩
    intro other key
    rw [hsame]

/-- A value between quotes that is canonical without them is found as before when another key has been put in front of
its own. -/
theorem observable_iff_canonical_beside_quotes :
    let options : Options := ⟨true, false, .latin1⟩
    let tree := scratch.setNode ["tmp", "scratch", "f.ini"] (.file (Text.Utf8.encode "[S]\nk=\"a b\"\n".toList))
    let set := (setValue volume 100 options "f.ini" "s" "n" "1" (.before "K")).run tree
    set.1 = .ok () ∧ set.2.Fits 100 ["tmp", "scratch", "f.ini"] ∧
      ∃ before, ((loadOrEmpty volume 100 options "f.ini").run tree).1 = .ok before ∧
        Outline.Canonical .latin1 true (Outline.edit before.contents "s" "n" "1" (.before "K")) ∧
        Observable 100 options "f.ini" "s" "n" "1" tree set.2 := by
  intro options tree set
  have hset : set.1 = .ok () := by decide +kernel
  have hfits : set.2.Fits 100 ["tmp", "scratch", "f.ini"] := by decide +kernel
  have hread : (((loadOrEmpty volume 100 options "f.ini").run tree).1.map Document.contents).toOption =
      some [("S", [("k", "a b")])] := by
    decide +kernel
  obtain ⟨place, before, hl, hload, hiff⟩ := observable_iff_canonical 100 options tree set.2 "f.ini" "s" "n" "1"
    (.before "K") (Prod.ext hset rfl)
  obtain rfl : ["tmp", "scratch", "f.ini"] = place := Except.ok.inj hl
  have hcontents : before.contents = [("S", [("k", "a b")])] := by
    rw [hload] at hread
    exact Option.some.inj hread
  have hcanonical : Outline.Canonical .latin1 true (Outline.edit before.contents "s" "n" "1" (.before "K")) := by
    rw [hcontents]
    decide
  exact ⟨hset, hfits, before, hload, hcanonical, (hiff hfits).2 hcanonical⟩

/-- A value between quotes loses its end when the file is written without the quotes for the sake of another key. -/
theorem not_observable_behind_quotes :
    let room := Nat.pow 2 63 - 1
    let options : Options := ⟨true, false, .latin1⟩
    let tree := scratch.setNode ["tmp", "scratch", "f.ini"] (.file (Text.Utf8.encode "[S]\nk=\"a;b\"\n".toList))
    let set := (setValue volume room options "f.ini" "S" "n" "1" .last).run tree
    set.1 = .ok () ∧ ((getValue volume room options "f.ini" "S" "k").run tree).1 = .ok "a;b" ∧
      ((getValue volume room options "f.ini" "S" "k").run set.2).1 = .ok "a" ∧
        ¬Observable room options "f.ini" "S" "n" "1" tree set.2 := by
  intro room options tree set
  have hbefore : ((getValue volume room options "f.ini" "S" "k").run tree).1 = .ok "a;b" := by decide +kernel
  have hafter : ((getValue volume room options "f.ini" "S" "k").run set.2).1 = .ok "a" := by decide +kernel
  refine ⟨by decide +kernel, hbefore, hafter, ?_⟩
  rintro ⟨-, hothers⟩
  have hsame := (hothers "S" "k" (by decide)).1
  rw [hbefore, hafter] at hsame
  exact absurd hsame (by decide)

end FileTree

end IniDoc
