import Mathlib.Data.List.Induction
import Mathlib.Data.List.Nodup
import IniDoc.Proofs.Outline

/-!
# Names and values of an outline

What decides what an outline looks like: the names of its sections in order, and under each of them the names of the
entries in order and their values.

* `Outline.spellings`: names as they end up when they are added one after the other.
* `Outline.lastValue`, `Outline.entriesOf`: the value under a name, and the entries of a section.
* `Outline.ext_lastValue`, `Outline.ext_entriesOf`: these decide entries and outlines.
* `Outline.setAll_setAll`: writing what has been written elsewhere is writing it at once.
-/

namespace IniDoc

open Text (foldName)

namespace Outline

variable {β : Type} {outline outline' : Outline} {entries entries' : Entries} {names names' : List String}
  {name sectionName data : String}

/-! ## Names -/

/-- Adds a name behind all others, unless it is there in any case. -/
def addName (names : List String) (name : String) : List String :=
  if names.any (foldName · == foldName name) then names else names ++ [name]

/-- Adds names one after the other. -/
def addNames (names new : List String) : List String := new.foldl addName names

/-- Every name once, in the spelling and at the place of its first appearance. -/
def spellings (names : List String) : List String := addNames [] names

@[simp] theorem addNames_append (names l l' : List String) :
    addNames names (l ++ l') = addNames (addNames names l) l' := List.foldl_append

theorem addName_of_mem {n : String} (hn : n ∈ names) (h : foldName n = foldName name) : addName names name = names :=
  if_pos (List.any_eq_true.2 ⟨n, hn, by simpa using h⟩)

theorem addName_of_new (h : ∀ n ∈ names, foldName n ≠ foldName name) : addName names name = names ++ [name] :=
  if_neg (by simpa using h)

theorem addName_cases (names : List String) (name : String) :
    addName names name = names ∧ (∃ n ∈ names, foldName n = foldName name) ∨
      addName names name = names ++ [name] ∧ ∀ n ∈ names, foldName n ≠ foldName name := by
  by_cases h : ∃ n ∈ names, foldName n = foldName name
  · obtain ⟨n, hn, hf⟩ := h
    exact .inl ⟨addName_of_mem hn hf, n, hn, hf⟩
  · push Not at h
    exact .inr ⟨addName_of_new h, h⟩

theorem subset_addName (names : List String) (name : String) : names ⊆ addName names name := by
  rcases addName_cases names name with ⟨h, -⟩ | ⟨h, -⟩ <;> simp [h]

theorem subset_addNames (names new : List String) : names ⊆ addNames names new := by
  induction new generalizing names with
  | nil => exact List.Subset.refl names
  | cons name new ih => exact List.Subset.trans (subset_addName names name) (ih _)

/-- Names that were added are there, in some spelling. -/
theorem exists_mem_addNames (names : List String) {new : List String} (h : name ∈ new) :
    ∃ n ∈ addNames names new, foldName n = foldName name := by
  induction new generalizing names with
  | nil => cases h
  | cons first new ih =>
    rcases List.mem_cons.1 h with rfl | h
    · rcases addName_cases names name with ⟨-, n, hn, hf⟩ | ⟨ha, -⟩
      · exact ⟨n, subset_addNames _ new (subset_addName names name hn), hf⟩
      · have hmem : name ∈ addName names name := by simp [ha]
        exact ⟨name, subset_addNames _ new hmem, rfl⟩
    · exact ih _ h

theorem nodup_addName (h : (names.map foldName).Nodup) (name : String) : ((addName names name).map foldName).Nodup := by
  rcases addName_cases names name with ⟨ha, -⟩ | ⟨ha, hn⟩
  · rwa [ha]
  · rw [ha, List.map_append, List.nodup_append]
    refine ⟨h, List.nodup_singleton _, ?_⟩
    simpa using hn

theorem nodup_addNames (h : (names.map foldName).Nodup) (new : List String) :
    ((addNames names new).map foldName).Nodup := by
  induction new generalizing names with
  | nil => exact h
  | cons name new ih => exact ih (nodup_addName h name)

/-- Names that differ are their own spellings. -/
theorem spellings_of_nodup (h : (names.map foldName).Nodup) : spellings names = names := by
  induction names using List.reverseRecOn with
  | nil => rfl
  | append_singleton names name ih =>
    rw [List.map_append, List.nodup_append] at h
    obtain ⟨hn, -, hnew⟩ := h
    rw [spellings, addNames_append, ← spellings, ih hn]
    exact addName_of_new (by simpa using hnew)

/-- Adding spellings is adding the names. -/
theorem addNames_spellings (names new : List String) : addNames names (spellings new) = addNames names new := by
  induction new using List.reverseRecOn with
  | nil => rfl
  | append_singleton new name ih =>
    have happend : ∀ l : List String, addNames l (new ++ [name]) = addName (addNames l new) name := by
      intro l
      rw [addNames_append]
      rfl
    rw [spellings, happend, ← spellings, happend]
    -- A name that is no new spelling is no new name either, since some spelling of it has been added.
    rcases addName_cases (spellings new) name with ⟨ha, n, hn, hf⟩ | ⟨ha, -⟩
    · obtain ⟨m, hm, hmf⟩ := exists_mem_addNames names hn
      rw [ha, ih, addName_of_mem (ih ▸ hm) (hmf.trans hf)]
    · rw [ha, addNames_append, ih]
      rfl

theorem spellings_append (h : (names.map foldName).Nodup) (new : List String) :
    spellings (names ++ new) = addNames names new := by
  rw [spellings, addNames_append, ← spellings, spellings_of_nodup h]

/-! ## Entries -/

/-- Gives names their values one after the other. -/
def setAll (entries new : Entries) : Entries :=
  new.foldl (fun entries entry => setValue entries entry.1 entry.2) entries

/-- The last value under a name. -/
def lastValue (entries : Entries) (name : String) : Option String :=
  ((entries.filter fun entry => foldName entry.1 = foldName name).getLast?).map Prod.snd

theorem hasName_eq_any (pairs : List (String × β)) (name : String) :
    hasName pairs name = (pairs.map Prod.fst).any (foldName · == foldName name) := by
  rw [hasName, List.any_map]
  rfl

theorem map_fst_setValue (entries : Entries) (name data : String) :
    (setValue entries name data).map Prod.fst = addName (entries.map Prod.fst) name := by
  rw [setValue, addName, ← hasName_eq_any]
  split
  · rw [List.map_map]
    apply List.map_congr_left
    intro entry _
    rw [Function.comp_apply]
    split <;> rfl
  · rw [List.map_append]
    rfl

theorem map_fst_setAll (entries new : Entries) :
    (setAll entries new).map Prod.fst = addNames (entries.map Prod.fst) (new.map Prod.fst) := by
  induction new generalizing entries with
  | nil => rfl
  | cons entry new ih =>
    show (setAll (setValue entries entry.1 entry.2) new).map Prod.fst = _
    rw [ih, map_fst_setValue]
    rfl

theorem lastValue_append (entries new : Entries) (name : String) :
    lastValue (entries ++ new) name = (lastValue new name).or (lastValue entries name) := by
  rw [lastValue, List.filter_append, List.getLast?_append, lastValue, lastValue]
  cases (new.filter _).getLast? <;> rfl

theorem lastValue_singleton (entry : String × String) (name : String) :
    lastValue [entry] name = if foldName entry.1 = foldName name then some entry.2 else none := by
  by_cases h : foldName entry.1 = foldName name <;> simp [lastValue, h]

theorem lastValue_eq_none (h : ∀ entry ∈ entries, foldName entry.1 ≠ foldName name) :
    lastValue entries name = none := by
  rw [lastValue, List.filter_eq_nil_iff.2 (by simpa using h)]
  rfl

theorem isSome_lastValue (entries : Entries) (name : String) :
    (lastValue entries name).isSome = hasName entries name := by
  cases h : hasName entries name with
  | false =>
    rw [lastValue_eq_none (hasName_eq_false_iff.1 h)]
    rfl
  | true =>
    obtain ⟨entry, he, hn⟩ := List.any_eq_true.1 h
    rw [lastValue, Option.isSome_map, List.getLast?_isSome]
    exact List.ne_nil_of_mem (List.mem_filter.2 ⟨he, by simpa using hn⟩)

/-- What is changed under one name is found under the same names as before. -/
theorem foldName_comp_update (name other : String) (f : β → β) :
    (fun pair : String × β => decide (foldName pair.1 = foldName other)) ∘
        (fun pair => if foldName pair.1 = foldName name then (pair.1, f pair.2) else pair) =
      fun pair => decide (foldName pair.1 = foldName other) := by
  funext pair
  rw [Function.comp_apply]
  split <;> rfl

theorem lastValue_setValue (entries : Entries) (entry : String × String) (name : String) :
    lastValue (setValue entries entry.1 entry.2) name = lastValue (entries ++ [entry]) name := by
  rw [setValue]
  split
  · next hknown =>
    rw [lastValue_append, lastValue_singleton, lastValue, List.filter_map, List.getLast?_map, Option.map_map,
      foldName_comp_update entry.1 name fun _ => entry.2, lastValue]
    cases hlast : (entries.filter fun e => foldName e.1 = foldName name).getLast? with
    | none =>
      -- The entry is known under its own name, so that this is another one.
      have hother : foldName entry.1 ≠ foldName name := by
        obtain ⟨e, he, hname⟩ := List.any_eq_true.1 hknown
        have hnot := List.filter_eq_nil_iff.1 (List.getLast?_eq_none_iff.1 hlast) e he
        rw [decide_eq_true_iff] at hnot
        rwa [← beq_iff_eq.1 hname]
      rw [if_neg hother]
      rfl
    | some last =>
      have hl : foldName last.1 = foldName name := by
        simpa using (List.mem_filter.1 (List.mem_of_getLast? hlast)).2
      by_cases hn : foldName entry.1 = foldName name
      · simp [hl, hn]
      · simp [hl, hn, Ne.symm hn]
  · rfl

theorem lastValue_setAll (entries new : Entries) (name : String) :
    lastValue (setAll entries new) name = lastValue (entries ++ new) name := by
  induction new generalizing entries with
  | nil => rw [List.append_nil]; rfl
  | cons entry new ih =>
    show lastValue (setAll (setValue entries entry.1 entry.2) new) name = _
    rw [ih, lastValue_append, lastValue_setValue, ← lastValue_append, List.append_assoc]
    rfl

theorem lastValue_of_mem (h : (entries.map fun entry => foldName entry.1).Nodup) {entry : String × String}
    (he : entry ∈ entries) (hn : foldName entry.1 = foldName name) : lastValue entries name = some entry.2 := by
  obtain ⟨before, behind, rfl⟩ := List.append_of_mem he
  rw [List.map_append, List.map_cons, List.nodup_middle, List.nodup_cons] at h
  have hbehind : lastValue behind name = none := by
    apply lastValue_eq_none
    intro other ho hon
    exact h.1 (List.mem_append_right _ (List.mem_map.2 ⟨other, ho, hon.trans hn.symm⟩))
  rw [List.append_cons, lastValue_append, hbehind, Option.none_or, lastValue_append, lastValue_singleton, if_pos hn,
    Option.some_or]

/-- Entries with different names are decided by their names and values. -/
theorem ext_lastValue (h : (entries.map fun entry => foldName entry.1).Nodup)
    (h' : (entries'.map fun entry => foldName entry.1).Nodup) (hnames : entries.map Prod.fst = entries'.map Prod.fst)
    (hvalues : ∀ name, lastValue entries name = lastValue entries' name) : entries = entries' := by
  have hself : ∀ {l : Entries}, (l.map fun entry => foldName entry.1).Nodup →
      (l.map Prod.fst).map (fun name => (name, (lastValue l name).getD "")) = l := by
    intro l hl
    rw [List.map_map]
    conv_rhs => rw [← List.map_id l]
    apply List.map_congr_left
    intro entry he
    rw [Function.comp_apply, lastValue_of_mem hl he rfl]
    rfl
  rw [← hself h, ← hself h', hnames]
  simp only [hvalues]

theorem map_foldName (pairs : List (String × β)) :
    (pairs.map fun pair => foldName pair.1) = (pairs.map Prod.fst).map foldName := by
  rw [List.map_map]
  rfl

theorem nodup_setAll (h : (entries.map fun entry => foldName entry.1).Nodup) (new : Entries) :
    ((setAll entries new).map fun entry => foldName entry.1).Nodup := by
  rw [map_foldName] at h ⊢
  rw [map_fst_setAll]
  exact nodup_addNames h _

/-- Writing into entries what has been written elsewhere is writing it at once. -/
theorem setAll_setAll (h : (entries.map fun entry => foldName entry.1).Nodup) (new : Entries) :
    setAll entries (setAll [] new) = setAll entries new := by
  apply ext_lastValue (nodup_setAll h _) (nodup_setAll h _)
  · rw [map_fst_setAll, map_fst_setAll, map_fst_setAll]
    exact addNames_spellings _ _
  · intro name
    rw [lastValue_setAll, lastValue_setAll, lastValue_append, lastValue_setAll, List.nil_append, lastValue_append]

/-! ## Sections -/

/-- The entries of the section with a name; none if there is no such section. -/
def entriesOf (outline : Outline) (name : String) : Entries :=
  ((outline.find? fun s => foldName s.1 = foldName name).map Prod.snd).getD []

theorem entriesOf_of_mem (h : (outline.map fun s => foldName s.1).Nodup) {s : String × Entries} (hs : s ∈ outline)
    (hn : foldName s.1 = foldName name) : entriesOf outline name = s.2 := by
  have hfind : outline.find? (fun s => foldName s.1 = foldName name) = some s := by
    apply find?_eq_some_of_unique hs (decide_eq_true hn)
    intro t ht htn
    exact List.inj_on_of_nodup_map h ht hs ((of_decide_eq_true htn).trans hn.symm)
  rw [entriesOf, hfind]
  rfl

theorem nodup_entriesOf (h : outline.WellFormed) (name : String) :
    ((entriesOf outline name).map fun entry => foldName entry.1).Nodup := by
  rw [entriesOf]
  cases hf : outline.find? fun s => foldName s.1 = foldName name with
  | none => exact List.nodup_nil
  | some s => exact (h.each s (List.mem_of_find?_eq_some hf)).2.1

/-- Outlines whose sections have different names are decided by the names and the entries under each. -/
theorem ext_entriesOf (h : (outline.map fun s => foldName s.1).Nodup)
    (h' : (outline'.map fun s => foldName s.1).Nodup) (hnames : outline.map Prod.fst = outline'.map Prod.fst)
    (hentries : ∀ name, entriesOf outline name = entriesOf outline' name) : outline = outline' := by
  have hself : ∀ {o : Outline}, (o.map fun s => foldName s.1).Nodup →
      (o.map Prod.fst).map (fun name => (name, entriesOf o name)) = o := by
    intro o ho
    rw [List.map_map]
    conv_rhs => rw [← List.map_id o]
    apply List.map_congr_left
    intro s hs
    rw [Function.comp_apply, entriesOf_of_mem ho hs rfl]
    rfl
  rw [← hself h, ← hself h', hnames]
  simp only [hentries]

theorem map_fst_addSection (outline : Outline) (name : String) :
    (addSection outline name).map Prod.fst = addName (outline.map Prod.fst) name := by
  rw [addSection, addName, ← hasName_eq_any]
  split
  · rfl
  · rw [List.map_append]
    rfl

theorem nodup_addSection (h : (outline.map fun s => foldName s.1).Nodup) (name : String) :
    ((addSection outline name).map fun s => foldName s.1).Nodup := by
  rw [map_foldName] at h ⊢
  rw [map_fst_addSection]
  exact nodup_addName h name

theorem map_fst_setEntry (outline : Outline) (sectionName name data : String) :
    (setEntry outline sectionName name data).map Prod.fst = outline.map Prod.fst := by
  rw [setEntry, List.map_map]
  apply List.map_congr_left
  intro s _
  rw [Function.comp_apply]
  split <;> rfl

theorem hasName_addSection (outline : Outline) (name : String) : hasName (addSection outline name) name = true := by
  unfold addSection
  split
  · assumption
  · simp [hasName]

theorem entriesOf_addSection (outline : Outline) (sectionName name : String) :
    entriesOf (addSection outline sectionName) name = entriesOf outline name := by
  unfold addSection
  split
  · rfl
  · rw [entriesOf, List.find?_append, entriesOf]
    cases outline.find? _ with
    | some s => rfl
    | none => by_cases h : foldName sectionName = foldName name <;> simp [h]

/-- What is done to the entries of one section shows under its name only. -/
theorem entriesOf_update (h : hasName outline sectionName = true) (f : Entries → Entries) (other : String) :
    entriesOf (outline.map fun s => if foldName s.1 = foldName sectionName then (s.1, f s.2) else s) other =
      if foldName sectionName = foldName other then f (entriesOf outline other) else entriesOf outline other := by
  rw [entriesOf, List.find?_map, foldName_comp_update, entriesOf]
  cases hf : outline.find? (fun s => decide (foldName s.1 = foldName other)) with
  | some s =>
    have hs : foldName s.1 = foldName other := by simpa using List.find?_some hf
    by_cases hn : foldName sectionName = foldName other <;> simp [hs, hn, eq_comm]
  | none =>
    obtain ⟨s, hs, hn⟩ := List.any_eq_true.1 h
    have hother := List.find?_eq_none.1 hf s hs
    simp_all

theorem entriesOf_setEntry (h : hasName outline sectionName = true) (name data other : String) :
    entriesOf (setEntry outline sectionName name data) other =
      if foldName sectionName = foldName other then setValue (entriesOf outline other) name data
      else entriesOf outline other :=
  entriesOf_update h (setValue · name data) other

end Outline

end IniDoc
