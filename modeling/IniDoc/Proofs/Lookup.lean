import IniDoc.Proofs.Handles

/-!
# Looking up by name

The index, the values and the links of a chain are changed apart from each other. A lookup through the index still finds
what a walk along the links meets under the name, and a walk meets no name twice.

* `Chain.search`: the walk.
* `Chain.WellFormed.toList_find?`: the lookup finds the one value of the walk, if there is one.
* `Chain.size_put`, `Section.size_insert`, `Document.size_addSection`: what an operation does to the number of values.
* `Document.lookup_eq_search`: all lookups of all documents that edits can build.
-/

namespace IniDoc

open Text (foldName)

/-- Where the values of a function are pairwise different, one element has each. -/
theorem filter_eq_singleton_of_nodup_map {β γ : Type} [DecidableEq γ] {l : List β} {f : β → γ} (h : (l.map f).Nodup)
    {a : β} (ha : a ∈ l) : l.filter (fun b => f b = f a) = [a] := by
  obtain ⟨l₁, l₂, rfl⟩ := List.append_of_mem ha
  rw [List.map_append, List.map_cons, List.nodup_middle, List.nodup_cons, ← List.map_append] at h
  have hothers : (l₁ ++ l₂).filter (fun b => f b = f a) = [] := by
    rw [List.filter_eq_nil_iff]
    intro b hb hfb
    exact h.1 (List.mem_map.2 ⟨b, hb, of_decide_eq_true hfb⟩)
  rw [List.filter_append, List.append_eq_nil_iff] at hothers
  rw [List.filter_append, hothers.1, List.nil_append, List.filter_cons_of_pos (by simp), hothers.2]

/-! ## Chains -/

namespace Chain

variable {α : Type} {chain : Chain α} {nameOf : α → String} {l : List Nat}

/-- The values that a walk through the order meets under a name, whatever its case. -/
def search (nameOf : α → String) (chain : Chain α) (name : String) : List α :=
  chain.toList.filter fun v => foldName (nameOf v) = foldName name

/-- A name leads to the one value that a walk meets under it, or to none when a walk meets none. -/
theorem WellFormed.toList_find? (h : chain.WellFormed nameOf) (name : String) :
    ((chain.find? name).bind chain.get?).toList = chain.search nameOf name := by
  rw [search]
  cases hf : chain.find? name with
  | none =>
    symm
    rw [Option.bind_none, Option.toList_none, List.filter_eq_nil_iff]
    intro v hv hn
    exact (h.find?_eq_none_iff name).1 hf v hv (of_decide_eq_true hn)
  | some i =>
    obtain ⟨v, hv, hn⟩ := (h.find?_eq_some_iff name i).1 hf
    rw [Option.bind_some, hv, Option.toList_some, ← hn]
    exact (filter_eq_singleton_of_nodup_map h.nodup_names (h.linked.mem_toList.2 ⟨i, hv⟩)).symm

theorem WellFormed.head?_search (h : chain.WellFormed nameOf) (name : String) :
    (chain.search nameOf name).head? = (chain.find? name).bind chain.get? := by
  rw [← h.toList_find?, Option.head?_toList]

/-- A name that is found has a value. -/
theorem WellFormed.exists_of_find? (h : chain.WellFormed nameOf) {name : String} {i : Nat}
    (hf : chain.find? name = some i) : ∃ v, chain.get? i = some v ∧ chain.search nameOf name = [v] := by
  obtain ⟨v, hv, -⟩ := (h.find?_eq_some_iff name i).1 hf
  refine ⟨v, hv, ?_⟩
  rw [← h.toList_find?, hf, Option.bind_some, hv, Option.toList_some]

end Chain

/-! ## Sections -/

namespace Section

variable {s changed : Section} {name data : String} {anchor : Option KeyId} {insertion : Insertion} {id : KeyId}

/-- The handle under a name is that of the one key that a walk meets. -/
theorem WellFormed.map_key?_find? (hs : s.WellFormed) (name : String) :
    (s.find? name).toList.map s.key? = (s.keys.search Key.name name).map some := by
  rw [find?]
  cases hf : s.keys.find? name with
  | none => rw [← hs.keys.toList_find?, hf]; rfl
  | some i =>
    obtain ⟨key, hk, hsearch⟩ := hs.keys.exists_of_find? hf
    rw [hsearch, Option.map_some, Option.toList_some, List.map_singleton, List.map_singleton, key?_keyId, hk]

theorem WellFormed.value_eq_search (hs : s.WellFormed) (name : String) :
    s.value name = match (s.keys.search Key.name name).head? with
      | some key => .ok key.data
      | none => .error .keyNotFound := by
  rw [hs.keys.head?_search]
  rfl

/-- An insertion makes one key more if and only if the name was not found. -/
theorem size_insert (h : s.insert anchor insertion name data = .ok (id, changed)) :
    changed.size = if s.find? name = none then s.size + 1 else s.size := by
  rw [find?]
  obtain ⟨-, -, ⟨i, hf, -, rfl⟩ | ⟨hf, -, -, rfl⟩⟩ := insert_cases h
  · rw [hf]
    exact Chain.size_modify s.keys i _
  · rw [hf]
    exact Chain.size_put s.keys name _ _

end Section

/-! ## Documents -/

namespace Document

variable {d : Document} {name : String}

theorem WellFormed.toList_named? (hd : d.WellFormed) (name : String) :
    (d.named? name).toList = d.sections.search Section.name name :=
  hd.sections.toList_find? name

/-- The handle under a name is that of the one section that a walk meets. -/
theorem WellFormed.toList_find? (hd : d.WellFormed) (name : String) :
    (d.find? name).toList = (d.sections.search Section.name name).map Section.id := by
  rw [find?]
  cases hf : d.sections.find? name with
  | none => rw [← hd.sections.toList_find?, hf]; rfl
  | some i =>
    obtain ⟨s, hs, hsearch⟩ := hd.sections.exists_of_find? hf
    rw [hsearch, List.map_singleton, (hd.each i s hs).1]
    rfl

/-- Editing the section with a name is editing, by its handle, the one section that a walk meets. -/
theorem WellFormed.updateNamed_eq (hd : d.WellFormed) (name : String) {β : Type}
    (edit : Section → Except Error (β × Section)) :
    d.updateNamed name edit =
      (d.sections.search Section.name name).head?.bind fun s => d.updateSection s.id edit := by
  rw [hd.sections.head?_search, updateNamed, named?]
  cases hs : (d.sections.find? name).bind d.sections.get? with
  | none => rfl
  | some s =>
    have hmem : s ∈ d.sections.search Section.name name := by
      rw [← hd.sections.toList_find?, hs, Option.toList_some]
      exact List.mem_singleton_self s
    rw [Option.map_some, Option.bind_some, updateSection, (mem_toList_iff hd).1 (List.mem_of_mem_filter hmem),
      Option.map_some]

/-- A named section can always be added. That makes one section more if and only if the name was not found. -/
theorem size_addSection (d : Document) (hn : name ≠ "") : ∃ id d', d.addSection name = .ok (id, d') ∧
    d'.size = if d.find? name = none then d.size + 1 else d.size := by
  unfold addSection
  rw [if_neg (by simpa using hn), find?]
  cases hf : d.sections.find? name with
  | some i => exact ⟨_, _, rfl, rfl⟩
  | none => exact ⟨_, _, rfl, Chain.size_put d.sections name _ .back⟩

/-- A named value can always be added to a section. That makes one key more in it if and only if the name was not
found. -/
theorem WellFormed.size_add (hd : d.WellFormed) {s : Section} (hs : d.section? s.id = some s) {data : String}
    (hn : name ≠ "") (hdata : data ≠ "") :
    ∃ k d' s', d.updateSection s.id (·.add name data) = some (.ok (k, d')) ∧ d'.section? s.id = some s' ∧
      s'.size = if s.find? name = none then s.size + 1 else s.size := by
  obtain ⟨k, s', ha, -⟩ := (hd.of_section? hs).exists_add hn hdata
  refine ⟨k, d.putSection s', s', ?_, section?_putSection hd hs (Section.id_insert ha), Section.size_insert ha⟩
  rw [updateSection, hs, Option.map_some, ha]
  rfl

/-- However a document was made, no two of its sections and no two keys of a section have the same name, whatever its
case, and every lookup by name finds the one that a walk meets. Adding under a name makes one more if and only if the
name was not found. -/
theorem lookup_eq_search (id : Nat) (edits : List Edit) :
    let d := (empty id).run edits
    (d.sections.toList.map fun s => foldName s.name).Nodup ∧ d.size = d.sections.toList.length ∧
      (∀ name,
        (d.find? name).toList = (d.sections.search Section.name name).map Section.id ∧
        (d.named? name).toList = d.sections.search Section.name name ∧
        (∀ (β : Type) (edit : Section → Except Error (β × Section)), d.updateNamed name edit =
          (d.sections.search Section.name name).head?.bind fun s => d.updateSection s.id edit) ∧
        (name ≠ "" → ∃ i d', d.addSection name = .ok (i, d') ∧
          d'.size = if d.find? name = none then d.size + 1 else d.size)) ∧
      ∀ s ∈ d.sections.toList, d.section? s.id = some s ∧
        (s.keys.toList.map fun key => foldName key.name).Nodup ∧ s.size = s.keys.toList.length ∧
        ∀ name,
          (s.find? name).toList.map s.key? = (s.keys.search Key.name name).map some ∧
          (s.value name = match (s.keys.search Key.name name).head? with
            | some key => .ok key.data
            | none => .error .keyNotFound) ∧
          ∀ data, name ≠ "" → data ≠ "" → ∃ k d' s',
            d.updateSection s.id (·.add name data) = some (.ok (k, d')) ∧ d'.section? s.id = some s' ∧
              s'.size = if s.find? name = none then s.size + 1 else s.size := by
  intro d
  have hd : d.WellFormed := wellFormed_run (wellFormed_empty id) edits
  refine ⟨hd.sections.nodup_names, hd.sections.linked.length_toList.symm, ?_, ?_⟩
  · intro name
    exact ⟨hd.toList_find? name, hd.toList_named? name, fun β edit => hd.updateNamed_eq name edit, size_addSection d⟩
  · intro s hmem
    have hs : d.section? s.id = some s := (mem_toList_iff hd).1 hmem
    have hw := hd.of_section? hs
    refine ⟨hs, hw.keys.nodup_names, hw.keys.linked.length_toList.symm, fun name => ⟨hw.map_key?_find? name,
      hw.value_eq_search name, ?_⟩⟩
    intro data hn hdata
    exact hd.size_add hs hn hdata

end Document

end IniDoc
