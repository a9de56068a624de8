import IniDoc.Proofs.Ledger

/-!
# Documents and their ledgers

A document answers every mutation as its ledger does, and shows the same names and values after it: the links of a
chain and its index do what plain lists do.

* `Section.ledger`, `Document.ledger`: the ledger of a document as it stands.
* `Section.WellFormed.ledger_insert`, `Document.WellFormed.ledger_mutate`: one step.
* `Document.trace_eq_ledger_trace`: every run.
-/

namespace IniDoc

open Text (foldName)
open Mutation (settle)

/-! ## The ledger of a section -/

/-- A key and its number as an entry of a ledger. -/
def Section.ledgerEntry (s : Section) (p : Nat × Key) : Ledger.Entry := ⟨s.keyId p.1, p.2.name, p.2.data⟩

/-- The ledger of a section. -/
def Section.ledger (s : Section) : Ledger.Section := ⟨s.id, s.name, s.keys.numbered.map s.ledgerEntry⟩

/-- Where exactly one value has a property, the others stay. -/
theorem flatMap_of_unique {β : Type} {l₁ l₂ : List β} {a : β} {p : β → Prop} [DecidablePred p] (f : β → List β)
    (ha : p a) (hu : ∀ b ∈ l₁ ++ l₂, ¬p b) :
    (l₁ ++ a :: l₂).flatMap (fun b => if p b then f b else [b]) = l₁ ++ (f a ++ l₂) := by
  have hsame : ∀ l : List β, (∀ b ∈ l, ¬p b) → l.flatMap (fun b => if p b then f b else [b]) = l := by
    intro l hl
    conv_rhs => rw [← List.flatMap_singleton' l]
    apply List.flatMap_congr
    intro b hb
    exact if_neg (hl b hb)
  rw [List.flatMap_append, List.flatMap_cons, if_pos ha, hsame l₁ fun b hb => hu b (by simp [hb]),
    hsame l₂ fun b hb => hu b (by simp [hb])]

namespace Section

variable {s : Section} {name data : String} {anchor : Option KeyId} {insertion : Insertion}

theorem map_entries_ledger (s : Section) :
    s.ledger.entries.map (fun entry => (entry.name, entry.data)) = s.entries := by
  rw [entries, ← Chain.map_snd_numbered, List.map_map, ledger, List.map_map]
  rfl

theorem mem_entries_ledger (hs : s.WellFormed) {entry : Ledger.Entry} : entry ∈ s.ledger.entries ↔
    s.key? entry.id = some ⟨entry.name, entry.data⟩ := by
  obtain ⟨id, name, data⟩ := entry
  simp only [ledger, List.mem_map, hs.keys.linked.mem_numbered, ledgerEntry, key?, keyId, Ledger.Entry.mk.injEq]
  constructor
  · rintro ⟨p, hp, rfl, rfl, rfl⟩
    rw [if_pos rfl, hp]
  · intro h
    split at h
    · next ho => exact ⟨(id.index, ⟨name, data⟩), h, by rw [← ho], rfl, rfl⟩
    · cases h

/-- The entries of the keys with the numbers of a list. -/
def ledgerEntries (s : Section) (l : List Nat) : List Ledger.Entry := (l.filterMap s.keys.numbered?).map s.ledgerEntry

theorem ledgerEntries_append (s : Section) (l l' : List Nat) :
    s.ledgerEntries (l ++ l') = s.ledgerEntries l ++ s.ledgerEntries l' := by
  rw [ledgerEntries, List.filterMap_append, List.map_append, ledgerEntries, ledgerEntries]

theorem id_ne_of_notMem {l : List Nat} {i : Nat} (hi : i ∉ l) : ∀ entry ∈ s.ledgerEntries l, entry.id ≠ s.keyId i := by
  intro entry he heq
  obtain ⟨p, hp, rfl⟩ := List.mem_map.1 he
  obtain ⟨j, hj, hp⟩ := List.mem_filterMap.1 hp
  obtain ⟨rfl, -⟩ := Chain.numbered?_eq_some_iff.1 hp
  have hindex : p.1 = i := congrArg KeyId.index heq
  exact hi (hindex ▸ hj)

/-- An own anchor has an entry, and no other entry has its handle. -/
theorem exists_anchor_entry {pre post : List Nat} {id : KeyId} (hnodup : (pre ++ id.index :: post).Nodup)
    (hid : (s.key? id).isSome) : ∃ entry : Ledger.Entry, entry.id = id ∧ s.ledgerEntries [id.index] = [entry] ∧
      ∀ other ∈ s.ledgerEntries pre ++ s.ledgerEntries post, other.id ≠ id := by
  obtain ⟨key, hk⟩ := Option.isSome_iff_exists.1 hid
  unfold key? at hk
  split at hk
  · next ho =>
    have hself : s.keyId id.index = id := by rw [keyId, ← ho]
    have hnumber : s.keys.numbered? id.index = some (id.index, key) := Chain.numbered?_eq_some_iff.2 ⟨rfl, hk⟩
    refine ⟨s.ledgerEntry (id.index, key), hself, ?_, ?_⟩
    · rw [ledgerEntries, List.filterMap_cons_some hnumber]
      rfl
    · obtain ⟨hnew, -⟩ := List.nodup_cons.1 (List.nodup_middle.1 hnodup)
      rw [← ledgerEntries_append]
      exact hself ▸ id_ne_of_notMem hnew
  · cases hk

/-- The gap that a place names in a chain is the gap that the insertion names in the ledger. -/
theorem place_ledgerEntries {pre post : List Nat} (hnodup : (pre ++ post).Nodup)
    (hp : (place insertion anchor).Between pre post) (hown : ∀ id ∈ anchor, (s.key? id).isSome) (new : Ledger.Entry) :
    Ledger.place new (s.ledgerEntries (pre ++ post)) insertion anchor =
      s.ledgerEntries pre ++ new :: s.ledgerEntries post := by
  have hfront (h : pre = []) : new :: s.ledgerEntries (pre ++ post) =
      s.ledgerEntries pre ++ new :: s.ledgerEntries post := by
    rw [h]
    rfl
  have hback (h : post = []) : s.ledgerEntries (pre ++ post) ++ [new] =
      s.ledgerEntries pre ++ new :: s.ledgerEntries post := by
    rw [h, List.append_nil]
    rfl
  cases insertion with
  | first => exact hfront hp
  | last => exact hback hp
  | before =>
    cases anchor with
    | none => exact hfront hp
    | some id =>
      -- The gap is named by what follows it, so that the anchor is the first of the back part.
      obtain ⟨post, rfl⟩ := List.head?_eq_some_iff.1 hp
      obtain ⟨entry, hid, hentry, hothers⟩ := exists_anchor_entry hnodup (hown id rfl)
      rw [ledgerEntries_append, ← List.singleton_append, ledgerEntries_append, hentry, List.singleton_append,
        Ledger.place, flatMap_of_unique (fun entry => [new, entry]) hid hothers]
      rfl
  | after =>
    cases anchor with
    | none => exact hback hp
    | some id =>
      obtain ⟨pre, rfl⟩ := List.getLast?_eq_some_iff.1 hp
      have hnodup' : (pre ++ id.index :: post).Nodup := by rwa [← List.append_cons] at hnodup
      obtain ⟨entry, hid, hentry, hothers⟩ := exists_anchor_entry hnodup' (hown id rfl)
      rw [ledgerEntries_append, ledgerEntries_append, hentry, ← List.append_cons, Ledger.place,
        flatMap_of_unique (fun entry => [entry, new]) hid hothers, List.append_assoc]
      rfl

theorem WellFormed.find?_ledger_eq_some (hs : s.WellFormed) {i : Nat} (hf : s.keys.find? name = some i) :
    ∃ entry, s.ledger.entries.find? (fun entry => foldName entry.name = foldName name) = some entry ∧
      entry.id = s.keyId i := by
  obtain ⟨key, hk, hn⟩ := (hs.keys.find?_eq_some_iff name i).1 hf
  refine ⟨s.ledgerEntry (i, key), find?_eq_some_of_unique ?_ (decide_eq_true hn) ?_, rfl⟩
  · exact List.mem_map_of_mem (hs.keys.linked.mem_numbered.2 hk)
  · intro entry he hname
    obtain ⟨p, hp, rfl⟩ := List.mem_map.1 he
    rw [hs.keys.linked.mem_numbered] at hp
    obtain rfl := hs.keys.eq_of_foldName_eq hp hk ((of_decide_eq_true hname).trans hn.symm)
    rw [← Option.some.inj (hp.symm.trans hk)]

theorem WellFormed.find?_ledger_eq_none (hs : s.WellFormed) (hf : s.keys.find? name = none) :
    s.ledger.entries.find? (fun entry => foldName entry.name = foldName name) = none := by
  rw [List.find?_eq_none]
  intro entry he hname
  obtain ⟨p, hp, rfl⟩ := List.mem_map.1 he
  have hk := hs.keys.linked.mem_toList.2 ⟨p.1, hs.keys.linked.mem_numbered.1 hp⟩
  exact (hs.keys.find?_eq_none_iff name).1 hf p.2 hk (of_decide_eq_true hname)

theorem any_isNone_iff (s : Section) (anchor : Option KeyId) :
    (anchor.any fun id => (s.key? id).isNone) = true ↔ ∃ id ∈ anchor, s.key? id = none := by
  simp only [Option.any_eq_true, Option.isNone_iff_eq_none, Option.mem_def]

/-- An anchor is no key of a section if and only if no entry of its ledger has the anchor's handle. -/
theorem WellFormed.foreign_iff (hs : s.WellFormed) (anchor : Option KeyId) :
    (∃ id ∈ anchor, s.key? id = none) ↔ ∃ id ∈ anchor, ∀ entry ∈ s.ledger.entries, entry.id ≠ id := by
  refine exists_congr fun id => and_congr_right fun _ => ?_
  rw [Option.eq_none_iff_forall_ne_some]
  constructor
  · rintro h entry he rfl
    exact h _ ((mem_entries_ledger hs).1 he)
  · intro h key hk
    exact h ⟨id, key.name, key.data⟩ ((mem_entries_ledger hs).2 hk) rfl

/-- A known key changes in its ledger's list where it stands. -/
theorem WellFormed.ledger_modify (hs : s.WellFormed) {i : Nat} (hf : s.keys.find? name = some i) (data : String) :
    ledger { s with keys := s.keys.modify i ({ · with data }) } = { s.ledger with
      entries := s.ledger.entries.map fun entry =>
        if foldName entry.name = foldName name then { entry with data } else entry } := by
  obtain ⟨key, hk, hn⟩ := (hs.keys.find?_eq_some_iff name i).1 hf
  let update : Key → Key := ({ · with data })
  show Ledger.Section.mk _ _ ((s.keys.modify i update).numbered.map _) = _
  rw [hs.keys.numbered_modify hk update, hn, List.map_map]
  simp only [ledger, List.map_map]
  congr 1
  apply List.map_congr_left
  intro p _
  have hname : (s.ledgerEntry p).name = p.2.name := rfl
  rw [Function.comp_apply, Function.comp_apply, hname]
  by_cases hp : foldName p.2.name = foldName name
  · rw [if_pos hp, if_pos hp]
    rfl
  · rw [if_neg hp, if_neg hp]
    rfl

/-- A new key stands in its ledger's list where the insertion says. -/
theorem WellFormed.ledger_put (hs : s.WellFormed) (hown : ∀ id ∈ anchor, (s.key? id).isSome)
    (ha : s.keys.hasAnchor (place insertion anchor) = true) (key : Key) :
    ledger { s with keys := s.keys.put key.name key (place insertion anchor) } = { s.ledger with
      entries := Ledger.place (s.ledgerEntry (s.keys.size, key)) s.ledger.entries insertion anchor } := by
  obtain ⟨pre, post, hl, hp⟩ := hs.keys.linked.exists_between ha
  have hlink : s.keys.Linked (pre ++ post) := hl ▸ hs.keys.linked
  have hentries : s.ledger.entries = s.ledgerEntries (pre ++ post) := by
    rw [ledger, hlink.numbered_eq, ledgerEntries]
  rw [hentries, place_ledgerEntries hlink.nodup hp hown]
  show Ledger.Section.mk _ _ ((s.keys.put key.name key (place insertion anchor)).numbered.map _) = _
  rw [hlink.numbered_put hp, List.map_append]
  rfl

/-- The place next to an own anchor is one that the chain of keys has. -/
theorem hasAnchor_place (insertion : Insertion) (hown : ∀ id ∈ anchor, (s.key? id).isSome) :
    s.keys.hasAnchor (place insertion anchor) = true := by
  have hindex : ∀ id ∈ anchor, id.index < s.keys.size := by
    intro id hid
    obtain ⟨key, hk⟩ := Option.isSome_iff_exists.1 (hown id hid)
    unfold key? at hk
    split at hk
    · exact Chain.lt_size_of_get? hk
    · cases hk
  cases insertion <;> cases anchor <;> simp_all [place, Chain.hasAnchor]

/-- An insertion into a section is the insertion into its ledger. -/
theorem WellFormed.ledger_insert (hs : s.WellFormed) (anchor : Option KeyId) (insertion : Insertion)
    (name data : String) :
    (s.insert anchor insertion name data).map (fun (id, changed) => (id, changed.ledger)) =
      s.ledger.insert anchor insertion name data := by
  unfold Section.insert Ledger.Section.insert
  simp only [String.isEmpty_iff, any_isNone_iff, hs.foreign_iff]
  by_cases hn : name = ""
  · rw [if_pos hn, if_pos hn]
    rfl
  rw [if_neg hn, if_neg hn]
  by_cases hd : data = ""
  · rw [if_pos hd, if_pos hd]
    rfl
  rw [if_neg hd, if_neg hd]
  by_cases ha : ∃ id ∈ anchor, ∀ entry ∈ s.ledger.entries, entry.id ≠ id
  · rw [if_pos ha, if_pos ha]
    rfl
  rw [if_neg ha, if_neg ha]
  cases hf : s.keys.find? name with
  | some i =>
    obtain ⟨entry, hentry, hid⟩ := hs.find?_ledger_eq_some hf
    rw [hentry]
    show Except.ok (s.keyId i, ledger _) = Except.ok (entry.id, _)
    rw [hs.ledger_modify hf, hid]
  | none =>
    have hown : ∀ id ∈ anchor, (s.key? id).isSome := by
      rw [← hs.foreign_iff] at ha
      intro id hid
      rw [Option.isSome_iff_ne_none]
      intro hk
      exact ha ⟨id, hid, hk⟩
    have hanchor := hasAnchor_place insertion hown
    have hsize : s.ledger.entries.length = s.keys.size := by
      rw [ledger, List.length_map, hs.keys.linked.length_numbered]
    rw [hs.find?_ledger_eq_none hf, Chain.insert, if_pos hanchor, hsize]
    show Except.ok (s.keyId s.keys.size, ledger _) = _
    rw [hs.ledger_put hown hanchor ⟨name, data⟩]
    rfl

theorem WellFormed.insert_eq_error_iff (hs : s.WellFormed) (anchor : Option KeyId) (insertion : Insertion)
    (name data : String) : (∃ cause, s.insert anchor insertion name data = .error cause) ↔
      name = "" ∨ data = "" ∨ ∃ id ∈ anchor, s.key? id = none := by
  rw [hs.foreign_iff, ← Ledger.Section.insert_eq_error_iff s.ledger anchor insertion, ← hs.ledger_insert]
  cases s.insert anchor insertion name data <;> simp [Except.map]

end Section

/-! ## The ledger of a document -/

namespace Document

variable {d : Document}

/-- The ledger of a document. -/
def ledger (d : Document) : Ledger := ⟨d.id, d.sections.toList.map Section.ledger⟩

theorem contents_ledger (d : Document) : d.ledger.contents = d.contents := by
  rw [Ledger.contents, ledger, List.map_map, contents]
  apply List.map_congr_left
  intro s _
  show (s.name, s.ledger.entries.map _) = _
  rw [s.map_entries_ledger]

theorem length_ledger (hd : d.WellFormed) : d.ledger.sections.length = d.size := by
  rw [ledger, List.length_map, ← Chain.map_snd_numbered, List.length_map, hd.sections.linked.length_numbered, size]

theorem mem_toList_iff (hd : d.WellFormed) {s : Section} : s ∈ d.sections.toList ↔ d.section? s.id = some s := by
  rw [hd.sections.linked.mem_toList]
  constructor
  · rintro ⟨i, hi⟩
    rw [(hd.each i s hi).1, section?_sectionId, hi]
  · intro h
    exact ⟨s.id.index, (section?_eq_some_iff.1 h).2⟩

theorem find?_ledger_id (hd : d.WellFormed) (owner : SectionId) :
    d.ledger.sections.find? (·.id = owner) = (d.section? owner).map Section.ledger := by
  cases hs : d.section? owner with
  | some s =>
    have hid := id_of_section? hd hs
    apply find?_eq_some_of_unique
    · exact List.mem_map_of_mem ((mem_toList_iff hd).2 (hid ▸ hs))
    · exact decide_eq_true hid
    · intro t ht htid
      obtain ⟨s', hs', rfl⟩ := List.mem_map.1 ht
      have hs'id : s'.id = owner := of_decide_eq_true htid
      rw [mem_toList_iff hd, hs'id, hs] at hs'
      rw [Option.some.inj hs']
  | none =>
    apply List.find?_eq_none.2
    intro t ht htid
    obtain ⟨s', hs', rfl⟩ := List.mem_map.1 ht
    have hs'id : s'.id = owner := of_decide_eq_true htid
    rw [mem_toList_iff hd, hs'id, hs] at hs'
    cases hs'

theorem find?_ledger_name (hd : d.WellFormed) (name : String) :
    d.ledger.sections.find? (fun s => foldName s.name = foldName name) = (d.named? name).map Section.ledger := by
  rw [named?]
  cases hf : d.sections.find? name with
  | some i =>
    obtain ⟨s, hs, hn⟩ := (hd.sections.find?_eq_some_iff name i).1 hf
    rw [Option.bind_some, hs]
    apply find?_eq_some_of_unique
    · exact List.mem_map_of_mem (hd.sections.linked.mem_toList.2 ⟨i, hs⟩)
    · exact decide_eq_true hn
    · intro t ht htn
      obtain ⟨s', hs', rfl⟩ := List.mem_map.1 ht
      obtain ⟨j, hj⟩ := hd.sections.linked.mem_toList.1 hs'
      obtain rfl := hd.sections.eq_of_foldName_eq hj hs ((of_decide_eq_true htn).trans hn.symm)
      rw [Option.some.inj (hj.symm.trans hs)]
  | none =>
    apply List.find?_eq_none.2
    intro t ht htn
    obtain ⟨s', hs', rfl⟩ := List.mem_map.1 ht
    exact (hd.sections.find?_eq_none_iff name).1 hf s' hs' (of_decide_eq_true htn)

/-- Adding a section to a document is adding it to its ledger. -/
theorem WellFormed.ledger_addSection (hd : d.WellFormed) (name : String) :
    (d.addSection name).map (fun (id, changed) => (id, changed.ledger)) = d.ledger.addSection name := by
  unfold addSection Ledger.addSection
  simp only [String.isEmpty_iff]
  by_cases hn : name = ""
  · rw [if_pos hn, if_pos hn]
    rfl
  rw [if_neg hn, if_neg hn, find?_ledger_name hd, named?]
  cases hf : d.sections.find? name with
  | some i =>
    obtain ⟨s, hs, -⟩ := (hd.sections.find?_eq_some_iff name i).1 hf
    rw [Option.bind_some, hs]
    show Except.ok (d.sectionId i, d.ledger) = Except.ok (s.id, d.ledger)
    rw [(hd.each i s hs).1]
  | none =>
    rw [Option.bind_none, Option.map_none, length_ledger hd]
    show Except.ok (_, Ledger.mk _ ((d.sections.put name _ .back).toList.map _)) = _
    rw [Chain.toList_put_back hd.sections.linked, List.map_append]
    rfl

/-- A change of a section is a change of its ledger in the list of sections. -/
theorem WellFormed.ledger_putSection (hd : d.WellFormed) {owner : SectionId} {s changed : Section}
    (hs : d.section? owner = some s) (hid : changed.id = s.id) :
    (d.putSection changed).ledger = { d.ledger with
      sections := d.ledger.sections.map fun t => if t.id = owner then changed.ledger else t } := by
  have hg := (section?_eq_some_iff.1 hs).2
  have howner := id_of_section? hd hs
  rw [ledger, putSection, hid, howner]
  simp only
  rw [hd.sections.toList_modify hg, ledger, List.map_map, List.map_map]
  congr 1
  apply List.map_congr_left
  intro t ht
  have hsame : foldName t.name = foldName s.name ↔ t.ledger.id = owner := by
    show _ ↔ t.id = owner
    constructor
    · intro hn
      obtain ⟨j, hj⟩ := hd.sections.linked.mem_toList.1 ht
      obtain rfl := hd.sections.eq_of_foldName_eq hj hg hn
      rw [(hd.each _ t hj).1, ← (section?_eq_some_iff.1 hs).1]
    · intro hto
      rw [mem_toList_iff hd, hto, hs] at ht
      rw [Option.some.inj ht]
  rw [Function.comp_apply, Function.comp_apply]
  by_cases hn : foldName t.name = foldName s.name
  · rw [if_pos hn, if_pos (hsame.1 hn)]
  · rw [if_neg hn, if_neg (mt hsame.2 hn)]

/-- An insertion into a section of a document is the insertion into its ledger. -/
theorem WellFormed.ledger_insert (hd : d.WellFormed) (owner : SectionId) (anchor : Option KeyId)
    (insertion : Insertion) (name data : String) :
    (d.updateSection owner (·.insert anchor insertion name data)).map
        (·.map fun (id, changed) => (id, changed.ledger)) =
      d.ledger.insert owner anchor insertion name data := by
  rw [updateSection, Ledger.insert, find?_ledger_id hd]
  cases hs : d.section? owner with
  | none => rfl
  | some s =>
    have hw := hd.of_section? hs
    rw [Option.map_some, Option.map_some, Option.map_some, Option.map_some, ← hw.ledger_insert]
    cases he : s.insert anchor insertion name data with
    | error cause => rfl
    | ok r =>
      show some (Except.ok (r.1, (d.putSection r.2).ledger)) = _
      rw [hd.ledger_putSection hs (Section.id_insert he)]
      rfl

/-- A document answers a call as its ledger does, and its ledger after the call is what the call makes of it. -/
theorem WellFormed.ledger_mutate (hd : d.WellFormed) (m : Mutation) :
    d.ledger.mutate m = ((d.mutate m).1, (d.mutate m).2.ledger) := by
  cases m with
  | addSection name =>
    rw [Ledger.mutate, ← hd.ledger_addSection name]
    exact Mutation.settle_map .inl ledger d (some (d.addSection name))
  | addKey owner name data =>
    rw [Ledger.mutate, ← hd.ledger_insert owner]
    exact Mutation.settle_map .inr ledger d _
  | insertKey owner anchor insertion name data =>
    rw [Ledger.mutate, ← hd.ledger_insert owner]
    exact Mutation.settle_map .inr ledger d _

/-! ## Runs of mutations -/

theorem settle_snd {β : Type} (handle : β → SectionId ⊕ KeyId) (d : Document)
    (r : Option (Except Error (β × Document))) : (settle handle d r).2 = d.orKeep r := by
  rcases r with _ | (_ | _) <;> rfl

theorem WellFormed.mutate (hd : d.WellFormed) (m : Mutation) : (d.mutate m).2.WellFormed := by
  have hedit : ∃ edit, (d.mutate m).2 = d.apply edit := by
    cases m with
    | addSection name => exact ⟨.addSection name, settle_snd _ d _⟩
    | addKey owner name data => exact ⟨.addKey owner name data, settle_snd _ d _⟩
    | insertKey owner anchor insertion name data =>
      exact ⟨.insertKey owner anchor insertion name data, settle_snd _ d _⟩
  obtain ⟨edit, he⟩ := hedit
  exact he ▸ wellFormed_apply hd edit

theorem WellFormed.trace_ledger (hd : d.WellFormed) (mutations : List Mutation) :
    Mutation.trace Document.mutate contents d mutations =
      Mutation.trace Ledger.mutate Ledger.contents d.ledger mutations := by
  induction mutations generalizing d with
  | nil => rfl
  | cons m mutations ih =>
    rw [Mutation.trace_cons, Mutation.trace_cons, hd.ledger_mutate m, contents_ledger, ih (hd.mutate m)]

/-- However a document was made, it answers every run of mutations as its ledger does, and after each of them it shows
what the ledger shows. A refused mutation changes nothing, and an insertion is refused exactly without a name, without
a value, or with an anchor that is no key of this very section. -/
theorem trace_eq_ledger_trace (id : Nat) (edits : List Edit) (mutations : List Mutation) :
    let d := (empty id).run edits
    Mutation.trace mutate contents d mutations =
        Mutation.trace Ledger.mutate Ledger.contents d.ledger mutations ∧
      d.ledger.contents = d.contents ∧
      (∀ m cause, (d.mutate m).1 = some (.error cause) → (d.mutate m).2 = d) ∧
      ∀ owner s, d.section? owner = some s → ∀ anchor insertion name data,
        ((∃ cause, (d.mutate (.insertKey owner anchor insertion name data)).1 = some (.error cause)) ↔
          name = "" ∨ data = "" ∨ ∃ id ∈ anchor, s.key? id = none) := by
  intro d
  have hd : d.WellFormed := wellFormed_run (wellFormed_empty id) edits
  refine ⟨hd.trace_ledger mutations, contents_ledger d, ?_, ?_⟩
  · intro m cause h
    cases m <;> exact Mutation.settle_refused h
  · intro owner s hs anchor insertion name data
    have hs' : s.WellFormed := (hd.each _ s (section?_eq_some_iff.1 hs).2).2.2
    rw [← hs'.insert_eq_error_iff anchor insertion, mutate, updateSection, hs, Option.map_some]
    cases s.insert anchor insertion name data <;> simp [Except.map, settle]

end Document

end IniDoc
