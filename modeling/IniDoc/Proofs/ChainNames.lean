import IniDoc.Proofs.ChainOrder

/-!
# The names of a chain

A chain whose index has exactly the names of its values finds every value by its name, and what the operations do
to it can be said of the list of its values.

* `Chain.WellFormed`: the links run through the order, and the index belongs to the values.
* `Chain.WellFormed.find?_eq_some_iff`, `Chain.WellFormed.find?_eq_none_iff`: looking up a name.
* `Chain.WellFormed.put`, `Chain.WellFormed.modify`: the operations keep this.
* `Chain.toList_put`, `Chain.WellFormed.toList_modify`: the values after an operation.
* `Chain.Linked.numbered_put`, `Chain.WellFormed.numbered_modify`: the same with the number next to each value.
-/

namespace IniDoc.Chain

open Text (foldName)

variable {α : Type} {chain : Chain α} {nameOf : α → String} {i j : Nat} {v w : α} {l pre post : List Nat}

/-- The links run through the order, and the index takes the names of the values, and no others, to their numbers. -/
structure WellFormed (nameOf : α → String) (chain : Chain α) : Prop where
  linked : chain.Linked chain.order
  index : ∀ folded i, chain.index[folded]? = some i ↔ ∃ v, chain.get? i = some v ∧ foldName (nameOf v) = folded

/-! ## Values after a change -/

theorem get?_eq_none_iff (chain : Chain α) (i : Nat) : chain.get? i = none ↔ chain.size ≤ i := by
  simp [get?, size]

theorem lt_size_of_get? (h : chain.get? i = some v) : i < chain.size := by
  by_contra hi
  rw [(get?_eq_none_iff chain i).2 (by omega)] at h
  cases h

/-- A change of links leaves the values. -/
theorem map_value_modify (nodes : Array (Node α)) (i j : Nat) {f : Node α → Node α}
    (hf : ∀ node, (f node).value = node.value) : (nodes.modify i f)[j]?.map (·.value) = nodes[j]?.map (·.value) := by
  rw [Array.getElem?_modify]
  split
  · rw [Option.map_map]
    exact congrArg (nodes[j]?.map ·) (funext hf)
  · rfl

theorem get?_linkBefore (chain : Chain α) (i a j : Nat) : (chain.linkBefore i a).get? j = chain.get? j := by
  cases h : chain.prev? a with
  | none =>
    simp only [linkBefore, h, get?]
    rw [map_value_modify, map_value_modify]
    all_goals exact fun _ => rfl
  | some p =>
    simp only [linkBefore, h, get?]
    rw [map_value_modify, map_value_modify, map_value_modify]
    all_goals exact fun _ => rfl

theorem get?_linkBehind (chain : Chain α) (i a j : Nat) : (chain.linkBehind i a).get? j = chain.get? j := by
  cases h : chain.next? a with
  | none =>
    simp only [linkBehind, h, get?]
    rw [map_value_modify, map_value_modify]
    all_goals exact fun _ => rfl
  | some n =>
    simp only [linkBehind, h, get?]
    rw [map_value_modify, map_value_modify, map_value_modify]
    all_goals exact fun _ => rfl

theorem index_linkBefore (chain : Chain α) (i a : Nat) : (chain.linkBefore i a).index = chain.index := by
  cases h : chain.prev? a <;> simp [linkBefore, h]

theorem index_linkBehind (chain : Chain α) (i a : Nat) : (chain.linkBehind i a).index = chain.index := by
  cases h : chain.next? a <;> simp [linkBehind, h]

/-- Linking a number changes neither the values nor the index. -/
theorem get?_link (chain : Chain α) (i : Nat) (place : Place) (j : Nat) :
    (chain.link i place).get? j = chain.get? j := by
  unfold link
  split
  · cases place <;> simp [get?_linkBefore, get?_linkBehind]
  · rfl

theorem index_link (chain : Chain α) (i : Nat) (place : Place) : (chain.link i place).index = chain.index := by
  unfold link
  split
  · cases place <;> simp [index_linkBefore, index_linkBehind]
  · rfl

theorem size_link (chain : Chain α) (i : Nat) (place : Place) : (chain.link i place).size = chain.size := by
  unfold link
  split
  · cases place <;> simp
  · rfl

/-- Putting a value in makes one value more. -/
theorem size_put (chain : Chain α) (name : String) (v : α) (place : Place) :
    (chain.put name v place).size = chain.size + 1 := by
  rw [put, size_link, size_register]

theorem get?_put (chain : Chain α) (name : String) (v : α) (place : Place) (i : Nat) :
    (chain.put name v place).get? i = if i = chain.size then some v else chain.get? i := by
  rw [put, get?_link]
  simp only [register, get?, size, Array.getElem?_push]
  by_cases hi : i = chain.nodes.size <;> simp [hi]

theorem getElem?_index_put (chain : Chain α) (name : String) (v : α) (place : Place) (folded : String) :
    (chain.put name v place).index[folded]? =
      if foldName name = folded then some chain.size else chain.index[folded]? := by
  rw [put, index_link, register, Std.TreeMap.getElem?_insert]
  simp

theorem get?_modify (chain : Chain α) (i : Nat) (f : α → α) (j : Nat) :
    (chain.modify i f).get? j = if j = i then (chain.get? j).map f else chain.get? j := by
  simp only [modify, get?, Array.getElem?_modify]
  by_cases h : j = i
  · rw [if_pos h.symm, if_pos h, Option.map_map, Option.map_map]
    rfl
  · rw [if_neg (Ne.symm h), if_neg h]

@[simp] theorem next?_modify (chain : Chain α) (i : Nat) (f : α → α) (j : Nat) :
    (chain.modify i f).next? j = chain.next? j := by
  simp [modify, next?, bind_modify]

@[simp] theorem prev?_modify (chain : Chain α) (i : Nat) (f : α → α) (j : Nat) :
    (chain.modify i f).prev? j = chain.prev? j := by
  simp [modify, prev?, bind_modify]

@[simp] theorem size_modify (chain : Chain α) (i : Nat) (f : α → α) : (chain.modify i f).size = chain.size := by
  simp [modify, size]

theorem Linked.modify (h : chain.Linked l) (i : Nat) (f : α → α) : (chain.modify i f).Linked l where
  nodup := h.nodup
  mem_iff := by simpa using h.mem_iff
  head := h.head
  tail := h.tail
  links := h.links.imp fun _ _ hf => ⟨by simpa using hf.1, by simpa using hf.2⟩
  first := by simpa using h.first
  last := by simpa using h.last

/-! ## The values in order -/

theorem Linked.toList_eq (h : chain.Linked l) : chain.toList = l.filterMap chain.get? := by
  rw [toList, h.order_eq]

theorem Linked.mem_toList (h : chain.Linked l) : v ∈ chain.toList ↔ ∃ i, chain.get? i = some v := by
  rw [h.toList_eq, List.mem_filterMap]
  constructor
  · rintro ⟨i, -, hv⟩
    exact ⟨i, hv⟩
  · rintro ⟨i, hv⟩
    exact ⟨i, (h.mem_iff i).2 (lt_size_of_get? hv), hv⟩

/-- A new value stands between the values that were around its gap. -/
theorem toList_put (h : chain.Linked (pre ++ post)) {place : Place} (hp : place.Between pre post) (name : String)
    (v : α) :
    (chain.put name v place).toList = pre.filterMap chain.get? ++ v :: post.filterMap chain.get? := by
  have hold : ∀ i ∈ pre ++ post, (chain.put name v place).get? i = chain.get? i := by
    intro i hi
    rw [get?_put, if_neg (h.ne_size hi)]
  rw [(h.put hp name v).toList_eq, List.filterMap_append,
    List.filterMap_cons_some (by rw [get?_put, if_pos rfl] : (chain.put name v place).get? chain.size = some v),
    List.filterMap_congr fun i hi => hold i (List.mem_append_left _ hi),
    List.filterMap_congr fun i hi => hold i (List.mem_append_right _ hi)]

theorem toList_put_back (h : chain.Linked l) (name : String) (v : α) :
    (chain.put name v .back).toList = chain.toList ++ [v] := by
  have hl : chain.Linked (l ++ []) := by rwa [List.append_nil]
  rw [toList_put hl (show Place.back.Between l [] from rfl), List.filterMap_nil, h.toList_eq]

/-! ## Looking up -/

theorem linked_empty : (empty : Chain α).Linked [] where
  nodup := List.nodup_nil
  mem_iff := by simp [empty, size]
  head := rfl
  tail := rfl
  links := List.isChain_nil
  first := by simp
  last := by simp

theorem wellFormed_empty (nameOf : α → String) : (empty : Chain α).WellFormed nameOf where
  linked := linked_empty
  index := by simp [empty, get?]

namespace WellFormed

theorem find?_eq_some_iff (h : chain.WellFormed nameOf) (name : String) (i : Nat) :
    chain.find? name = some i ↔ ∃ v, chain.get? i = some v ∧ foldName (nameOf v) = foldName name :=
  h.index _ i

/-- Only one value has a name. -/
theorem eq_of_foldName_eq (h : chain.WellFormed nameOf) (hi : chain.get? i = some v) (hj : chain.get? j = some w)
    (hn : foldName (nameOf v) = foldName (nameOf w)) : i = j := by
  have := (h.find?_eq_some_iff (nameOf w) i).2 ⟨v, hi, hn⟩
  rw [(h.find?_eq_some_iff (nameOf w) j).2 ⟨w, hj, rfl⟩] at this
  exact (Option.some.inj this).symm

theorem find?_eq_none_iff (h : chain.WellFormed nameOf) (name : String) :
    chain.find? name = none ↔ ∀ v ∈ chain.toList, foldName (nameOf v) ≠ foldName name := by
  rw [Option.eq_none_iff_forall_ne_some]
  constructor
  · intro hf v hv hn
    obtain ⟨i, hi⟩ := h.linked.mem_toList.1 hv
    exact hf i ((h.find?_eq_some_iff name i).2 ⟨v, hi, hn⟩)
  · intro hv i hf
    obtain ⟨v, hi, hn⟩ := (h.find?_eq_some_iff name i).1 hf
    exact hv v (h.linked.mem_toList.2 ⟨i, hi⟩) hn

/-- The names in order are pairwise different. -/
theorem nodup_names (h : chain.WellFormed nameOf) : (chain.toList.map fun v => foldName (nameOf v)).Nodup := by
  have hnodup := h.linked.nodup
  rw [toList, List.map_filterMap]
  apply hnodup.filterMap
  intro i j folded hi hj
  simp only [Option.mem_def, Option.map_eq_some_iff] at hi hj
  obtain ⟨v, hv, rfl⟩ := hi
  obtain ⟨w, hw, hn⟩ := hj
  exact h.eq_of_foldName_eq hv hw hn.symm

theorem put (h : chain.WellFormed nameOf) {place : Place} (ha : chain.hasAnchor place = true)
    (hn : chain.find? (nameOf v) = none) : (chain.put (nameOf v) v place).WellFormed nameOf := by
  obtain ⟨pre, post, hl, hp⟩ := h.linked.exists_between ha
  have hlink := (hl ▸ h.linked).put hp (nameOf v) v
  constructor
  · exact hlink.order_eq.symm ▸ hlink
  · intro folded i
    rw [getElem?_index_put, get?_put]
    by_cases hi : i = chain.size
    · subst hi
      have hg : chain.get? chain.size = none := (get?_eq_none_iff chain _).2 (Nat.le_refl _)
      have hx : chain.index[folded]? ≠ some chain.size := by
        intro hx
        obtain ⟨w, hw, -⟩ := (h.index folded chain.size).1 hx
        rw [hg] at hw
        cases hw
      by_cases hf : foldName (nameOf v) = folded <;> simp [hf, hx]
    · rw [if_neg hi, ← h.index folded i]
      by_cases hf : foldName (nameOf v) = folded
      · have hx : chain.index[folded]? = none := hf ▸ hn
        simp [hf, hx, Ne.symm hi]
      · rw [if_neg hf]

/-- A value can be changed in any way that keeps its name. -/
theorem modify (h : chain.WellFormed nameOf) (i : Nat) {f : α → α}
    (hf : ∀ v, chain.get? i = some v → nameOf (f v) = nameOf v) : (chain.modify i f).WellFormed nameOf := by
  have hlink := h.linked.modify i f
  constructor
  · exact hlink.order_eq.symm ▸ hlink
  · intro folded j
    rw [show (chain.modify i f).index = chain.index from rfl, h.index, get?_modify]
    by_cases hj : j = i
    · subst hj
      cases hg : chain.get? j with
      | none => simp
      | some v => simp [hf v hg]
    · rw [if_neg hj]

/-- Changing a value changes the value of that name in the order. -/
theorem toList_modify (h : chain.WellFormed nameOf) (hi : chain.get? i = some v) (f : α → α) :
    (chain.modify i f).toList =
      chain.toList.map fun w => if foldName (nameOf w) = foldName (nameOf v) then f w else w := by
  rw [(h.linked.modify i f).toList_eq, toList, List.map_filterMap]
  apply List.filterMap_congr
  intro j _
  rw [get?_modify]
  cases hj : chain.get? j with
  | none => simp
  | some w =>
    by_cases hji : j = i
    · subst hji
      obtain rfl : v = w := Option.some.inj (hi.symm.trans hj)
      simp
    · have hn : foldName (nameOf w) ≠ foldName (nameOf v) := by
        intro hn
        exact hji (h.eq_of_foldName_eq hj hi hn)
      simp [hji, hn]

end WellFormed

/-! ## The values with their numbers -/

/-- The value with a number, next to the number. -/
def numbered? (chain : Chain α) (i : Nat) : Option (Nat × α) := (chain.get? i).map (i, ·)

/-- The values in order, each with its number. -/
def numbered (chain : Chain α) : List (Nat × α) := chain.order.filterMap chain.numbered?

theorem numbered?_eq_some_iff {p : Nat × α} : chain.numbered? i = some p ↔ p.1 = i ∧ chain.get? i = some p.2 := by
  obtain ⟨j, v⟩ := p
  simp only [numbered?, Option.map_eq_some_iff, Prod.mk.injEq]
  constructor
  · rintro ⟨w, hw, rfl, rfl⟩
    exact ⟨rfl, hw⟩
  · rintro ⟨rfl, hv⟩
    exact ⟨v, hv, rfl, rfl⟩

theorem Linked.numbered_eq {l : List Nat} (h : chain.Linked l) : chain.numbered = l.filterMap chain.numbered? := by
  rw [numbered, h.order_eq]

theorem map_snd_numbered (chain : Chain α) : chain.numbered.map Prod.snd = chain.toList := by
  rw [numbered, List.map_filterMap, toList]
  apply List.filterMap_congr
  intro i _
  rw [numbered?, Option.map_map]
  exact Option.map_id'

theorem Linked.mem_numbered {l : List Nat} (h : chain.Linked l) {p : Nat × α} :
    p ∈ chain.numbered ↔ chain.get? p.1 = some p.2 := by
  rw [h.numbered_eq, List.mem_filterMap]
  constructor
  · rintro ⟨i, -, hi⟩
    obtain ⟨rfl, hv⟩ := numbered?_eq_some_iff.1 hi
    exact hv
  · intro hv
    exact ⟨p.1, (h.mem_iff p.1).2 (lt_size_of_get? hv), numbered?_eq_some_iff.2 ⟨rfl, hv⟩⟩

/-- Every number of the order has a value. -/
theorem Linked.map_fst_numbered {l : List Nat} (h : chain.Linked l) : chain.numbered.map Prod.fst = l := by
  have hnumber : ∀ i ∈ l, (chain.numbered? i).map Prod.fst = some i := by
    intro i hi
    obtain ⟨v, hv⟩ := Option.ne_none_iff_exists'.1 (mt (get?_eq_none_iff chain i).1 (Nat.not_le.2 ((h.mem_iff i).1 hi)))
    rw [numbered?, hv]
    rfl
  rw [h.numbered_eq, List.map_filterMap, List.filterMap_congr hnumber, List.filterMap_some]

theorem Linked.length_numbered {l : List Nat} (h : chain.Linked l) : chain.numbered.length = chain.size := by
  rw [← h.length_eq, ← h.map_fst_numbered, List.length_map]

theorem Linked.length_toList {l : List Nat} (h : chain.Linked l) : chain.toList.length = chain.size := by
  rw [← map_snd_numbered, List.length_map, h.length_numbered]

/-- The value at a place of the order is the one with the number at that place. -/
theorem Linked.exists_getElem? {l : List Nat} (h : chain.Linked l) {n : Nat} (hn : l[n]? = some i) :
    ∃ v, chain.get? i = some v ∧ chain.toList[n]? = some v := by
  rw [← h.map_fst_numbered, List.getElem?_map, Option.map_eq_some_iff] at hn
  obtain ⟨p, hp, rfl⟩ := hn
  refine ⟨p.2, h.mem_numbered.1 (List.mem_of_getElem? hp), ?_⟩
  rw [← map_snd_numbered, List.getElem?_map, hp, Option.map_some]

/-- A new value stands, with its number, between the values that were around its gap. -/
theorem Linked.numbered_put (h : chain.Linked (pre ++ post)) {place : Place} (hp : place.Between pre post)
    (name : String) (v : α) :
    (chain.put name v place).numbered =
      pre.filterMap chain.numbered? ++ (chain.size, v) :: post.filterMap chain.numbered? := by
  have hold : ∀ i ∈ pre ++ post, (chain.put name v place).numbered? i = chain.numbered? i := by
    intro i hi
    rw [numbered?, get?_put, if_neg (h.ne_size hi), numbered?]
  have hnew : (chain.put name v place).numbered? chain.size = some (chain.size, v) :=
    numbered?_eq_some_iff.2 ⟨rfl, by rw [get?_put, if_pos rfl]⟩
  rw [(h.put hp name v).numbered_eq, List.filterMap_append, List.filterMap_cons_some hnew,
    List.filterMap_congr fun i hi => hold i (List.mem_append_left _ hi),
    List.filterMap_congr fun i hi => hold i (List.mem_append_right _ hi)]

theorem WellFormed.numbered_modify (h : chain.WellFormed nameOf) (hi : chain.get? i = some v) (f : α → α) :
    (chain.modify i f).numbered =
      chain.numbered.map fun p => if foldName (nameOf p.2) = foldName (nameOf v) then (p.1, f p.2) else p := by
  rw [(h.linked.modify i f).numbered_eq, numbered, List.map_filterMap]
  apply List.filterMap_congr
  intro j _
  rw [numbered?, get?_modify, numbered?]
  cases hj : chain.get? j with
  | none => simp
  | some w =>
    by_cases hji : j = i
    · subst hji
      obtain rfl : v = w := Option.some.inj (hi.symm.trans hj)
      simp
    · have hn : foldName (nameOf w) ≠ foldName (nameOf v) := by
        intro hn
        exact hji (h.eq_of_foldName_eq hj hi hn)
      simp [hji, hn]

end IniDoc.Chain
