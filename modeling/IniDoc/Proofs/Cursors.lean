import IniDoc.Proofs.Handles

/-!
# What a cursor meets

A cursor follows the links from number to number, and meets the keys of its section in their order, each of them once.

* `Cursor.StandsAt`: the place of a cursor in the order.
* `Cursor.StandsAt.exists_advance?`, `Cursor.StandsAt.advance?_eq_none`: one move; `Cursor.StandsAt.moved`: many.
* `Cursor.entries_eq`: from the first key on, a cursor meets the entries of the section.
* `Cursor.Call`, `Cursor.call`, `Cursor.after`: calls of a cursor in any order.
* `Cursor.visits_keys_in_order`: all sections of all documents that edits can build, and all calls.
-/

namespace IniDoc.Cursor

variable {s : Section} {i n : Nat} {key : Key} {cursor : Cursor}

/-! ## Places -/

/-- The cursor is one of the section, on the key at a place of its order. -/
structure StandsAt (s : Section) (n : Nat) (cursor : Cursor) : Prop where
  owner : cursor.owner = s
  place : s.keys.order[n]? = some cursor.index

/-- There is a cursor on every key. -/
theorem exists_at? (h : s.keys.get? i = some key) :
    ∃ cursor, at? s i = some cursor ∧ cursor.owner = s ∧ cursor.index = i := by
  unfold at?
  split
  · exact ⟨_, rfl, rfl, rfl⟩
  · next h' =>
    rw [h] at h'
    cases h'

/-- There is a cursor at every place. -/
theorem exists_standsAt (hs : s.WellFormed) (hplace : s.keys.order[n]? = some i) :
    ∃ cursor, at? s i = some cursor ∧ StandsAt s n cursor := by
  obtain ⟨key, hkey, -⟩ := hs.keys.linked.exists_getElem? hplace
  obtain ⟨cursor, hat, howner, rfl⟩ := exists_at? hkey
  exact ⟨cursor, hat, howner, hplace⟩

theorem first?_eq_none_iff (hs : s.WellFormed) : first? s = none ↔ s.isEmpty = true := by
  have hlinked := hs.keys.linked
  have hempty : s.isEmpty = true ↔ s.keys.order = [] := by
    rw [← List.length_eq_zero_iff, hlinked.length_eq, Section.isEmpty, Chain.isEmpty, Array.isEmpty_iff_size_eq_zero,
      Chain.size]
  rw [hempty, first?, hlinked.head]
  cases hl : s.keys.order with
  | nil => simp
  | cons i post =>
    obtain ⟨cursor, hat, -⟩ := exists_standsAt (n := 0) hs (by rw [hl]; rfl)
    simp [hat]

theorem length_entries (hs : s.WellFormed) : s.entries.length = s.size := by
  rw [Section.entries, List.length_map, hs.keys.linked.length_toList, Section.size]

namespace StandsAt

theorem first (hs : s.WellFormed) (h : first? s = some cursor) : StandsAt s 0 cursor := by
  obtain ⟨i, hi, hat⟩ := Option.bind_eq_some_iff.1 h
  rw [hs.keys.linked.head, List.head?_eq_getElem?] at hi
  obtain ⟨cursor', hat', hstands⟩ := exists_standsAt hs hi
  cases hat.symm.trans hat'
  exact hstands

theorem lt_size (hs : s.WellFormed) (h : StandsAt s n cursor) : n < s.size := by
  obtain ⟨hn, -⟩ := List.getElem?_eq_some_iff.1 h.place
  rwa [hs.keys.linked.length_eq] at hn

/-- The key of a cursor is the one at its place. -/
theorem getElem?_keys (hs : s.WellFormed) (h : StandsAt s n cursor) : s.keys.toList[n]? = some cursor.key := by
  obtain ⟨key, hget, hlist⟩ := hs.keys.linked.exists_getElem? h.place
  have hkey := cursor.key_eq
  rw [h.owner, hget] at hkey
  rw [hlist, hkey]

theorem drop_entries (hs : s.WellFormed) (h : StandsAt s n cursor) :
    s.entries.drop n = cursor.entry :: s.entries.drop (n + 1) := by
  have hentry : s.entries[n]? = some cursor.entry := by
    rw [Section.entries, List.getElem?_map, h.getElem?_keys hs]
    rfl
  obtain ⟨hn, heq⟩ := List.getElem?_eq_some_iff.1 hentry
  rw [List.drop_eq_getElem_cons hn, heq]

/-- The link of the key leads to the next place. -/
theorem next? (hs : s.WellFormed) (h : StandsAt s n cursor) : s.keys.next? cursor.index = s.keys.order[n + 1]? := by
  have hlinked := hs.keys.linked
  obtain ⟨hn, hindex⟩ := List.getElem?_eq_some_iff.1 h.place
  have hcut : s.keys.order = s.keys.order.take n ++ cursor.index :: s.keys.order.drop (n + 1) := by
    rw [← hindex, List.getElem_cons_drop, List.take_append_drop]
  rw [hcut] at hlinked
  rw [hlinked.next?_eq, List.head?_drop]

/-- Before the last place a cursor moves to the next one. -/
theorem exists_advance? (hs : s.WellFormed) (h : StandsAt s n cursor) (hn : n + 1 < s.size) :
    ∃ next, cursor.advance? = some next ∧ StandsAt s (n + 1) next := by
  have hj : n + 1 < s.keys.order.length := by rwa [hs.keys.linked.length_eq]
  have hplace : s.keys.order[n + 1]? = some s.keys.order[n + 1] := List.getElem?_eq_getElem hj
  rw [Cursor.advance?, h.owner, h.next? hs, hplace]
  exact exists_standsAt hs hplace

/-- At the last place it does not move. -/
theorem advance?_eq_none (hs : s.WellFormed) (h : StandsAt s n cursor) (hn : s.size ≤ n + 1) :
    cursor.advance? = none := by
  have hnone : s.keys.order[n + 1]? = none := List.getElem?_eq_none (by rwa [hs.keys.linked.length_eq])
  rw [Cursor.advance?, h.owner, h.next? hs, hnone]
  rfl

/-- Moves take a cursor so many places on, or to the last place. -/
theorem moved (hs : s.WellFormed) (h : StandsAt s n cursor) (moves : Nat) :
    StandsAt s (min (n + moves) (s.size - 1)) (cursor.moved moves) := by
  induction moves generalizing n cursor with
  | zero =>
    have hlt := h.lt_size hs
    rwa [Nat.min_eq_left (by omega)]
  | succ moves ih =>
    rw [Cursor.moved]
    by_cases hn : n + 1 < s.size
    · obtain ⟨next, hadvance, hnext⟩ := h.exists_advance? hs hn
      rw [hadvance, Option.getD_some, show n + (moves + 1) = n + 1 + moves by omega]
      exact ih hnext
    · have hlast := ih h
      rw [h.advance?_eq_none hs (Nat.not_lt.1 hn), Option.getD_none]
      rwa [show min (n + (moves + 1)) (s.size - 1) = min (n + moves) (s.size - 1) by omega]

/-- The key at a place is found by its name. -/
theorem find?_name (hs : s.WellFormed) (h : StandsAt s n cursor) : s.find? cursor.key.name = some cursor.id := by
  have hkey := cursor.key_eq
  rw [h.owner] at hkey
  rw [Section.find?, (hs.keys.find?_eq_some_iff _ _).2 ⟨_, hkey, rfl⟩, Option.map_some, id, h.owner]

/-- A cursor meets the entries from its place on. -/
theorem entriesFrom_eq (hs : s.WellFormed) (h : StandsAt s n cursor) {fuel : Nat} (hf : s.size ≤ n + fuel) :
    entriesFrom fuel cursor = s.entries.drop n := by
  induction fuel generalizing n cursor with
  | zero => exact absurd (h.lt_size hs) (Nat.not_lt.2 hf)
  | succ fuel ih =>
    rw [entriesFrom, h.drop_entries hs]
    by_cases hn : n + 1 < s.size
    · obtain ⟨next, hadvance, hnext⟩ := h.exists_advance? hs hn
      rw [hadvance, Option.map_some, Option.getD_some, ih hnext (by omega)]
    · rw [h.advance?_eq_none hs (Nat.not_lt.1 hn), List.drop_eq_nil_iff.2 (length_entries hs ▸ Nat.not_lt.1 hn)]
      rfl

end StandsAt

/-- A cursor on the first key meets all entries of its section in order. -/
theorem entries_eq (hs : s.WellFormed) : entries s = s.entries := by
  unfold entries
  cases hfirst : first? s with
  | none =>
    have hsize : s.size = 0 := Array.isEmpty_iff_size_eq_zero.1 ((first?_eq_none_iff hs).1 hfirst)
    rw [← length_entries hs, List.length_eq_zero_iff] at hsize
    rw [hsize]
    rfl
  | some cursor => exact (StandsAt.first hs hfirst).entriesFrom_eq hs (Nat.le_add_left _ _)

/-! ## Calls in any order -/

/-- A call of a cursor. -/
inductive Call where
  | key
  | id
  | advance
  | nextEntry
  deriving Repr, DecidableEq

/-- What a cursor answers. -/
inductive Answer where
  | key (key : Key)
  | id (id : KeyId)
  | advanced (moved : Bool)
  | entry (entry : Option (String × String))
  deriving Repr, DecidableEq

/-- Whether a call asks for a move. -/
def Call.moves : Call → Bool
  | .key | .id => false
  | .advance | .nextEntry => true

/-- The answer of a call, and the cursor after it. At the last key the cursor stays. -/
def call (cursor : Cursor) : Call → Answer × Cursor
  | .key => (.key cursor.key, cursor)
  | .id => (.id cursor.id, cursor)
  | .advance => (.advanced cursor.advance?.isSome, cursor.advance?.getD cursor)
  | .nextEntry => (.entry (cursor.advance?.map entry), cursor.advance?.getD cursor)

/-- The cursor after calls one after another. -/
def after (cursor : Cursor) (calls : List Call) : Cursor := calls.foldl (fun cursor c => (cursor.call c).2) cursor

/-- The answers of calls one after another. -/
def answers (cursor : Cursor) : List Call → List Answer
  | [] => []
  | c :: calls => (cursor.call c).1 :: (cursor.call c).2.answers calls

/-- Only the number of moves matters. -/
theorem after_eq_moved (cursor : Cursor) (calls : List Call) :
    cursor.after calls = cursor.moved (calls.countP Call.moves) := by
  induction calls generalizing cursor with
  | nil => rfl
  | cons c calls ih =>
    show (cursor.call c).2.after calls = _
    rw [ih, List.countP_cons]
    cases c <;> rfl

namespace StandsAt

/-- A cursor answers a call for the next entry with the entry at the next place, if there is one. -/
theorem call_nextEntry (hs : s.WellFormed) (h : StandsAt s n cursor) :
    (cursor.call .nextEntry).1 = .entry s.entries[n + 1]? := by
  rw [Section.entries, List.getElem?_map]
  by_cases hn : n + 1 < s.size
  · obtain ⟨next, hadvance, hnext⟩ := h.exists_advance? hs hn
    rw [call, hadvance, hnext.getElem?_keys hs]
    rfl
  · rw [call, h.advance?_eq_none hs (Nat.not_lt.1 hn),
      List.getElem?_eq_none (by rw [hs.keys.linked.length_toList]; exact Nat.not_lt.1 hn)]
    rfl

theorem call_advance (hs : s.WellFormed) (h : StandsAt s n cursor) :
    (cursor.call .advance).1 = .advanced (decide (n + 1 < s.size)) := by
  by_cases hn : n + 1 < s.size
  · obtain ⟨next, hadvance, -⟩ := h.exists_advance? hs hn
    simp [call, hadvance, hn]
  · simp [call, h.advance?_eq_none hs (Nat.not_lt.1 hn), hn]

/-- From the cursor's place on, the calls for the next entry are answered with the entries behind it, and with none ever
after. -/
theorem answers_nextEntry (hs : s.WellFormed) (h : StandsAt s n cursor) (more : Nat) :
    .entry (some cursor.entry) :: cursor.answers (List.replicate (s.size - (n + 1) + more) .nextEntry) =
      (s.entries.drop n).map (.entry ∘ some) ++ List.replicate more (.entry none) := by
  rw [h.drop_entries hs, List.map_cons, List.cons_append]
  refine congrArg _ ?_
  induction hleft : s.size - (n + 1) generalizing n cursor with
  | zero =>
    have hend : s.entries.drop (n + 1) = [] := by
      rw [List.drop_eq_nil_iff, length_entries hs]
      exact Nat.sub_eq_zero_iff_le.1 hleft
    have hstay : cursor.call .nextEntry = (.entry none, cursor) := by
      rw [call, h.advance?_eq_none hs (Nat.sub_eq_zero_iff_le.1 hleft)]
      rfl
    rw [hend, Nat.zero_add, List.map_nil, List.nil_append]
    induction more with
    | zero => rfl
    | succ more ih => rw [List.replicate_succ, answers, hstay, ih, List.replicate_succ]
  | succ left ih =>
    have hlt := h.lt_size hs
    obtain ⟨next, hadvance, hnext⟩ := h.exists_advance? hs (by omega)
    have hmove : cursor.call .nextEntry = (.entry (some next.entry), next) := by
      rw [call, hadvance]
      rfl
    rw [hnext.drop_entries hs, show left + 1 + more = left + more + 1 by omega, List.replicate_succ, answers, hmove,
      ih hnext (by omega)]
    rfl

end StandsAt

/-! ## All sections of all documents -/

/-- However a document was made, there is a cursor on the first key of each section that has keys. The entry of that key
and the answers to calls for the next one are the entries of the section in order, each of them once, and no entry ever
after. Whatever was called before, the cursor stands on the key that as many moves lead to, or on the last key; its
handle stands for that key, is the one under the key's name, and belongs to the section, which is as it was. -/
theorem visits_keys_in_order (id : Nat) (edits : List Document.Edit) :
    let d := (Document.empty id).run edits
    ∀ s ∈ d.sections.toList,
      (first? s = none ↔ s.isEmpty = true) ∧
      ∀ cursor, first? s = some cursor →
        (∀ more, .entry (some cursor.entry) :: cursor.answers (List.replicate (s.size - 1 + more) .nextEntry) =
          s.entries.map (.entry ∘ some) ++ List.replicate more (.entry none)) ∧
        s.entries.length = s.size ∧
        ∀ calls,
          let now := cursor.after calls
          let moves := calls.countP Call.moves
          s.keys.toList[min moves (s.size - 1)]? = some now.key ∧
          (now.call .advance).1 = .advanced (decide (moves + 1 < s.size)) ∧
          (now.call .nextEntry).1 = .entry s.entries[moves + 1]? ∧
          s.key? now.id = some now.key ∧ now.id.owner = s.id ∧ s.find? now.key.name = some now.id ∧
          now.owner = s ∧ d.section? now.id.owner = some s := by
  intro d s hmem
  have hd : d.WellFormed := Document.wellFormed_run (Document.wellFormed_empty id) edits
  have hsection : d.section? s.id = some s := (Document.mem_toList_iff hd).1 hmem
  have hs := hd.of_section? hsection
  refine ⟨first?_eq_none_iff hs, fun cursor hfirst => ?_⟩
  have hstands := StandsAt.first hs hfirst
  have hpos := hstands.lt_size hs
  have hlength := length_entries hs
  refine ⟨fun more => ?_, hlength, ?_⟩
  · simpa using hstands.answers_nextEntry hs more
  intro calls now moves
  have hnow : StandsAt s (min moves (s.size - 1)) now := by
    have hmoved := hstands.moved hs moves
    rwa [Nat.zero_add, ← after_eq_moved] at hmoved
  have howner : now.id.owner = s.id := by rw [Cursor.id, Section.keyId, hnow.owner]
  refine ⟨hnow.getElem?_keys hs, ?_, ?_, ?_, howner, hnow.find?_name hs, hnow.owner, by rw [howner, hsection]⟩
  · rw [hnow.call_advance hs]
    congr 2
    rw [eq_iff_iff]
    omega
  · rw [hnow.call_nextEntry hs]
    by_cases hlast : moves + 1 < s.size
    · rw [Nat.min_eq_left (by omega)]
    · rw [List.getElem?_eq_none (by omega), List.getElem?_eq_none (by omega)]
  · have hkey := now.key?_id
    rwa [hnow.owner] at hkey

/-- A key put in front of another is met first, and the cursor ends on the other one. -/
theorem visits_keys_in_order_of_two :
    let edits : List Document.Edit :=
      [.addSection "S", .addKey ⟨1, 0⟩ "a" "1", .insertKey ⟨1, 0⟩ none .first "z" "26"]
    ∃ s ∈ ((Document.empty 1).run edits).sections.toList, ∃ cursor, first? s = some cursor ∧
      .entry (some cursor.entry) :: cursor.answers [.nextEntry, .nextEntry] =
        [.entry (some ("z", "26")), .entry (some ("a", "1")), .entry none] ∧
      s.find? "a" = some (cursor.after [.advance, .id, .nextEntry]).id := by
  intro edits
  have hview : ((Document.empty 1).run edits).sections.toList.map (fun s => (s.entries, (first? s).isSome)) =
      [([("z", "26"), ("a", "1")], true)] := by decide +kernel
  obtain ⟨s, hmem, hs⟩ := List.mem_map.1 (hview ▸ List.mem_singleton_self _)
  have hentries : s.entries = [("z", "26"), ("a", "1")] := congrArg Prod.fst hs
  obtain ⟨cursor, hfirst⟩ := Option.isSome_iff_exists.1 (congrArg Prod.snd hs)
  obtain ⟨hmet, hsize, hcalls⟩ := (visits_keys_in_order 1 edits s hmem).2 cursor hfirst
  rw [hentries] at hmet hsize
  have hmet := hmet 1
  obtain ⟨hkey, -, -, -, -, hfind, -⟩ := hcalls [.advance, .id, .nextEntry]
  have hentry : s.entries[1]? = some (cursor.after [.advance, .id, .nextEntry]).entry := by
    rw [← hsize] at hkey
    rw [Section.entries, List.getElem?_map]
    exact congrArg (Option.map _) hkey
  rw [hentries] at hentry
  have hname : "a" = (cursor.after [.advance, .id, .nextEntry]).key.name :=
    congrArg Prod.fst (Option.some.inj hentry)
  rw [← hsize] at hmet
  exact ⟨s, hmem, cursor, hfirst, hmet, hname ▸ hfind⟩

end IniDoc.Cursor
