import IniDoc.Proofs.Registry

/-!
# How a workspace stands for a registry

A document with one owner is in its slot, a shared one in a cell with the number of its holders. Between two actions
every holder is a slot; while a slot is copied, one holder more is at hand that is in no slot yet, so that copying is
three steps of which each keeps the relation.

* `Mirrors`: the relation.
* `Mirrors.slot_cases`, `Mirrors.get?_eq`: what a slot has, and that it shows the document after all calls made to it.
* `Mirrors.release`, `Mirrors.enter`, `Mirrors.lend`, `Mirrors.settle`: holders come and go.
-/

namespace IniDoc

/-! ## Workspaces -/

namespace Workspace

theorem getElem?_cells_countHolders (w : Workspace) (cell : Nat) (f : Nat → Nat) (other : Nat) :
    (w.countHolders cell f).cells[other]? =
      if cell = other then w.cells[other]?.map (fun c => { c with holders := f c.holders }) else w.cells[other]? :=
  Array.getElem?_modify

theorem nextId_release (w : Workspace) (slot : String) : (w.release slot).nextId = w.nextId := by
  unfold release
  split <;> rfl

theorem getElem?_slots_release (w : Workspace) (slot other : String) :
    (w.release slot).slots[other]? = if slot = other then none else w.slots[other]? := by
  unfold release
  split
  · simp [Std.TreeMap.getElem?_erase]
  · simp [Std.TreeMap.getElem?_erase]
  · next h =>
    split
    · next heq => exact heq ▸ h
    · rfl

theorem getElem?_cells_release_of_shared {w : Workspace} {slot : String} {cell : Nat}
    (h : w.slots[slot]? = some (.shared cell)) :
    (w.release slot).cells[cell]? = w.cells[cell]?.map fun c => { c with holders := c.holders - 1 } := by
  unfold release
  rw [h]
  exact (getElem?_cells_countHolders w cell (· - 1) cell).trans (if_pos rfl)

theorem getElem?_cells_release_of_ne {w : Workspace} {slot : String} {cell : Nat}
    (h : w.slots[slot]? ≠ some (.shared cell)) : (w.release slot).cells[cell]? = w.cells[cell]? := by
  unfold release
  split
  · next other heq =>
    refine (getElem?_cells_countHolders w other (· - 1) cell).trans (if_neg ?_)
    rintro rfl
    exact h heq
  · rfl
  · rfl

end Workspace

/-! ## The relation -/

/-- What a slot has that holds a document: the document, or the cell where it is. -/
def Registry.Record.slot (record : Record) : Option Nat → Slot
  | some cell => .shared cell
  | none => .owned record.document

/-- What a slot has that holds the document with a number, when `place` says where the shared documents are. -/
def Registry.shown? (reg : Registry) (place : Nat → Option Nat) (n : Nat) : Option Slot :=
  reg.records[n]?.map (·.slot (place n))

/-- A workspace stands for a registry: an owned document is in the one slot that holds it, a shared one in a cell of its
own, where `place` has it, with the number of its holders. One more holder may be at hand that is in no slot yet. -/
structure Mirrors (w : Workspace) (reg : Registry) (place : Nat → Option Nat) (hand : Option Nat) : Prop where
  nextId : w.nextId = reg.nextId
  known : ∀ (slot : String) (n : Nat), reg.holds[slot]? = some n → n < reg.records.size
  slots : ∀ name : String, w.slots[name]? = reg.holds[name]?.bind (reg.shown? place)
  shared : ∀ (n : Nat) record, reg.records[n]? = some record → (place n).isSome = record.shared
  cells : ∀ n cell, place n = some cell → ∃ record, reg.records[n]? = some record ∧
    w.cells[cell]? = some ⟨record.document, (reg.holders n).card + if hand = some n then 1 else 0⟩
  apart : ∀ m n cell, place m = some cell → place n = some cell → m = n
  sole : ∀ n, place n = none → (reg.holders n).card ≤ 1

namespace Mirrors

variable {w : Workspace} {reg : Registry} {place : Nat → Option Nat} {hand : Option Nat} {slot : String} {n cell : Nat}
  {record : Registry.Record}

theorem empty : Mirrors .empty .empty (fun _ => none) none where
  nextId := rfl
  known _ _ h := nomatch h
  slots _ := rfl
  shared _ _ h := nomatch h
  cells _ _ h := nomatch h
  apart _ _ _ h := nomatch h
  sole _ _ := Nat.zero_le 1

/-- A number with a cell is the number of a record. -/
theorem lt_size (h : Mirrors w reg place hand) (hplace : place n = some cell) : n < reg.records.size := by
  obtain ⟨record, hrecord, -⟩ := h.cells n cell hplace
  exact (Array.getElem?_eq_some_iff.1 hrecord).1

theorem place_size (h : Mirrors w reg place hand) : place reg.records.size = none := by
  cases hplace : place reg.records.size with
  | none => rfl
  | some cell => exact absurd (h.lt_size hplace) (Nat.lt_irrefl _)

/-- Nobody holds a document that is not there yet. -/
theorem holders_size (h : Mirrors w reg place hand) : reg.holders reg.records.size = ∅ := by
  refine Finset.eq_empty_of_forall_notMem fun slot hslot => ?_
  exact Nat.lt_irrefl _ (h.known slot _ (Registry.mem_holders.1 hslot))

theorem slots_of_owned (h : Mirrors w reg place hand) (hn : reg.holds[slot]? = some n)
    (hrecord : reg.records[n]? = some record) (hplace : place n = none) :
    w.slots[slot]? = some (.owned record.document) := by
  simp [h.slots, hn, Registry.shown?, Registry.Record.slot, hrecord, hplace]

theorem slots_of_shared (h : Mirrors w reg place hand) (hn : reg.holds[slot]? = some n)
    (hplace : place n = some cell) : w.slots[slot]? = some (.shared cell) := by
  obtain ⟨record, hrecord, -⟩ := h.cells n cell hplace
  simp [h.slots, hn, Registry.shown?, Registry.Record.slot, hrecord, hplace]

theorem slots_of_none (h : Mirrors w reg place hand) (hn : reg.holds[slot]? = none) : w.slots[slot]? = none := by
  simp [h.slots, hn]

/-- What a slot holds: nothing, a document that it owns, or a shared one. -/
theorem slot_cases (h : Mirrors w reg place hand) (slot : String) :
    (reg.held? slot = none ∧ w.slots[slot]? = none) ∨
      (∃ n record, reg.holds[slot]? = some n ∧ reg.records[n]? = some record ∧ place n = none ∧ record.shared = false ∧
        w.slots[slot]? = some (.owned record.document)) ∨
      ∃ n record cell, reg.holds[slot]? = some n ∧ reg.records[n]? = some record ∧ place n = some cell ∧
        record.shared = true ∧ w.slots[slot]? = some (.shared cell) ∧
        w.cells[cell]? = some ⟨record.document, (reg.holders n).card + if hand = some n then 1 else 0⟩ := by
  cases hn : reg.holds[slot]? with
  | none => exact .inl ⟨by rw [Registry.held?, hn]; rfl, h.slots_of_none hn⟩
  | some n =>
    have hrecord := Array.getElem?_eq_getElem (h.known slot n hn)
    have hshared := h.shared n _ hrecord
    cases hplace : place n with
    | none =>
      rw [hplace] at hshared
      exact .inr (.inl ⟨n, _, rfl, hrecord, hplace, hshared.symm, h.slots_of_owned hn hrecord hplace⟩)
    | some cell =>
      rw [hplace] at hshared
      obtain ⟨record, hrecord', hcell⟩ := h.cells n cell hplace
      cases hrecord.symm.trans hrecord'
      exact .inr (.inr ⟨n, _, cell, rfl, hrecord, hplace, hshared.symm, h.slots_of_shared hn hplace, hcell⟩)

/-- What a slot shows is its document after all calls made to it. -/
theorem get?_eq (h : Mirrors w reg place hand) (slot : String) : w.get? slot = reg.get? slot := by
  unfold Workspace.get? Registry.get?
  rcases h.slot_cases slot with ⟨hheld, hslot⟩ | ⟨n, record, hn, hrecord, -, -, hslot⟩ |
    ⟨n, record, cell, hn, hrecord, -, -, hslot, hcell⟩
  · simp [hslot, hheld]
  · simp [hslot, Registry.held?_eq_some_iff.2 ⟨hn, hrecord⟩]
  · simp [hslot, hcell, Registry.held?_eq_some_iff.2 ⟨hn, hrecord⟩]

/-! ## Holders -/

/-- An identity is taken. -/
theorem freshId (h : Mirrors w reg place hand) :
    Mirrors w.freshId.2 { reg with nextId := w.nextId + 1 } place hand where
  nextId := rfl
  known := h.known
  slots := h.slots
  shared := h.shared
  cells := h.cells
  apart := h.apart
  sole := h.sole

/-- A slot shows a cell if and only if it holds the document that the cell has. -/
theorem slots_eq_shared_iff (h : Mirrors w reg place hand) (hplace : place n = some cell) :
    w.slots[slot]? = some (.shared cell) ↔ reg.holds[slot]? = some n := by
  constructor
  · intro hslot
    rcases h.slot_cases slot with ⟨-, hnone⟩ | ⟨m, record, -, -, -, -, howned⟩ |
      ⟨m, record, other, hm, -, hplace', -, hshared, -⟩
    · exact nomatch hnone.symm.trans hslot
    · exact nomatch howned.symm.trans hslot
    · cases hshared.symm.trans hslot
      rw [hm, h.apart m n cell hplace' hplace]
  · intro hn
    exact h.slots_of_shared hn hplace

/-- A slot is emptied. -/
theorem release (h : Mirrors w reg place hand) (slot : String) :
    Mirrors (w.release slot) (reg.release slot) place hand where
  nextId := (w.nextId_release slot).trans h.nextId
  known other n hn := by
    rw [Registry.getElem?_holds_release] at hn
    split at hn
    · cases hn
    · exact h.known other n hn
  slots name := by
    rw [w.getElem?_slots_release, Registry.getElem?_holds_release]
    split
    · rfl
    · exact h.slots name
  shared := h.shared
  cells n cell hplace := by
    obtain ⟨record, hrecord, hcell⟩ := h.cells n cell hplace
    refine ⟨record, hrecord, ?_⟩
    rw [Registry.holders_release]
    by_cases hn : reg.holds[slot]? = some n
    · have hmem := Registry.mem_holders.2 hn
      have hpos := Finset.card_pos.2 ⟨slot, hmem⟩
      rw [Workspace.getElem?_cells_release_of_shared (h.slots_of_shared hn hplace), hcell, Option.map_some,
        Finset.card_erase_of_mem hmem, Nat.sub_add_comm hpos]
    · rw [Workspace.getElem?_cells_release_of_ne (mt (h.slots_eq_shared_iff hplace).1 hn), hcell,
        Finset.erase_eq_of_notMem (mt Registry.mem_holders.1 hn)]
  apart := h.apart
  sole n hplace := by
    rw [Registry.holders_release]
    exact Finset.card_erase_le.trans (h.sole n hplace)

/-- A slot gets something else to hold, and what the other slots hold stays as it was. -/
theorem slots_insert (h : Mirrors w reg place hand) {reg' : Registry} {place' : Nat → Option Nat} {held : Slot}
    (hholds : ∀ other, reg'.holds[other]? = if slot = other then some n else reg.holds[other]?)
    (hheld : reg'.shown? place' n = some held)
    (hrest : ∀ (other : String) (m : Nat), slot ≠ other → reg.holds[other]? = some m →
      reg'.shown? place' m = reg.shown? place m) (name : String) :
    (w.slots.insert slot held)[name]? = reg'.holds[name]?.bind (reg'.shown? place') := by
  rw [Std.TreeMap.getElem?_insert, hholds]
  by_cases hname : slot = name
  · simp [hname, hheld]
  · simp only [hname, Std.LawfulEqCmp.compare_eq_iff_eq, if_false, h.slots]
    exact Option.bind_congr fun m hm => (hrest name m hname hm).symm

/-- A document that was just made goes to an empty slot. -/
theorem enter (h : Mirrors w reg place hand) (hfree : reg.holds[slot]? = none) (d : Document) :
    Mirrors { w with slots := w.slots.insert slot (.owned d) }
      { reg.hold slot reg.records.size with records := reg.records.push ⟨d, [], false⟩ } place hand where
  nextId := h.nextId
  known other n hn := by
    rw [Registry.getElem?_holds_hold] at hn
    show n < (reg.records.push ⟨d, [], false⟩).size
    rw [Array.size_push]
    split at hn
    · cases hn
      exact Nat.lt_succ_self _
    · exact Nat.lt_succ_of_lt (h.known other n hn)
  slots := by
    refine h.slots_insert (Registry.getElem?_holds_hold _ slot _) ?_ fun other m _ hm => ?_
    · simp [Registry.shown?, Registry.Record.slot, h.place_size, Registry.Record.document]
    · have hlt := h.known other m hm
      simp [Registry.shown?, Array.getElem?_push, hlt.ne]
  shared n record hrecord := by
    rw [Array.getElem?_push] at hrecord
    split at hrecord
    · next heq =>
      cases hrecord
      rw [heq, h.place_size]
      rfl
    · exact h.shared n record hrecord
  cells n cell hplace := by
    obtain ⟨record, hrecord, hcell⟩ := h.cells n cell hplace
    have hne := (h.lt_size hplace).ne
    refine ⟨record, ?_, ?_⟩
    · rw [Array.getElem?_push, if_neg hne, hrecord]
    · rw [Registry.holders_records, Registry.holders_hold_of_ne hfree hne]
      exact hcell
  apart := h.apart
  sole n hplace := by
    rw [Registry.holders_records]
    by_cases heq : n = reg.records.size
    · rw [heq, Registry.card_holders_hold hfree]
      exact (congrArg (·.card + 1) h.holders_size).le
    · rw [Registry.holders_hold_of_ne hfree heq]
      exact h.sole n hplace

/-- The holder at hand gets an empty slot. -/
theorem settle (h : Mirrors w reg place (some n)) (hfree : reg.holds[slot]? = none) (hplace : place n = some cell) :
    Mirrors { w with slots := w.slots.insert slot (.shared cell) } (reg.hold slot n) place none where
  nextId := h.nextId
  known other m hm := by
    rw [Registry.getElem?_holds_hold] at hm
    split at hm
    · cases hm
      exact h.lt_size hplace
    · exact h.known other m hm
  slots := by
    refine h.slots_insert (Registry.getElem?_holds_hold _ slot _) ?_ fun other m _ _ => rfl
    obtain ⟨record, hrecord, -⟩ := h.cells n cell hplace
    simp [Registry.shown?, Registry.Record.slot, Registry.hold, hrecord, hplace]
  shared := h.shared
  cells m other hother := by
    obtain ⟨record, hrecord, hcell⟩ := h.cells m other hother
    refine ⟨record, hrecord, ?_⟩
    by_cases heq : m = n
    · subst heq
      rw [Registry.card_holders_hold hfree]
      simpa using hcell
    · rw [Registry.holders_hold_of_ne hfree heq]
      simpa [Ne.symm heq] using hcell
  apart := h.apart
  sole m hm := by
    have hne : m ≠ n := by
      rintro rfl
      cases hm.symm.trans hplace
    rw [Registry.holders_hold_of_ne hfree hne]
    exact h.sole m hm

/-- A shared document gets one more holder. -/
theorem lend (h : Mirrors w reg place none) (hplace : place n = some cell) :
    Mirrors (w.countHolders cell (· + 1)) reg place (some n) where
  nextId := h.nextId
  known := h.known
  slots := h.slots
  shared := h.shared
  cells m other hother := by
    obtain ⟨record, hrecord, hcell⟩ := h.cells m other hother
    refine ⟨record, hrecord, ?_⟩
    rw [Workspace.getElem?_cells_countHolders, hcell]
    by_cases heq : n = m
    · subst heq
      rw [hplace] at hother
      simp [Option.some.inj hother]
    · have hne : cell ≠ other := fun hsame => heq (h.apart n m cell hplace (hsame ▸ hother))
      simp [hne, heq]
  apart := h.apart
  sole := h.sole

end Mirrors

end IniDoc
