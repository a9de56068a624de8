import IniDoc.Proofs.Mirrors

/-!
# Actions on a workspace and on a registry

A document changes its form only for its sole holder, when it is shared or taken back, and it is called for all holders
at once. With that every action keeps the relation between a workspace and a registry, and both answer the same and show
the same all along.

* `Mirrors.revise_sole`, `Mirrors.revise_shared`: the record of a document changes, and what the workspace has of it.
* `Mirrors.act`: one action; `Mirrors.run`: all of them.
-/

namespace IniDoc

namespace Mirrors

open Workspace (Action)

variable {w : Workspace} {reg : Registry} {place : Nat → Option Nat} {hand : Option Nat} {slot : String} {n cell : Nat}
  {record : Registry.Record}

/-! ## Records that change -/

/-- A slot that holds an owned document is its only holder. -/
theorem holders_of_owned (h : Mirrors w reg place hand) (hn : reg.holds[slot]? = some n) (hplace : place n = none) :
    reg.holders n = {slot} := by
  refine Finset.eq_singleton_iff_unique_mem.2 ⟨Registry.mem_holders.2 hn, fun other hother => ?_⟩
  exact Finset.card_le_one.1 (h.sole n hplace) other hother slot (Registry.mem_holders.2 hn)

/-- What another slot holds is not the document of the only holder. -/
theorem ne_of_holders {m : Nat} {other : String} (hsole : reg.holders n = {slot}) (hne : slot ≠ other)
    (hm : reg.holds[other]? = some m) : n ≠ m := by
  rintro rfl
  have hmem := Registry.mem_holders.2 hm
  rw [hsole, Finset.mem_singleton] at hmem
  exact hne hmem.symm

theorem known_revise (h : Mirrors w reg place hand) (n : Nat) (f : Registry.Record → Registry.Record) (slot : String)
    (m : Nat) (hm : reg.holds[slot]? = some m) : m < (reg.revise n f).records.size := by
  rw [Registry.revise, Array.size_modify]
  exact h.known slot m hm

/-- A record may be revised and go to another place, if it has a place after that exactly when it is shared. -/
theorem shared_revise (h : Mirrors w reg place hand) (hrecord : reg.records[n]? = some record)
    {f : Registry.Record → Registry.Record} {place' : Nat → Option Nat} (hn : (place' n).isSome = (f record).shared)
    (hrest : ∀ m, n ≠ m → place' m = place m) (m : Nat) (r : Registry.Record)
    (hr : (reg.revise n f).records[m]? = some r) : (place' m).isSome = r.shared := by
  rw [Registry.getElem?_records_revise] at hr
  by_cases heq : n = m
  · subst heq
    rw [if_pos rfl, hrecord] at hr
    cases hr
    exact hn
  · rw [if_neg heq] at hr
    rw [hrest m heq]
    exact h.shared m r hr

/-- The only holder of a document gets it in another form: it goes to another place, or its record is revised. -/
theorem revise_sole (h : Mirrors w reg place none) (hn : reg.holds[slot]? = some n)
    (hrecord : reg.records[n]? = some record) (hsole : reg.holders n = {slot}) (f : Registry.Record → Registry.Record)
    (target : Option Nat) {cells : Array SharedDocument} (hshared : target.isSome = (f record).shared)
    (hcell : ∀ cell, target = some cell → cells[cell]? = some ⟨(f record).document, 1⟩)
    (hrest : ∀ m cell, n ≠ m → place m = some cell → cells[cell]? = w.cells[cell]? ∧ target ≠ some cell) :
    Mirrors { w with slots := w.slots.insert slot ((f record).slot target), cells := cells } (reg.revise n f)
      (Function.update place n target) none where
  nextId := h.nextId
  known := h.known_revise n f
  slots := by
    refine h.slots_insert (n := n) (fun other => ?_) ?_ fun other m hne hm => ?_
    · by_cases heq : slot = other
      · rw [if_pos heq, ← heq]
        exact hn
      · exact (if_neg heq).symm
    · simp [Registry.shown?, Registry.getElem?_records_revise, hrecord]
    · have hother := ne_of_holders hsole hne hm
      simp [Registry.shown?, Registry.getElem?_records_revise, hother, hother.symm]
  shared := by
    refine h.shared_revise hrecord ?_ fun m hne => Function.update_of_ne (Ne.symm hne) _ _
    rw [Function.update_self, hshared]
  cells m cell hm := by
    rw [Registry.getElem?_records_revise]
    by_cases heq : n = m
    · subst heq
      rw [Function.update_self] at hm
      refine ⟨f record, by rw [if_pos rfl, hrecord]; rfl, ?_⟩
      show cells[cell]? = some ⟨(f record).document, (reg.holders n).card + 0⟩
      rw [hcell cell hm, hsole, Finset.card_singleton]
    · rw [Function.update_of_ne (Ne.symm heq)] at hm
      obtain ⟨r, hr, hkept⟩ := h.cells m cell hm
      exact ⟨r, by rw [if_neg heq, hr], (hrest m cell heq hm).1.trans hkept⟩
  apart m m' cell hm hm' := by
    -- Nothing else is in the new place, and nothing else has moved.
    by_cases heq : n = m <;> by_cases heq' : n = m'
    · exact heq.symm.trans heq'
    · subst heq
      rw [Function.update_self] at hm
      rw [Function.update_of_ne (Ne.symm heq')] at hm'
      exact absurd hm (hrest m' cell heq' hm').2
    · subst heq'
      rw [Function.update_self] at hm'
      rw [Function.update_of_ne (Ne.symm heq)] at hm
      exact absurd hm' (hrest m cell heq hm).2
    · rw [Function.update_of_ne (Ne.symm heq)] at hm
      rw [Function.update_of_ne (Ne.symm heq')] at hm'
      exact h.apart m m' cell hm hm'
  sole m hm := by
    show (reg.holders m).card ≤ 1
    by_cases heq : n = m
    · rw [← heq, hsole, Finset.card_singleton]
    · rw [Function.update_of_ne (Ne.symm heq)] at hm
      exact h.sole m hm

/-- The owner of a document makes it one that can be shared. -/
theorem share (h : Mirrors w reg place none) (hn : reg.holds[slot]? = some n) (hrecord : reg.records[n]? = some record)
    (hplace : place n = none) :
    Mirrors { w with cells := w.cells.push ⟨record.document, 1⟩, slots := w.slots.insert slot (.shared w.cells.size) }
      (reg.revise n ({ · with shared := true })) (Function.update place n (some w.cells.size)) none := by
  refine h.revise_sole hn hrecord (h.holders_of_owned hn hplace) ({ · with shared := true }) (some w.cells.size) rfl
    (fun cell hcell => ?_) fun m cell _ hm => ?_
  · cases hcell
    exact Array.getElem?_push_size
  · obtain ⟨r, -, hcell⟩ := h.cells m cell hm
    have hlt := (Array.getElem?_eq_some_iff.1 hcell).1
    exact ⟨by rw [Array.getElem?_push, if_neg hlt.ne], fun heq => hlt.ne (Option.some.inj heq).symm⟩

/-- The only holder of a shared document gets it back. -/
theorem takeBack (h : Mirrors w reg place none) (hn : reg.holds[slot]? = some n)
    (hrecord : reg.records[n]? = some record) (hplace : place n = some cell) (hsole : reg.holders n = {slot}) :
    Mirrors { w.countHolders cell (· - 1) with slots := w.slots.insert slot (.owned record.document) }
      (reg.revise n ({ · with shared := false })) (Function.update place n none) none := by
  refine h.revise_sole hn hrecord hsole ({ · with shared := false }) none rfl (fun _ => nofun)
    fun m other hne hm => ⟨?_, nofun⟩
  refine (w.getElem?_cells_countHolders cell _ other).trans (if_neg fun heq => hne ?_)
  exact h.apart n m other (heq ▸ hplace) hm

/-- The record of a shared document is revised, and its cell with it. -/
theorem revise_shared (h : Mirrors w reg place hand) (hrecord : reg.records[n]? = some record)
    (hplace : place n = some cell) (f : Registry.Record → Registry.Record)
    (hshared : (f record).shared = record.shared) :
    Mirrors { w with cells := w.cells.modify cell fun c => { c with document := (f record).document } }
      (reg.revise n f) place hand where
  nextId := h.nextId
  known := h.known_revise n f
  slots name := by
    refine (h.slots name).trans (Option.bind_congr fun m _ => ?_)
    by_cases heq : n = m
    · subst heq
      simp [Registry.shown?, Registry.Record.slot, Registry.getElem?_records_revise, hplace, hrecord]
    · simp [Registry.shown?, Registry.getElem?_records_revise, heq]
  shared := by
    refine h.shared_revise hrecord ?_ fun m _ => rfl
    rw [hshared, h.shared n record hrecord]
  cells m other hm := by
    obtain ⟨r, hr, hcell⟩ := h.cells m other hm
    rw [Registry.getElem?_records_revise, Array.getElem?_modify, hcell]
    by_cases heq : n = m
    · subst heq
      cases hrecord.symm.trans hr
      cases hplace.symm.trans hm
      exact ⟨f record, by rw [if_pos rfl, hrecord]; rfl, by rw [if_pos rfl]; rfl⟩
    · have hne : cell ≠ other := fun hsame => heq (h.apart n m cell hplace (hsame ▸ hm))
      exact ⟨r, by rw [if_neg heq, hr], by rw [if_neg hne]; rfl⟩
  apart := h.apart
  sole := h.sole

/-- A document is called by way of one of its holders. -/
theorem call (h : Mirrors w reg place none) (hn : reg.holds[slot]? = some n) (hrecord : reg.records[n]? = some record)
    (c : Document.Call) :
    Mirrors (w.set slot (record.document.call c).2)
      (reg.revise n (Registry.Record.called c)) place none := by
  rw [← record.document_called c]
  unfold Workspace.set
  cases hplace : place n with
  | none =>
    rw [h.slots_of_owned hn hrecord hplace, ← Function.update_eq_self n place, hplace]
    refine h.revise_sole hn hrecord (h.holders_of_owned hn hplace) (.called c) none ?_ (fun _ => nofun)
      fun _ _ _ _ => ⟨rfl, nofun⟩
    exact (congrArg Option.isSome hplace).symm.trans (h.shared n record hrecord)
  | some cell =>
    rw [h.slots_of_shared hn hplace]
    exact h.revise_shared hrecord hplace (.called c) rfl

/-! ## Steps and runs -/

/-- An action is answered the same, and the workspace stands for the registry after it. -/
def Agrees (w : Workspace) (reg : Registry) (action : Action) : Prop :=
  (w.act action).1 = (reg.act action).1 ∧ ∃ place, Mirrors (w.act action).2 (reg.act action).2 place none

theorem agrees_create (h : Mirrors w reg place none) (slot : String) (creation : Creation) :
    Agrees w reg (.create slot creation) := by
  unfold Agrees Workspace.act Registry.act
  dsimp only [Workspace.freshId]
  rw [← h.nextId]
  cases creation.document w.nextId with
  | error e => exact ⟨rfl, place, h.freshId⟩
  | ok d =>
    have hfree := Registry.getElem?_holds_release { reg with nextId := w.nextId + 1 } slot slot
    exact ⟨rfl, place, (h.freshId.release slot).enter (hfree.trans (if_pos rfl)) d⟩

theorem agrees_call (h : Mirrors w reg place none) (slot : String) (c : Document.Call) :
    Agrees w reg (.call slot c) := by
  unfold Agrees Workspace.act Registry.act
  dsimp only
  rw [h.get?_eq, Registry.get?]
  cases hheld : reg.held? slot with
  | none => exact ⟨rfl, place, h⟩
  | some held =>
    obtain ⟨hn, hrecord⟩ := Registry.held?_eq_some_iff.1 hheld
    exact ⟨rfl, place, h.call hn hrecord c⟩

theorem agrees_share (h : Mirrors w reg place none) (slot : String) : Agrees w reg (.share slot) := by
  unfold Agrees Workspace.act Registry.act Workspace.share
  dsimp only
  rcases h.slot_cases slot with ⟨hheld, hslot⟩ | ⟨n, record, hn, hrecord, hplace, -, hslot⟩ |
    ⟨n, record, cell, hn, hrecord, -, hshared, hslot, -⟩
  · rw [hheld, hslot]
    exact ⟨rfl, place, h⟩
  · rw [Registry.held?_eq_some_iff.2 ⟨hn, hrecord⟩, hslot]
    exact ⟨rfl, _, h.share hn hrecord hplace⟩
  · have hsame : (fun r : Registry.Record => { r with shared := true }) record = record := by rw [← hshared]
    rw [Registry.held?_eq_some_iff.2 ⟨hn, hrecord⟩, hslot]
    dsimp only
    rw [Registry.revise_eq_self hrecord hsame]
    exact ⟨rfl, place, h⟩

/-- A copy is a holder more, which then gets its slot in the place of what was there. -/
theorem agrees_copy (h : Mirrors w reg place none) (source target : String) : Agrees w reg (.copy source target) := by
  unfold Agrees Workspace.act Registry.act Workspace.copyHolder
  dsimp only
  rcases h.slot_cases source with ⟨hheld, hslot⟩ | ⟨n, record, hn, hrecord, -, hshared, hslot⟩ |
    ⟨n, record, cell, hn, hrecord, hplace, hshared, hslot, -⟩
  · rw [hheld, hslot]
    exact ⟨rfl, place, h⟩
  · rw [Registry.held?_eq_some_iff.2 ⟨hn, hrecord⟩, hslot]
    dsimp only
    rw [hshared]
    exact ⟨rfl, place, h⟩
  · have hfree := Registry.getElem?_holds_release reg target target
    rw [Registry.held?_eq_some_iff.2 ⟨hn, hrecord⟩, hslot]
    dsimp only
    rw [hshared]
    exact ⟨rfl, place, ((h.lend hplace).release target).settle (hfree.trans (if_pos rfl)) hplace⟩

/-- The count is one if and only if the slot is the only holder. -/
theorem agrees_takeBack (h : Mirrors w reg place none) (slot : String) : Agrees w reg (.takeBack slot) := by
  unfold Agrees Workspace.act Registry.act Workspace.takeBack
  dsimp only
  rcases h.slot_cases slot with ⟨hheld, hslot⟩ | ⟨n, record, hn, hrecord, -, hshared, hslot⟩ |
    ⟨n, record, cell, hn, hrecord, hplace, hshared, hslot, hcell⟩
  · rw [hheld, hslot]
    exact ⟨rfl, place, h⟩
  · rw [Registry.held?_eq_some_iff.2 ⟨hn, hrecord⟩, hslot]
    dsimp only
    rw [hshared]
    exact ⟨rfl, place, h⟩
  · have hcount : w.cells[cell]? = some ⟨record.document, (reg.holders n).card⟩ := hcell
    have hone := Registry.card_holders_eq_one_iff hn
    rw [Registry.held?_eq_some_iff.2 ⟨hn, hrecord⟩, hslot]
    dsimp only
    rw [hcount, hshared]
    dsimp only
    by_cases hsole : reg.holders n = {slot}
    · rw [if_pos (hone.2 hsole), if_pos ⟨rfl, hsole⟩]
      exact ⟨rfl, _, h.takeBack hn hrecord hplace hsole⟩
    · rw [if_neg (mt hone.1 hsole), if_neg (fun hboth => hsole hboth.2)]
      exact ⟨rfl, place, h⟩

theorem act (h : Mirrors w reg place none) (action : Action) : Agrees w reg action := by
  cases action with
  | create slot creation => exact h.agrees_create slot creation
  | call slot c => exact h.agrees_call slot c
  | share slot => exact h.agrees_share slot
  | copy source target => exact h.agrees_copy source target
  | release slot => exact ⟨rfl, place, h.release slot⟩
  | takeBack slot => exact h.agrees_takeBack slot

/-- Actions are answered the same, what there is to see after each of them is the same, and the workspace stands for the
registry after all of them. -/
theorem run (h : Mirrors w reg place none) (actions : List Action) :
    Action.trace Workspace.act Workspace.get? w actions = Action.trace Registry.act Registry.get? reg actions ∧
      ∃ place, Mirrors (Action.run Workspace.act w actions) (Action.run Registry.act reg actions) place none := by
  induction actions generalizing w reg place with
  | nil => exact ⟨rfl, place, h⟩
  | cons action actions ih =>
    obtain ⟨hreply, place', hafter⟩ := h.act action
    obtain ⟨htrace, hrun⟩ := ih hafter
    refine ⟨?_, hrun⟩
    rw [Action.trace, Action.trace, hreply, htrace, funext hafter.get?_eq]

end Mirrors

end IniDoc
