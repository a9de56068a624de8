import IniDoc.Proofs.MirrorRuns

/-!
# Shared documents

A registry has each document once, so that what holds of a document holds of it in whatever slots it is. A workspace
answers and shows the same, and so the same holds of its documents, shared or not.

* `Registry.Sound`, `Registry.Grows`: documents are well formed and are only added to.
* `Registry.Sound.exists_path`: a handle stands for one entry as long as its document is there.
* `Workspace.sharing_transparent`: both together.
-/

namespace IniDoc

/-! ## Handles -/

namespace Registry

open Workspace (Action)

variable {reg reg' reg'' : Registry} {slot : String} {n : Nat} {handle : Handle}

/-- All documents are well formed. -/
def Sound (reg : Registry) : Prop := ∀ (n : Nat) record, reg.records[n]? = some record → record.document.WellFormed

/-- A registry after actions: every document is there after changes. -/
def Grows (reg reg' : Registry) : Prop :=
  ∀ (n : Nat) record, reg.records[n]? = some record →
    ∃ record', reg'.records[n]? = some record' ∧ record.document.Grows record'.document

theorem sound_empty : empty.Sound := fun _ _ h => nomatch h

theorem Grows.of_records (h : reg'.records = reg.records) : reg.Grows reg' :=
  fun _ record hrecord => ⟨record, h ▸ hrecord, .refl _⟩

theorem Grows.trans (h : reg.Grows reg') (h' : reg'.Grows reg'') : reg.Grows reg'' := by
  intro n record hrecord
  obtain ⟨record', hrecord', hgrows⟩ := h n record hrecord
  obtain ⟨record'', hrecord'', hgrows'⟩ := h' n record' hrecord'
  exact ⟨record'', hrecord'', hgrows.trans hgrows'⟩

theorem Sound.revise (hreg : reg.Sound) {f : Record → Record}
    (hf : ∀ record : Record, record.document.WellFormed →
      (f record).document.WellFormed ∧ record.document.Grows (f record).document) :
    (reg.revise n f).Sound ∧ reg.Grows (reg.revise n f) := by
  constructor
  · intro m record hrecord
    rw [getElem?_records_revise] at hrecord
    split at hrecord
    · obtain ⟨record', hrecord', rfl⟩ := Option.map_eq_some_iff.1 hrecord
      exact (hf record' (hreg m record' hrecord')).1
    · exact hreg m record hrecord
  · intro m record hrecord
    rw [getElem?_records_revise, hrecord]
    split
    · exact ⟨f record, rfl, (hf record (hreg m record hrecord)).2⟩
    · exact ⟨record, rfl, .refl _⟩

theorem Sound.enter (hreg : reg.Sound) {d : Document} (hd : d.WellFormed) :
    (reg.enter slot d).Sound ∧ reg.Grows (reg.enter slot d) := by
  constructor
  · intro m record hrecord
    rw [Registry.enter, Array.getElem?_push] at hrecord
    split at hrecord
    · cases hrecord
      exact hd
    · exact hreg m record hrecord
  · intro m record hrecord
    have hlt := (Array.getElem?_eq_some_iff.1 hrecord).1
    refine ⟨record, ?_, .refl _⟩
    rw [Registry.enter, Array.getElem?_push]
    exact (if_neg hlt.ne).trans hrecord

/-- An action keeps the documents well formed and only adds to them. -/
theorem Sound.act (hreg : reg.Sound) (action : Action) : (reg.act action).2.Sound ∧ reg.Grows (reg.act action).2 := by
  have hmark (n : Nat) (shared : Bool) :
      (reg.revise n ({ · with shared := shared })).Sound ∧ reg.Grows (reg.revise n ({ · with shared := shared })) :=
    hreg.revise fun record hrecord => ⟨hrecord, .refl _⟩
  cases action with
  | create slot creation =>
    unfold Registry.act
    dsimp only
    split
    · next d hd =>
      have htaken : Sound { reg with nextId := reg.nextId + 1 } := hreg
      exact htaken.enter (Document.made_of_creation hd).2
    · exact ⟨hreg, .of_records rfl⟩
  | call slot c =>
    unfold Registry.act
    dsimp only
    split
    · refine hreg.revise fun record hrecord => ?_
      rw [record.document_called]
      exact ⟨Document.wellFormed_call hrecord c, Document.grows_call hrecord c⟩
    · exact ⟨hreg, .of_records rfl⟩
  | share slot =>
    unfold Registry.act
    dsimp only
    split
    · exact hmark _ true
    · exact ⟨hreg, .of_records rfl⟩
  | copy source target =>
    unfold Registry.act
    dsimp only
    split
    · split
      · exact ⟨hreg, .of_records rfl⟩
      · exact ⟨hreg, .of_records rfl⟩
    · exact ⟨hreg, .of_records rfl⟩
  | release slot => exact ⟨hreg, .of_records rfl⟩
  | takeBack slot =>
    unfold Registry.act
    dsimp only
    split
    · split
      · exact hmark _ false
      · exact ⟨hreg, .of_records rfl⟩
    · exact ⟨hreg, .of_records rfl⟩

theorem Sound.run (hreg : reg.Sound) (actions : List Action) :
    (Action.run Registry.act reg actions).Sound ∧ reg.Grows (Action.run Registry.act reg actions) := by
  induction actions generalizing reg with
  | nil => exact ⟨hreg, .of_records rfl⟩
  | cons action actions ih =>
    obtain ⟨hafter, hgrows⟩ := hreg.act action
    obtain ⟨hrun, hgrows'⟩ := ih hafter
    exact ⟨hrun, hgrows.trans hgrows'⟩

/-- A document is taken back if and only if it is shared and no other slot holds it. -/
theorem taken_iff : (reg.act (.takeBack slot)).1 = .taken true ↔
    ∃ n record, reg.holds[slot]? = some n ∧ reg.records[n]? = some record ∧ record.shared = true ∧
      ∀ other, reg.holds[other]? = some n → other = slot := by
  unfold Registry.act
  dsimp only
  constructor
  · intro h
    split at h
    · next n record hheld =>
      obtain ⟨hn, hrecord⟩ := held?_eq_some_iff.1 hheld
      split at h
      · next hboth => exact ⟨n, record, hn, hrecord, hboth.1, (holders_eq_singleton_iff hn).1 hboth.2⟩
      · cases h
    · cases h
  · rintro ⟨n, record, hn, hrecord, hshared, hsole⟩
    rw [held?_eq_some_iff.2 ⟨hn, hrecord⟩]
    dsimp only
    rw [if_pos ⟨hshared, (holders_eq_singleton_iff hn).2 hsole⟩]

/-- A handle that a call answers stands for something in the document of the slot, and stands for it after all that
comes later, in whatever slot the document then is. -/
theorem Sound.exists_path (hreg : reg.Sound) {c : Document.Call} (hn : reg.holds[slot]? = some n)
    (ha : (reg.act (.call slot c)).1 = .handle (some handle)) :
    ∃ path, ∀ later slot', (Action.run Registry.act reg (.call slot c :: later)).holds[slot']? = some n →
      ∃ d, (Action.run Registry.act reg (.call slot c :: later)).get? slot' = some d ∧ d.path? handle = some path := by
  unfold Registry.act at ha
  dsimp only at ha
  split at ha
  · next m record hheld =>
    obtain ⟨hm, hrecord⟩ := held?_eq_some_iff.1 hheld
    cases hn.symm.trans hm
    obtain ⟨path, hpath⟩ := Document.exists_path_call (hreg n record hrecord) (Workspace.Reply.handle.inj ha)
    have hcalled : (reg.act (.call slot c)).2.records[n]? = some (record.called c) := by
      simp only [Registry.act, hheld, getElem?_records_revise, hrecord, if_true, Option.map_some]
    refine ⟨path, fun later slot' hslot' => ?_⟩
    obtain ⟨record', hrecord', hgrows⟩ := ((hreg.act (.call slot c)).1.run later).2 n _ hcalled
    refine ⟨record'.document, ?_, ?_⟩
    · rw [Registry.get?, held?_eq_some_iff.2 ⟨hslot', hrecord'⟩]
      rfl
    · rw [record.document_called] at hgrows
      exact hgrows.path? hpath
  · cases ha

end Registry

/-! ## Workspaces -/

namespace Workspace

/-- A document is taken back, or it stays where it is. -/
theorem takeBack_cases (w : Workspace) (slot : String) :
    (w.takeBack slot).1 = true ∨ w.takeBack slot = (false, w) := by
  unfold takeBack
  split
  · split
    · split
      · exact .inl rfl
      · exact .inr rfl
    · exact .inr rfl
  · exact .inr rfl

/-- Whatever documents are made, shared, copied to other slots, called by way of any slot, released and taken back in
whatever order: every action is answered, and every slot shows after it, what a registry answers and shows that has each
document once, with all calls made by way of any of its holders in their order. A document is taken back if and only if
it is shared and no other slot holds it; otherwise nothing changes. A handle that a call answers stands for one entry
ever after, in whatever slots its document then is, and whether it is shared then or not. -/
theorem sharing_transparent (actions : List Action) :
    let w := Action.run act .empty actions
    let reg := Action.run Registry.act .empty actions
    Action.trace act get? .empty actions = Action.trace Registry.act Registry.get? .empty actions ∧
      (∀ slot, ((w.takeBack slot).1 = true ↔
          ∃ n record, reg.holds[slot]? = some n ∧ reg.records[n]? = some record ∧ record.shared = true ∧
            ∀ other, reg.holds[other]? = some n → other = slot) ∧
        ((w.takeBack slot).1 = false → (w.takeBack slot).2 = w)) ∧
      ∀ slot c n handle, reg.holds[slot]? = some n → (w.act (.call slot c)).1 = .handle (some handle) →
        ∃ path, ∀ later slot', (Action.run Registry.act reg (.call slot c :: later)).holds[slot']? = some n →
          ∃ d, (Action.run act w (.call slot c :: later)).get? slot' = some d ∧ d.path? handle = some path := by
  intro w reg
  obtain ⟨htrace, place, h⟩ := Mirrors.empty.run actions
  have hreg : reg.Sound := (Registry.sound_empty.run actions).1
  refine ⟨htrace, fun slot => ⟨?_, fun hfalse => ?_⟩, fun slot c n handle hn ha => ?_⟩
  · rw [← Registry.taken_iff, ← (h.act (.takeBack slot)).1]
    exact ⟨fun htaken => congrArg Reply.taken htaken, Reply.taken.inj⟩
  · rcases w.takeBack_cases slot with htrue | hkept
    · exact nomatch hfalse.symm.trans htrue
    · rw [hkept]
  · rw [(h.act (.call slot c)).1] at ha
    obtain ⟨path, hpath⟩ := hreg.exists_path hn ha
    refine ⟨path, fun later slot' hslot' => ?_⟩
    obtain ⟨d, hd, hd'⟩ := hpath later slot' hslot'
    obtain ⟨-, place', h'⟩ := h.run (.call slot c :: later)
    exact ⟨d, (h'.get?_eq slot').trans hd, hd'⟩

/-- A key that one holder puts into a document is found by the other when that one has got the document back. -/
theorem sharing_transparent_of_copy :
    let before : List Action := [.create "a" .empty, .call "a" (.change (.addSection "S")), .share "a", .copy "a" "b"]
    let put : Action := .call "b" (.change (.insertKey ⟨1, 0⟩ none .last "k" "1"))
    let later : List Action := [.release "b", .takeBack "a", .call "a" (.scan default "[T]\nx=1\n")]
    let w := Action.run act .empty before
    (w.takeBack "a").1 = false ∧ ((Action.run act w [put, .release "b"]).takeBack "a").1 = true ∧
      ∃ d, (Action.run act w (put :: later)).get? "a" = some d ∧
        d.path? (.inr ⟨⟨1, 0⟩, 0⟩) = some ("S", some "k") := by
  intro before put later w
  obtain ⟨-, -, hhandles⟩ := sharing_transparent before
  obtain ⟨path, hpath⟩ := hhandles "b" (.change (.insertKey ⟨1, 0⟩ none .last "k" "1")) 0 (.inr ⟨⟨1, 0⟩, 0⟩)
    (by decide +kernel) (by decide +kernel)
  obtain ⟨d, hd, hd'⟩ := hpath [] "b" (by decide +kernel)
  obtain ⟨d', hlater⟩ := hpath later "a" (by decide +kernel)
  have hnow : ((Action.run act w [put]).get? "b").bind (·.path? (.inr ⟨⟨1, 0⟩, 0⟩)) = some ("S", some "k") := by
    decide +kernel
  rw [hd, Option.bind_some, hd'] at hnow
  exact ⟨by decide +kernel, by decide +kernel, d', hnow ▸ hlater⟩

end Workspace

end IniDoc
