import IniDoc.Proofs.Handles
import IniDoc.Proofs.Transfers
import IniDoc.Workspace

/-!
# Runs on several documents

Documents are made and called in any order, and the handles that the calls answer are noted down together with what
they stand for at that time. A slot of a workspace stands for one document throughout a run.

* `Document.Call`, `Document.call`: the calls that can answer a handle or change a document.
* `Creation`: the ways to make a document.
* `Workspace.Event`, `Workspace.step`: makings and calls; `Workspace.Sound` is what they keep.
* `History.handles_run`: what a handle stands for, it stands for at every later time and nowhere else.
-/

namespace IniDoc

open Text (Bytes)

/-! ## Calls -/

/-- A way to a section: by its name, by its handle, or by its place in the order. -/
inductive Document.Way where
  | named (name : String)
  | handle (id : SectionId)
  | nth (k : Nat)
  deriving Repr, DecidableEq

/-- A call that can answer a handle or change a document. -/
inductive Document.Call where
  | change (m : Mutation)
  | insertAt (way : Document.Way) (anchor : Option KeyId) (insertion : Insertion) (name data : String)
  | scan (options : Options) (text : String)
  | findSection (name : String)
  | idOfSection (way : Document.Way)
  | findKey (way : Document.Way) (name : String)
  | idOfCursor (way : Document.Way) (moves : Nat)
  deriving Repr, DecidableEq

namespace Document

/-- The section that a way leads to. -/
def reach? (d : Document) : Way → Option Section
  | .named name => d.named? name
  | .handle id => d.section? id
  | .nth k => d.sections.toList[k]?

/-- The handle that a mutation answers, if it is not refused, and the document after it. -/
def change (d : Document) (m : Mutation) : Option Handle × Document :=
  ((d.mutate m).1.bind Except.toOption, (d.mutate m).2)

/-- The handle that a call answers, if it answers one, and the document after it. -/
def call (d : Document) : Call → Option Handle × Document
  | .change m => d.change m
  | .insertAt way anchor insertion name data =>
    match d.reach? way with
    | some s => d.change (.insertKey s.id anchor insertion name data)
    | none => (none, d)
  | .scan options text => (none, (d.scan options text).1)
  | .findSection name => ((d.find? name).map .inl, d)
  | .idOfSection way => ((d.reach? way).map fun s => .inl s.id, d)
  | .findKey way name => (((d.reach? way).bind (·.find? name)).map .inr, d)
  | .idOfCursor way moves => (((d.reach? way).bind Cursor.first?).map fun cursor => .inr (cursor.moved moves).id, d)

variable {d : Document} {s : Section} {way : Way} {c : Call} {handle : Handle}

/-- A section that a way leads to is the one that its handle stands for. -/
theorem section?_of_reach? (hd : d.WellFormed) (h : d.reach? way = some s) : d.section? s.id = some s := by
  cases way with
  | named name =>
    obtain ⟨i, -, hi⟩ := Option.bind_eq_some_iff.1 h
    rw [(hd.each i s hi).1, section?_sectionId, hi]
  | handle id => rw [id_of_section? hd h, ← h, reach?]
  | nth k => exact (mem_toList_iff hd).1 (List.mem_of_getElem? h)

theorem exists_path_change (hd : d.WellFormed) {m : Mutation} (h : (d.change m).1 = some handle) :
    ∃ path, (d.change m).2.path? handle = some path := by
  obtain ⟨answer, hm, ha⟩ := Option.bind_eq_some_iff.1 h
  cases answer with
  | error e => cases ha
  | ok handle' =>
    cases ha
    exact exists_path_mutate hd hm

theorem grows_call (hd : d.WellFormed) (c : Call) : d.Grows (d.call c).2 := by
  cases c with
  | change m => exact grows_mutate hd m
  | insertAt way anchor insertion name data =>
    unfold call
    dsimp only
    split
    · exact grows_mutate hd _
    · exact .refl d
  | scan options text => exact grows_scan hd options text
  | findSection name => exact .refl d
  | idOfSection way => exact .refl d
  | findKey way name => exact .refl d
  | idOfCursor way moves => exact .refl d

theorem wellFormed_call (hd : d.WellFormed) (c : Call) : (d.call c).2.WellFormed := by
  cases c with
  | change m => exact hd.mutate m
  | insertAt way anchor insertion name data =>
    unfold call
    dsimp only
    split
    · exact hd.mutate _
    · exact hd
  | scan options text => exact wellFormed_scanChars hd options text.toList
  | findSection name => exact hd
  | idOfSection way => exact hd
  | findKey way name => exact hd
  | idOfCursor way moves => exact hd

/-- The handle that a call answers stands for something. -/
theorem exists_path_call (hd : d.WellFormed) (h : (d.call c).1 = some handle) :
    ∃ path, (d.call c).2.path? handle = some path := by
  cases c with
  | change m => exact exists_path_change hd h
  | insertAt way anchor insertion name data =>
    unfold call at h ⊢
    dsimp only at h ⊢
    split at h
    · exact exists_path_change hd h
    · cases h
  | scan options text => cases h
  | findSection name =>
    obtain ⟨id, hfind, rfl⟩ := Option.map_eq_some_iff.1 h
    obtain ⟨i, hi, rfl⟩ := Option.map_eq_some_iff.1 hfind
    obtain ⟨s, hs, -⟩ := (hd.sections.find?_eq_some_iff name i).1 hi
    exact ⟨_, path?_section ((section?_sectionId d i).trans hs)⟩
  | idOfSection way =>
    obtain ⟨s, hs, rfl⟩ := Option.map_eq_some_iff.1 h
    exact ⟨_, path?_section (section?_of_reach? hd hs)⟩
  | findKey way name =>
    obtain ⟨k, hfind, rfl⟩ := Option.map_eq_some_iff.1 h
    obtain ⟨s, hs, hk⟩ := Option.bind_eq_some_iff.1 hfind
    have hsection := section?_of_reach? hd hs
    obtain ⟨key, hkey⟩ := (hd.of_section? hsection).exists_key_of_find? hk
    exact ⟨_, path?_key hsection hkey⟩
  | idOfCursor way moves =>
    obtain ⟨cursor, hcursor, rfl⟩ := Option.map_eq_some_iff.1 h
    obtain ⟨s, hs, hfirst⟩ := Option.bind_eq_some_iff.1 hcursor
    have howner : (cursor.moved moves).owner = s := (cursor.owner_moved moves).trans (Cursor.owner_first? hfirst)
    have hkey := (cursor.moved moves).key?_id
    rw [howner] at hkey
    exact ⟨_, path?_key (section?_of_reach? hd hs) hkey⟩

end Document

/-! ## Making documents -/

/-- A way to make a document. -/
inductive Creation : Type 1 where
  | empty
  | parse (options : Options) (text : String)
  | ofBytes (options : Options) (bytes : Bytes)
  | load {σ η : Type} (storage : Storage (StateM σ) η) (s : σ) (name : String) (options : Options) (room : Nat)

/-- What a way to make a document gives, with an identity of its own. -/
def Creation.document (id : Nat) : Creation → Except Error Document
  | .empty => .ok (.empty id)
  | .parse options text => Document.parse id options text
  | .ofBytes options bytes => Document.ofBytes id options bytes
  | .load storage s name options room => ((Document.load storage name options id room).run s).1

namespace Document

variable {id room : Nat} {options : Options} {text name : String} {d : Document} {σ η : Type}

theorem made_of_parse (h : parse id options text = .ok d) : d.id = id ∧ d.WellFormed := by
  unfold parse at h
  cases hr : ((empty id).scan options text).2 with
  | error e =>
    simp only [hr] at h
    cases h
  | ok summary =>
    simp only [hr] at h
    cases h
    exact ⟨(grows_scan (wellFormed_empty id) options text).id, wellFormed_scanChars (wellFormed_empty id) _ _⟩

theorem made_of_load {storage : Storage (StateM σ) η} {s : σ}
    (h : ((load storage name options id room).run s).1 = .ok d) : d.id = id ∧ d.WellFormed := by
  obtain ⟨bytes, hbytes⟩ := exists_ofBytes_of_load h
  exact made_of_parse hbytes

/-- A document that is made has the identity it was given. -/
theorem made_of_creation {creation : Creation} (h : creation.document id = .ok d) : d.id = id ∧ d.WellFormed := by
  cases creation with
  | empty =>
    cases h
    exact ⟨rfl, wellFormed_empty id⟩
  | parse options text => exact made_of_parse h
  | ofBytes options bytes => exact made_of_parse h
  | load storage s name options room => exact made_of_load h

end Document

/-! ## Documents in slots -/

/-- A document is made in a slot, or the document of a slot is called. -/
inductive Workspace.Event : Type 1 where
  | create (slot : String) (creation : Creation)
  | call (slot : String) (call : Document.Call)

/-- The slot of an event. -/
def Workspace.Event.slot : Event → String
  | .create slot _ => slot
  | .call slot _ => slot

namespace Workspace

/-- The handle that an event answers, if it answers one, and the workspace after it. Every making takes an identity;
what is made for a slot that has a document is given up. -/
def step (w : Workspace) : Event → Option Handle × Workspace
  | .create slot creation =>
    let (id, taken) := w.freshId
    match w.get? slot, creation.document id with
    | none, .ok d => (none, taken.put slot d)
    | _, _ => (none, taken)
  | .call slot call =>
    match w.get? slot with
    | some d => ((d.call call).1, w.set slot (d.call call).2)
    | none => (none, w)

/-- The workspace with a document of its own in a slot. -/
def keep (w : Workspace) (slot : String) (d : Document) : Workspace :=
  { w with slots := w.slots.insert slot (.owned d) }

/-- All that an event can do to a workspace, with the handle it answers. -/
inductive Does (w : Workspace) : Event → Option Handle × Workspace → Prop where
  | wasted (slot : String) (creation : Creation) : w.Does (.create slot creation) (none, w.freshId.2)
  | created (slot : String) (creation : Creation) (d : Document) (hfree : w.get? slot = none)
    (hd : creation.document w.nextId = .ok d) : w.Does (.create slot creation) (none, w.freshId.2.keep slot d)
  | missed (slot : String) (call : Document.Call) : w.Does (.call slot call) (none, w)
  | called (slot : String) (call : Document.Call) (d : Document) (hd : w.get? slot = some d) :
    w.Does (.call slot call) ((d.call call).1, w.keep slot (d.call call).2)

/-- Slots own their documents, which are well formed and have identities of their own. -/
structure Sound (w : Workspace) : Prop where
  owned : ∀ (slot : String) (cell : Nat), w.slots[slot]? ≠ some (.shared cell)
  each : ∀ slot d, w.get? slot = some d → d.WellFormed ∧ d.id < w.nextId
  apart : ∀ slot slot' d d', w.get? slot = some d → w.get? slot' = some d' → d.id = d'.id → slot = slot'

/-- A workspace after events: each slot with a document has the same one after changes. -/
def Grows (w w' : Workspace) : Prop :=
  ∀ slot d, w.get? slot = some d → ∃ d', w'.get? slot = some d' ∧ d.Grows d'

variable {w w' w'' : Workspace} {slot : String} {d : Document} {event : Event} {r : Option Handle × Workspace}

theorem get?_keep (w : Workspace) (slot : String) (d : Document) (slot' : String) :
    (w.keep slot d).get? slot' = if slot = slot' then some d else w.get? slot' := by
  unfold get? keep
  rw [Std.TreeMap.getElem?_insert]
  by_cases h : slot = slot' <;> simp [h]

theorem sound_empty : empty.Sound where
  owned _ _ := nofun
  each _ _ := nofun
  apart _ _ _ _ := nofun

namespace Sound

theorem slots_of_some (hw : w.Sound) (h : w.get? slot = some d) : w.slots[slot]? = some (.owned d) := by
  unfold get? at h
  split at h
  · next heq =>
    cases h
    exact heq
  · next cell heq => exact absurd heq (hw.owned slot cell)
  · cases h

theorem slots_of_none (hw : w.Sound) (h : w.get? slot = none) : w.slots[slot]? = none := by
  unfold get? at h
  split at h
  · cases h
  · next cell heq => exact absurd heq (hw.owned slot cell)
  · next heq => exact heq

/-- A new identity belongs to no document. -/
theorem freshId (hw : w.Sound) : w.freshId.2.Sound where
  owned := hw.owned
  each slot d h := ⟨(hw.each slot d h).1, Nat.lt_succ_of_lt (hw.each slot d h).2⟩
  apart := hw.apart

theorem keep (hw : w.Sound) (hd : d.WellFormed) (hid : d.id < w.nextId)
    (hother : ∀ slot' d', slot' ≠ slot → w.get? slot' = some d' → d'.id ≠ d.id) : (w.keep slot d).Sound := by
  constructor
  · intro slot' cell
    unfold Workspace.keep
    rw [Std.TreeMap.getElem?_insert]
    split
    · exact nofun
    · exact hw.owned slot' cell
  · intro slot' d' h
    rw [get?_keep] at h
    split at h
    · cases h
      exact ⟨hd, hid⟩
    · exact hw.each slot' d' h
  · intro slot₁ slot₂ d₁ d₂ h₁ h₂ heq
    rw [get?_keep] at h₁ h₂
    split_ifs at h₁ h₂ with hs₁ hs₂ hs₂
    · exact hs₁.symm.trans hs₂
    · cases h₁
      exact absurd heq.symm (hother slot₂ d₂ (Ne.symm hs₂) h₂)
    · cases h₂
      exact absurd heq (hother slot₁ d₁ (Ne.symm hs₁) h₁)
    · exact hw.apart slot₁ slot₂ d₁ d₂ h₁ h₂ heq

theorem does_step (hw : w.Sound) (event : Event) : w.Does event (w.step event) := by
  cases event with
  | create slot creation =>
    show w.Does _ (match w.get? slot, creation.document w.nextId with
      | none, .ok d => (none, w.freshId.2.put slot d)
      | _, _ => (none, w.freshId.2))
    split
    · next d hfree hd =>
      have hput : w.freshId.2.put slot d = w.freshId.2.keep slot d := by
        unfold put release
        rw [hw.freshId.slots_of_none hfree]
        rfl
      exact hput ▸ .created slot creation d hfree hd
    · exact .wasted slot creation
  | call slot call =>
    unfold step
    dsimp only
    split
    · next d hd =>
      have hset : w.set slot (d.call call).2 = w.keep slot (d.call call).2 := by
        unfold set
        rw [hw.slots_of_some hd]
        rfl
      exact hset ▸ .called slot call d hd
    · exact .missed slot call

/-- Documents keep to their slots and their identities. -/
theorem does (hw : w.Sound) (h : w.Does event r) : r.2.Sound := by
  cases h with
  | wasted => exact hw.freshId
  | created slot creation d hfree hd =>
    obtain ⟨hid, hwell⟩ := Document.made_of_creation hd
    refine hw.freshId.keep hwell (hid ▸ Nat.lt_succ_self _) fun slot' d' _ hd' heq => ?_
    exact absurd (hid ▸ heq) (hw.each slot' d' hd').2.ne
  | missed => exact hw
  | called slot call d hd =>
    obtain ⟨hwell, hlt⟩ := hw.each slot d hd
    have hid := (Document.grows_call hwell call).id
    refine hw.keep (Document.wellFormed_call hwell call) (hid ▸ hlt) fun slot' d' hne hd' heq => hne ?_
    exact hw.apart slot' slot d' d hd' hd (heq.trans hid)

theorem grows_does (hw : w.Sound) (h : w.Does event r) : w.Grows r.2 := by
  intro slot' d' hd'
  cases h with
  | wasted => exact ⟨d', hd', .refl d'⟩
  | created slot creation d hfree hd =>
    have hne : slot ≠ slot' := by
      rintro rfl
      rw [hfree] at hd'
      cases hd'
    refine ⟨d', ?_, .refl d'⟩
    rw [get?_keep, if_neg hne]
    exact hd'
  | missed => exact ⟨d', hd', .refl d'⟩
  | called slot call d hd =>
    rw [get?_keep]
    by_cases heq : slot = slot'
    · subst heq
      cases hd'.symm.trans hd
      exact ⟨_, if_pos rfl, Document.grows_call (hw.each slot d' hd').1 call⟩
    · exact ⟨d', (if_neg heq).trans hd', .refl d'⟩

/-- A handle that is answered stands for something in the document of its slot. -/
theorem exists_path_does (hw : w.Sound) (h : w.Does event r) {handle : Handle} (ha : r.1 = some handle) :
    ∃ d path, r.2.get? event.slot = some d ∧ d.path? handle = some path := by
  cases h with
  | wasted => cases ha
  | created => cases ha
  | missed => cases ha
  | called slot call d hd =>
    obtain ⟨path, hp⟩ := Document.exists_path_call (hw.each slot d hd).1 ha
    exact ⟨_, path, (get?_keep ..).trans (if_pos rfl), hp⟩

end Sound

end Workspace

/-! ## Handles noted down -/

/-- A handle that was answered: the slot of its document, and what it stood for then. -/
structure Issue where
  slot : String
  handle : Handle
  path : Option (String × Option String)
  deriving Repr, DecidableEq

/-- The note of a handle that the document of a slot answers. -/
def Workspace.issue (w : Workspace) (slot : String) (handle : Handle) : Issue :=
  ⟨slot, handle, (w.get? slot).bind (·.path? handle)⟩

/-- A workspace with all handles that were answered on the way to it, the latest first. -/
structure History where
  workspace : Workspace
  issued : List Issue

namespace History

open Workspace (Event)

/-- The history of an empty workspace. -/
def start : History := ⟨.empty, []⟩

/-- Lets an event happen and notes down the handle it answers. -/
def step (history : History) (event : Event) : History :=
  let r := history.workspace.step event
  ⟨r.2, (r.1.map (r.2.issue event.slot)).toList ++ history.issued⟩

/-- Lets events happen one after another. -/
def run (history : History) (events : List Event) : History := events.foldl step history

/-- The workspace is sound, and the handles stand for what they stood for when they were answered. -/
structure Sound (history : History) : Prop where
  workspace : history.workspace.Sound
  stands : ∀ issue ∈ history.issued, ∃ d path, history.workspace.get? issue.slot = some d ∧
    issue.path = some path ∧ d.path? issue.handle = some path

variable {history : History} {issue other : Issue}

theorem sound_start : start.Sound := ⟨Workspace.sound_empty, fun _ => nofun⟩

theorem Sound.step (h : history.Sound) (event : Event) : (history.step event).Sound := by
  have hdoes := h.workspace.does_step event
  refine ⟨h.workspace.does hdoes, fun issue hissue => ?_⟩
  rcases List.mem_append.1 hissue with hnew | hold
  · obtain ⟨handle, ha, rfl⟩ := Option.map_eq_some_iff.1 (Option.mem_toList.1 hnew)
    obtain ⟨d, path, hd, hp⟩ := h.workspace.exists_path_does hdoes ha
    refine ⟨d, path, hd, ?_, hp⟩
    rw [Workspace.issue, hd, Option.bind_some, hp]
  · obtain ⟨d, path, hd, hpath, hp⟩ := h.stands issue hold
    obtain ⟨d', hd', hgrows⟩ := h.workspace.grows_does hdoes issue.slot d hd
    exact ⟨d', path, hd', hpath, hgrows.path? hp⟩

theorem Sound.run (h : history.Sound) (events : List Event) : (history.run events).Sound := by
  induction events generalizing history with
  | nil => exact h
  | cons event events ih => exact ih (h.step event)

theorem issued_run (history : History) (events : List Event) : history.issued ⊆ (history.run events).issued := by
  induction events generalizing history with
  | nil => exact List.Subset.refl _
  | cons event events ih =>
    exact List.Subset.trans (List.subset_append_right _ _) (ih (history.step event))

/-- Two handles are the same if and only if they are from the same document and stood for the same. -/
theorem Sound.handle_eq_iff (h : history.Sound) (hi : issue ∈ history.issued) (ho : other ∈ history.issued) :
    issue.handle = other.handle ↔ issue.slot = other.slot ∧ issue.path = other.path := by
  obtain ⟨d, path, hd, hpath, hp⟩ := h.stands issue hi
  obtain ⟨d', path', hd', hpath', hp'⟩ := h.stands other ho
  constructor
  · intro heq
    have hid : d.id = d'.id := by
      rw [← Document.document_of_path? hp, ← Document.document_of_path? hp', heq]
    have hslot := h.workspace.apart _ _ d d' hd hd' hid
    rw [hslot, hd'] at hd
    cases hd
    rw [heq, hp'] at hp
    exact ⟨hslot, by rw [hpath, hpath', hp]⟩
  · rintro ⟨hslot, hsame⟩
    rw [hslot, hd'] at hd
    cases hd
    rw [hpath, hpath'] at hsame
    cases hsame
    exact (h.workspace.each _ _ hd').1.eq_of_path? hp hp'

/-- Whatever documents were made and whatever was called in whatever order, a handle that was answered at some time
stands at every later time, in its own document, for the entry with the names it had then. No other section of that
document knows the handle of a key, and no other document knows the handle. Two handles are the same if and only if
they are from one document and stand for one section, or for one key of one section. -/
theorem handles_run (before later : List Event) :
    let earlier := start.run before
    let now := earlier.run later
    ∀ issue ∈ earlier.issued,
      (∃ d path, now.workspace.get? issue.slot = some d ∧ issue.path = some path ∧
        d.path? issue.handle = some path ∧
          ∀ k, issue.handle = .inr k → ∀ s ∈ d.sections.toList, s.name ≠ path.1 → s.Rejects k) ∧
      (∀ slot d, slot ≠ issue.slot → now.workspace.get? slot = some d → d.Rejects issue.handle) ∧
      ∀ other ∈ now.issued,
        (issue.handle = other.handle ↔ issue.slot = other.slot ∧ issue.path = other.path) := by
  intro earlier now issue hissue
  have hnow : now.Sound := (sound_start.run before).run later
  have hkept : issue ∈ now.issued := issued_run earlier later hissue
  obtain ⟨d, path, hd, hpath, hp⟩ := hnow.stands issue hkept
  have hwell := (hnow.workspace.each _ _ hd).1
  refine ⟨⟨d, path, hd, hpath, hp, fun k hk s hs hn => ?_⟩, fun slot d' hne hd' => ?_, fun other hother => ?_⟩
  · exact Document.rejects_of_name_ne hwell (hk ▸ hp) hs hn
  · refine Document.rejects_of_document_ne (hnow.workspace.each _ _ hd').1 fun heq => hne ?_
    exact hnow.workspace.apart _ _ d' d hd' hd (heq.symm.trans (Document.document_of_path? hp))
  · exact hnow.handle_eq_iff hkept hother

/-- Two documents that say the same: a key's handle from the one stands for it after another key has been put before
it, whatever its new place, and is not known in the other. -/
theorem handles_run_twins :
    let scanned : Document.Call := .scan default "[S]\nk=1\n"
    let k : KeyId := ⟨⟨1, 0⟩, 0⟩
    let before : List Event := [.create "a" .empty, .create "b" .empty, .call "a" scanned, .call "b" scanned,
      .call "a" (.idOfCursor (.named "s") 0)]
    let later : List Event := [.call "a" (.change (.insertKey ⟨1, 0⟩ (some k) .before "j" "2"))]
    let now := (start.run before).run later
    ∃ d d', now.workspace.get? "a" = some d ∧ now.workspace.get? "b" = some d' ∧
      d.contents = [("S", [("j", "2"), ("k", "1")])] ∧ d.path? (.inr k) = some ("S", some "k") ∧
        d'.Rejects (.inr k) := by
  intro scanned k before later now
  have hissue : ⟨"a", .inr k, some ("S", some "k")⟩ ∈ (start.run before).issued := by decide +kernel
  obtain ⟨⟨d, path, hd, hpath, hp, -⟩, hother, -⟩ := handles_run before later _ hissue
  obtain ⟨d', hd'⟩ : ∃ d', now.workspace.get? "b" = some d' := Option.isSome_iff_exists.1 (by decide +kernel)
  have hcontents : (now.workspace.get? "a").map Document.contents = some [("S", [("j", "2"), ("k", "1")])] := by
    decide +kernel
  rw [hd] at hcontents
  cases hpath
  exact ⟨d, d', hd, hd', Option.some.inj hcontents, hp, hother "b" d' (by decide) hd'⟩

end History

end IniDoc
