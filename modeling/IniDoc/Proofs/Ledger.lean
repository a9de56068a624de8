import IniDoc.Proofs.WellFormed

/-!
# Ledgers

A ledger is a document as plain lists in which every section and every entry stands next to its handle. Its operations
search the lists from the front and know neither an index nor links.

* `Ledger.Section.insert`, `Ledger.place`: what an insertion does to a list of entries.
* `Mutation`, `Document.mutate`, `Ledger.mutate`: the calls that change a document, and their answers.
* `Mutation.trace`: the answers of a run of calls, and what there is to see after each.
-/

namespace IniDoc

open Text (foldName)

/-! ## Lists with handles -/

/-- An entry with its handle. -/
structure Ledger.Entry where
  id : KeyId
  name : String
  data : String
  deriving Repr, DecidableEq

/-- A section with its handle, and its entries in order. -/
structure Ledger.Section where
  id : SectionId
  name : String
  entries : List Ledger.Entry
  deriving Repr, DecidableEq

/-- The sections of a document in order. -/
structure Ledger where
  id : Nat
  sections : List Ledger.Section
  deriving Repr, DecidableEq

namespace Ledger

/-- Puts a new entry where an insertion says: at an end, or next to the entry with the anchor's handle. -/
def place (new : Entry) (entries : List Entry) : Insertion → Option KeyId → List Entry
  | .first, _ | .before, none => new :: entries
  | .last, _ | .after, none => entries ++ [new]
  | .before, some anchor => entries.flatMap fun entry => if entry.id = anchor then [new, entry] else [entry]
  | .after, some anchor => entries.flatMap fun entry => if entry.id = anchor then [entry, new] else [entry]

/-- Creates or updates an entry. It is refused without a name, without a value, or with an anchor that no entry of the
section has, in this order. A known name takes the new value where it stands. -/
def Section.insert (s : Section) (anchor : Option KeyId) (insertion : Insertion) (name data : String) :
    Except Error (KeyId × Section) :=
  if name = "" then .error (.invalidArgument .emptyKeyName)
  else if data = "" then .error (.invalidArgument .emptyKeyData)
  else if ∃ id ∈ anchor, ∀ entry ∈ s.entries, entry.id ≠ id then .error (.invalidArgument .foreignAnchor)
  else match s.entries.find? fun entry => foldName entry.name = foldName name with
    | some known =>
      let update (entry : Entry) := if foldName entry.name = foldName name then { entry with data } else entry
      .ok (known.id, { s with entries := s.entries.map update })
    | none =>
      let new := ⟨⟨s.id, s.entries.length⟩, name, data⟩
      .ok (new.id, { s with entries := place new s.entries insertion anchor })

/-- Finds the section with a name, or creates it behind all others. -/
def addSection (ledger : Ledger) (name : String) : Except Error (SectionId × Ledger) :=
  if name = "" then .error (.invalidArgument .emptySectionName)
  else match ledger.sections.find? fun s => foldName s.name = foldName name with
    | some known => .ok (known.id, ledger)
    | none =>
      let new := ⟨⟨ledger.id, ledger.sections.length⟩, name, []⟩
      .ok (new.id, { ledger with sections := ledger.sections ++ [new] })

/-- Creates or updates an entry of the section with a handle, if there is one. The other sections stay. -/
def insert (ledger : Ledger) (owner : SectionId) (anchor : Option KeyId) (insertion : Insertion)
    (name data : String) : Option (Except Error (KeyId × Ledger)) :=
  (ledger.sections.find? (·.id = owner)).map fun s =>
    (s.insert anchor insertion name data).map fun (id, changed) =>
      (id, { ledger with sections := ledger.sections.map fun t => if t.id = owner then changed else t })

/-- The names and values without the handles. -/
def contents (ledger : Ledger) : Outline :=
  ledger.sections.map fun s => (s.name, s.entries.map fun entry => (entry.name, entry.data))

end Ledger

/-! ## Mutations -/

/-- A call that changes a document. Handles may be of any document, section or time. -/
inductive Mutation where
  | addSection (name : String)
  | addKey (owner : SectionId) (name data : String)
  | insertKey (owner : SectionId) (anchor : Option KeyId) (insertion : Insertion) (name data : String)
  deriving Repr, DecidableEq

namespace Mutation

/-- What a call answers: a handle or a refusal, or nothing when its owner stands for no section. -/
abbrev Answer := Option (Except Error (SectionId ⊕ KeyId))

variable {β σ τ : Type}

/-- The answer of a call and the state after it. A refusal leaves the state as it was. -/
def settle (handle : β → SectionId ⊕ KeyId) (state : σ) : Option (Except Error (β × σ)) → Answer × σ
  | some (.ok (id, changed)) => (some (.ok (handle id)), changed)
  | some (.error cause) => (some (.error cause), state)
  | none => (none, state)

/-- The answers of a run of calls, each with the contents after it. -/
def trace (mutate : σ → Mutation → Answer × σ) (contents : σ → Outline) :
    σ → List Mutation → List (Answer × Outline)
  | _, [] => []
  | state, m :: mutations =>
    let (answer, changed) := mutate state m
    (answer, contents changed) :: trace mutate contents changed mutations

theorem trace_cons (mutate : σ → Mutation → Answer × σ) (contents : σ → Outline) (state : σ) (m : Mutation)
    (mutations : List Mutation) :
    trace mutate contents state (m :: mutations) = ((mutate state m).1, contents (mutate state m).2) ::
      trace mutate contents (mutate state m).2 mutations := rfl

theorem settle_map (handle : β → SectionId ⊕ KeyId) (view : σ → τ) (state : σ)
    (r : Option (Except Error (β × σ))) :
    settle handle (view state) (r.map (·.map fun (id, changed) => (id, view changed))) =
      ((settle handle state r).1, view (settle handle state r).2) := by
  rcases r with _ | (_ | _) <;> rfl

theorem settle_refused {handle : β → SectionId ⊕ KeyId} {state : σ} {r : Option (Except Error (β × σ))}
    {cause : Error} (h : (settle handle state r).1 = some (.error cause)) : (settle handle state r).2 = state := by
  rcases r with _ | (_ | _)
  · cases h
  · rfl
  · cases h

end Mutation

open Mutation (settle)

/-- The answer of a document to a call, and the document after it. -/
def Document.mutate (d : Document) : Mutation → Mutation.Answer × Document
  | .addSection name => settle .inl d (some (d.addSection name))
  | .addKey owner name data => settle .inr d (d.updateSection owner (·.add name data))
  | .insertKey owner anchor insertion name data =>
    settle .inr d (d.updateSection owner (·.insert anchor insertion name data))

/-- The answer of a ledger to a call, and the ledger after it. -/
def Ledger.mutate (ledger : Ledger) : Mutation → Mutation.Answer × Ledger
  | .addSection name => settle .inl ledger (some (ledger.addSection name))
  | .addKey owner name data => settle .inr ledger (ledger.insert owner none .last name data)
  | .insertKey owner anchor insertion name data => settle .inr ledger (ledger.insert owner anchor insertion name data)

/-- An insertion into a list of entries fails without a name, without a value, or with an anchor that is no entry of
the list. -/
theorem Ledger.Section.insert_eq_error_iff (s : Ledger.Section) (anchor : Option KeyId) (insertion : Insertion)
    (name data : String) : (∃ cause, s.insert anchor insertion name data = .error cause) ↔
      name = "" ∨ data = "" ∨ ∃ id ∈ anchor, ∀ entry ∈ s.entries, entry.id ≠ id := by
  unfold insert
  split_ifs with hn hd ha
  · simp [hn]
  · simp [hd]
  · exact ⟨fun _ => .inr (.inr ha), fun _ => ⟨_, rfl⟩⟩
  · constructor
    · rintro ⟨cause, h⟩
      split at h <;> cases h
    · rintro (h | h | h) <;> contradiction

end IniDoc
