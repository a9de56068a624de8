import IniDoc.Proofs.RoundTrip
import IniDoc.Storage.Transfer

/-!
# Loading and saving over any storage

A storage may refuse every call, and answer as it likes, depending on its state. Whatever it does, loading and saving
make their calls in one order, close what they opened exactly once, and report the first refusal.

* `run_load`, `run_save`: the calls as they change the state of a storage.
* `Exchange`, `Storage.transcribed`: a storage that writes its calls down together with their answers.
* `Document.Loads`, `Document.Saves`: the transcripts of loading and saving, each with its result.
* `Document.transcribes_load_save`: there are no others.
-/

namespace IniDoc

open Text (Bytes Encoding)

variable {σ η α β : Type}

/-! ## Loading and saving as changes of a state -/

theorem run_bind (x : StateM σ α) (f : α → StateM σ β) (s : σ) :
    (x >>= f).run s = (f (x.run s).1).run (x.run s).2 := rfl

/-- Reading through a handle: the length first, and the bytes only if there is room for them. -/
theorem run_loadFrom (storage : Storage (StateM σ) η) (s : σ) (h : η) (options : Options) (id room : Nat) :
    (Document.loadFrom storage h options id room).run s =
      match (storage.length h).run s with
      | (.error cause, s₁) => (.error cause, s₁)
      | (.ok length, s₁) =>
        if length + 1 > room then (.error (.outOfMemory (min (length + 1) maxRequest)), s₁)
        else match (storage.readAll h length).run s₁ with
          | (.error cause, s₂) => (.error cause, s₂)
          | (.ok bytes, s₂) => (Document.ofBytes id options bytes, s₂) := by
  rw [Document.loadFrom, run_bind]
  rcases (storage.length h).run s with ⟨_ | length, s₁⟩
  · rfl
  · dsimp only
    split
    · rfl
    · rw [run_bind]
      rcases (storage.readAll h length).run s₁ with ⟨_ | bytes, s₂⟩
      · rfl
      · show (Document.ofBytes id options (bytes ++ [0]), s₂) = _
        rw [Document.ofBytes_append_zero]

/-- Reading by name: whatever comes of it, the handle is closed. -/
theorem run_load (storage : Storage (StateM σ) η) (s : σ) (name : String) (options : Options) (id room : Nat) :
    (Document.load storage name options id room).run s =
      match (storage.openForRead name).run s with
      | (.error cause, s₁) => (.error cause, s₁)
      | (.ok h, s₁) =>
        let r := (Document.loadFrom storage h options id room).run s₁
        let c := (storage.close h).run r.2
        (r.1.bind fun d => c.1.map fun _ => d, c.2) := by
  rw [Document.load, run_bind]
  rcases (storage.openForRead name).run s with ⟨_ | h, s₁⟩
  · rfl
  · dsimp only
    rw [run_bind, run_bind]
    cases ((Document.loadFrom storage h options id room).run s₁).1 with
    | error e => rfl
    | ok d => cases ((storage.close h).run ((Document.loadFrom storage h options id room).run s₁).2).1 <;> rfl

/-- Writing by name: nothing is opened without bytes to write, and whatever comes of it, the handle is closed. -/
theorem run_save (d : Document) (storage : Storage (StateM σ) η) (s : σ) (name : String) (encoding : Encoding) :
    (d.save storage name encoding).run s =
      match d.toBytes encoding with
      | .error cause => (.error cause, s)
      | .ok bytes =>
        match (storage.openForWrite name).run s with
        | (.error cause, s₁) => (.error cause, s₁)
        | (.ok h, s₁) =>
          let w := (storage.writeAll h bytes).run s₁
          let c := (storage.close h).run w.2
          (w.1.bind fun _ => c.1, c.2) := by
  rw [Document.save]
  cases d.toBytes encoding with
  | error e => rfl
  | ok bytes =>
    dsimp only
    rw [run_bind]
    rcases (storage.openForWrite name).run s with ⟨_ | h, s₁⟩
    · rfl
    · dsimp only
      rw [run_bind, run_bind]
      cases ((storage.writeAll h bytes).run s₁).1 with
      | error e => rfl
      | ok u => cases ((storage.close h).run ((storage.writeAll h bytes).run s₁).2).1 <;> rfl

/-! ## Transcripts -/

/-- A call of a storage together with its answer. -/
inductive Exchange (η : Type) where
  | openForRead (name : String) (answer : Except Error η)
  | length (h : η) (answer : Except Error Nat)
  | readAll (h : η) (count : Nat) (answer : Except Error Bytes)
  | openForWrite (name : String) (answer : Except Error η)
  | writeAll (h : η) (bytes : Bytes) (answer : Except Error Unit)
  | close (h : η) (answer : Except Error Unit)

/-- Makes a call and writes it down together with its answer, behind those made before. -/
def transcribe (exchange : α → Exchange η) (call : StateM σ α) : StateM (σ × List (Exchange η)) α :=
  fun (s, transcript) =>
    let (answer, s') := call.run s
    (answer, s', transcript ++ [exchange answer])

/-- A storage that writes its calls down. It answers as the storage does. -/
def Storage.transcribed (storage : Storage (StateM σ) η) : Storage (StateM (σ × List (Exchange η))) η where
  openForRead name := transcribe (.openForRead name) (storage.openForRead name)
  length h := transcribe (.length h) (storage.length h)
  readAll h count := transcribe (.readAll h count) (storage.readAll h count)
  openForWrite name := transcribe (.openForWrite name) (storage.openForWrite name)
  writeAll h bytes := transcribe (.writeAll h bytes) (storage.writeAll h bytes)
  close h := transcribe (.close h) (storage.close h)

theorem run_transcribe (exchange : α → Exchange η) (call : StateM σ α) (s : σ) (transcript : List (Exchange η)) :
    (transcribe exchange call).run (s, transcript) =
      ((call.run s).1, (call.run s).2, transcript ++ [exchange (call.run s).1]) := rfl

/-- A run over a transcribed storage gives the result and the state of the run over the storage itself, and leaves one
of the allowed transcripts of the result behind. -/
def Transcribes (plain : StateM σ (Except Error α)) (transcribed : StateM (σ × List (Exchange η)) (Except Error α))
    (s : σ) (allowed : List (Exchange η) → Except Error α → Prop) : Prop :=
  ∀ transcript, ∃ exchanges, allowed exchanges (plain.run s).1 ∧
    transcribed.run (s, transcript) = ((plain.run s).1, (plain.run s).2, transcript ++ exchanges)

namespace Document

/-- The transcripts of reading a document through an open handle, each with its result: the length is asked for, and
the bytes if there is room for them and one more. -/
inductive Reads (h : η) (options : Options) (id room : Nat) : List (Exchange η) → Except Error Document → Prop where
  | noLength (e : Error) : Reads h options id room [.length h (.error e)] (.error e)
  | noRoom (n : Nat) (hroom : room < n + 1) :
    Reads h options id room [.length h (.ok n)] (.error (.outOfMemory (min (n + 1) maxRequest)))
  | notRead (n : Nat) (e : Error) (hroom : n + 1 ≤ room) :
    Reads h options id room [.length h (.ok n), .readAll h n (.error e)] (.error e)
  | read (n : Nat) (bytes : Bytes) (hroom : n + 1 ≤ room) :
    Reads h options id room [.length h (.ok n), .readAll h n (.ok bytes)] (ofBytes id options bytes)

/-- The transcripts of loading a document, each with its result. What was opened is closed, and a refusal to close it
counts if there was none before. -/
inductive Loads (name : String) (options : Options) (id room : Nat) :
    List (Exchange η) → Except Error Document → Prop where
  | notOpened (e : Error) : Loads name options id room [.openForRead name (.error e)] (.error e)
  | opened (h : η) (exchanges : List (Exchange η)) (result : Except Error Document) (closed : Except Error Unit)
    (hread : Reads h options id room exchanges result) :
    Loads name options id room (.openForRead name (.ok h) :: exchanges ++ [.close h closed])
      (result.bind fun d => closed.map fun _ => d)

/-- The transcripts of saving a document, each with its result. Nothing is called without bytes to write. -/
inductive Saves (d : Document) (name : String) (encoding : Encoding) :
    List (Exchange η) → Except Error Unit → Prop where
  | noBytes (e : Error) (hbytes : d.toBytes encoding = .error e) : Saves d name encoding [] (.error e)
  | notOpened (bytes : Bytes) (e : Error) (hbytes : d.toBytes encoding = .ok bytes) :
    Saves d name encoding [.openForWrite name (.error e)] (.error e)
  | opened (bytes : Bytes) (h : η) (written closed : Except Error Unit) (hbytes : d.toBytes encoding = .ok bytes) :
    Saves d name encoding [.openForWrite name (.ok h), .writeAll h bytes written, .close h closed]
      (written.bind fun _ => closed)

/-! ## No other transcripts -/

theorem transcribes_loadFrom (storage : Storage (StateM σ) η) (s : σ) (h : η) (options : Options) (id room : Nat) :
    Transcribes (loadFrom storage h options id room) (loadFrom storage.transcribed h options id room) s
      (Reads h options id room) := by
  intro transcript
  rw [run_loadFrom, run_loadFrom]
  dsimp only [Storage.transcribed]
  rw [run_transcribe]
  rcases (storage.length h).run s with ⟨e | n, s₁⟩
  · exact ⟨_, .noLength e, rfl⟩
  dsimp only
  by_cases hroom : n + 1 > room
  · rw [if_pos hroom, if_pos hroom]
    exact ⟨_, .noRoom n hroom, rfl⟩
  · rw [if_neg hroom, if_neg hroom, run_transcribe, List.append_assoc]
    rcases (storage.readAll h n).run s₁ with ⟨e | bytes, s₂⟩
    · exact ⟨_, .notRead n e (by omega), rfl⟩
    · exact ⟨_, .read n bytes (by omega), rfl⟩

theorem transcribes_load (storage : Storage (StateM σ) η) (s : σ) (name : String) (options : Options) (id room : Nat) :
    Transcribes (load storage name options id room) (load storage.transcribed name options id room) s
      (Loads name options id room) := by
  intro transcript
  have hopen : storage.transcribed.openForRead name = transcribe (.openForRead name) (storage.openForRead name) := rfl
  rw [run_load, run_load, hopen, run_transcribe]
  rcases (storage.openForRead name).run s with ⟨e | h, s₁⟩
  · exact ⟨_, .notOpened e, rfl⟩
  · obtain ⟨exchanges, hreads, hrun⟩ :=
      transcribes_loadFrom storage s₁ h options id room (transcript ++ [.openForRead name (.ok h)])
    refine ⟨_, .opened h exchanges _ _ hreads, ?_⟩
    dsimp only
    rw [hrun]
    dsimp only [Storage.transcribed]
    rw [run_transcribe, List.append_assoc, List.append_assoc]
    rfl

theorem transcribes_save (d : Document) (storage : Storage (StateM σ) η) (s : σ) (name : String)
    (encoding : Encoding) :
    Transcribes (d.save storage name encoding) (d.save storage.transcribed name encoding) s
      (d.Saves name encoding) := by
  intro transcript
  rw [run_save, run_save]
  cases hbytes : d.toBytes encoding with
  | error e => exact ⟨[], .noBytes e hbytes, by rw [List.append_nil]⟩
  | ok bytes =>
    dsimp only [Storage.transcribed]
    rw [run_transcribe]
    rcases (storage.openForWrite name).run s with ⟨e | h, s₁⟩
    · exact ⟨_, .notOpened bytes e hbytes, rfl⟩
    · refine ⟨_, .opened bytes h _ _ hbytes, ?_⟩
      dsimp only
      rw [run_transcribe, run_transcribe, List.append_assoc, List.append_assoc]
      rfl

/-- A document that is loaded is made of bytes, whatever the storage does. -/
theorem exists_ofBytes_of_load {storage : Storage (StateM σ) η} {s : σ} {name : String} {options : Options}
    {id room : Nat} {d : Document} (h : ((load storage name options id room).run s).1 = .ok d) :
    ∃ bytes, ofBytes id options bytes = .ok d := by
  obtain ⟨exchanges, hloads, -⟩ := transcribes_load storage s name options id room []
  rw [h] at hloads
  generalize hresult : Except.ok d = result at hloads
  cases hloads with
  | notOpened e => cases hresult
  | opened handle exchanges read closed hread =>
    cases hread with
    | noLength e => cases hresult
    | noRoom n => cases hresult
    | notRead n e => cases hresult
    | read n bytes =>
      cases hbytes : ofBytes id options bytes with
      | error e =>
        rw [hbytes] at hresult
        cases hresult
      | ok d' =>
        rw [hbytes] at hresult
        cases closed with
        | error e => cases hresult
        | ok u =>
          cases hresult
          exact ⟨bytes, hbytes⟩

/-- Over every storage and from every state on, loading and saving leave one of their transcripts behind, with the
result that belongs to it. -/
theorem transcribes_load_save (storage : Storage (StateM σ) η) (s : σ) (name : String) :
    (∀ options id room, Transcribes (load storage name options id room)
      (load storage.transcribed name options id room) s (Loads name options id room)) ∧
    ∀ (d : Document) encoding, Transcribes (d.save storage name encoding)
      (d.save storage.transcribed name encoding) s (d.Saves name encoding) := by
  constructor
  · intro options id room
    exact transcribes_load storage s name options id room
  · intro d encoding
    exact transcribes_save d storage s name encoding

end Document

end IniDoc
