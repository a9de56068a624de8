import IniDoc.Proofs.MemoryCalls

/-!
# Runs of a memory storage

Any number of readers and writers may hold handles of the same names and others. What a name and a handle show is told
by the calls made so far, without a look at the tables behind them.

* `Memory.Told`: the tables of a memory are as the calls made so far tell.
* `Chronicle`: a memory together with all calls made on it; `Chronicle.told_step` keeps the two in agreement.
* `Chronicle.run_told`: what every run shows.
-/

namespace IniDoc

open Text (Bytes)

namespace Memory

variable {memory : Memory} {h g : Nat} {resource : Open} {name : String} {bytes : Bytes} {op : Op}

/-! ## What the calls tell of a memory -/

theorem opening?_cons (record : Record) (past : List Record) (h : Nat) :
    opening? (record :: past) h = if record.2 = .opened h then some record.1 else opening? past h := by
  rw [opening?, List.find?_cons]
  by_cases hr : record.2 = .opened h <;> simp [hr, opening?]

theorem written_cons (record : Record) (past : List Record) (h : Nat) :
    written (record :: past) h = written past h ++ writtenBy h record := by
  simp [written]

theorem latest?_cons_of_none {record : Record} {past : List Record} (hp : published? past record = none)
    (parts : List String) : latest? (record :: past) parts = latest? past parts := by
  rw [latest?, hp]

theorem latest?_cons_of_some {record : Record} {past : List Record} {target : List String} {content : Bytes}
    (hp : published? past record = some (target, content)) (parts : List String) :
    latest? (record :: past) parts = if target = parts then some content else latest? past parts := by
  rw [latest?, hp]

/-- A handle is as the calls made so far tell: opened for reading, or opened for writing with what was written. -/
structure Kept (past : List Record) (h : Nat) (resource : Open) : Prop where
  reader : resource.writable = false → ∃ name, opening? past h = some (.openForRead name)
  writer : resource.writable = true → ∃ name, opening? past h = some (.openForWrite name) ∧
    resource.parts = Path.parts name ∧ resource.content = written past h

/-- The tables of a memory are as the calls made so far tell. -/
structure Told (past : List Record) (memory : Memory) : Prop where
  resources : ∀ parts, memory.resources[parts]? = latest? past parts
  numbered : ∀ h resource, memory.handles.get? h = some resource → h < memory.handles.next
  unwritten : ∀ h, memory.handles.next ≤ h → written past h = []
  kept : ∀ h resource, memory.handles.get? h = some resource → Kept past h resource

theorem told_empty : Told [] empty where
  resources _ := rfl
  numbered _ _ := nofun
  unwritten _ _ := rfl
  kept _ _ := nofun

variable {past : List Record} {record : Record} {memory' : Memory}

/-- A call that neither opens a handle nor writes through it leaves what is told of it. -/
theorem Kept.cons (hk : Kept past h resource) (ho : record.2 ≠ .opened h) (hw : writtenBy h record = []) :
    Kept (record :: past) h resource := by
  constructor
  · rw [opening?_cons, if_neg ho]
    exact hk.reader
  · rw [opening?_cons, if_neg ho, written_cons, hw, List.append_nil]
    exact hk.writer

/-- The content of a writer and the bytes told of it grow alike. -/
theorem Kept.write (hk : Kept past h resource) (hw : resource.writable = true) (bytes : Bytes) :
    Kept ((.writeAll h bytes, .done) :: past) h { resource with content := resource.content ++ bytes } := by
  constructor
  · intro hfalse
    rw [hw] at hfalse
    cases hfalse
  · intro _
    obtain ⟨name, hopen, hparts, hcontent⟩ := hk.writer hw
    refine ⟨name, ?_, hparts, ?_⟩
    · rw [opening?_cons, if_neg nofun, hopen]
    · rw [written_cons, writtenBy, if_pos rfl, hcontent]

theorem Told.opened_ne (ht : Told past memory) (hr : memory.handles.get? h = some resource) (op : Op) :
    (op, Reply.opened memory.handles.next).2 ≠ .opened h := by
  intro heq
  cases heq
  exact absurd (ht.numbered _ _ hr) (lt_irrefl _)

/-- A handle that has just been opened. -/
theorem Told.add (ht : Told past memory) (op : Op) (new : Open)
    (hnew : Kept ((op, .opened memory.handles.next) :: past) memory.handles.next new)
    (hw : ∀ h, writtenBy h (op, .opened memory.handles.next) = [])
    (hres : ∀ parts, memory'.resources[parts]? = latest? ((op, .opened memory.handles.next) :: past) parts)
    (hh : memory'.handles = (memory.handles.add new).2) :
    Told ((op, .opened memory.handles.next) :: past) memory' := by
  have hnext : memory'.handles.next = memory.handles.next + 1 := by rw [hh]; rfl
  have hget : ∀ g, memory'.handles.get? g = if g = memory.handles.next then some new else memory.handles.get? g := by
    rw [hh]
    exact memory.handles.get?_add_eq new
  constructor
  · exact hres
  · intro g resource hr
    rw [hget] at hr
    split at hr
    · omega
    · have := ht.numbered g resource hr
      omega
  · intro g hg
    rw [written_cons, hw, ht.unwritten g (by omega), List.append_nil]
  · intro g resource hr
    rw [hget] at hr
    split at hr
    · next heq =>
      cases hr
      exact heq ▸ hnew
    · exact (ht.kept g resource hr).cons (ht.opened_ne hr op) (hw g)

/-- A handle that has just been closed. -/
theorem Told.discard (ht : Told past memory)
    (hres : ∀ parts, memory'.resources[parts]? = latest? ((.close h, .done) :: past) parts)
    (hh : memory'.handles = memory.handles.erase h) : Told ((.close h, .done) :: past) memory' := by
  have hnext : memory'.handles.next = memory.handles.next := by rw [hh]; rfl
  have hget : ∀ g r, memory'.handles.get? g = some r → memory.handles.get? g = some r := by
    intro g r hr
    rw [hh, Handles.get?_erase] at hr
    split at hr
    · cases hr
    · exact hr
  constructor
  · exact hres
  · intro g resource hr
    rw [hnext]
    exact ht.numbered g resource (hget g resource hr)
  · intro g hg
    rw [written_cons, ht.unwritten g (hnext ▸ hg)]
    rfl
  · intro g resource hr
    exact (ht.kept g resource (hget g resource hr)).cons nofun rfl

/-- What a call does is what it tells. -/
theorem Told.does (ht : Told past memory) (hd : memory.Does record memory') : Told (record :: past) memory' := by
  cases hd with
  | looked _ hquiet =>
    constructor
    · intro parts
      rw [latest?_cons_of_none (hquiet.published? past), ht.resources]
    · exact ht.numbered
    · intro h hh
      rw [written_cons, ht.unwritten h hh, hquiet.writtenBy, List.append_nil]
    · intro h resource hr
      exact (ht.kept h resource hr).cons (hquiet.opened h) (hquiet.writtenBy h)
  | put name content =>
    constructor
    · intro parts
      rw [Memory.put, getElem?_publish, latest?_cons_of_some rfl, ht.resources]
    · exact ht.numbered
    · intro h hh
      rw [written_cons, ht.unwritten h hh]
      rfl
    · intro h resource hr
      exact (ht.kept h resource hr).cons nofun rfl
  | openedForRead name content hn =>
    refine ht.add (.openForRead name) ⟨Path.parts name, content, false⟩ ⟨fun _ => ?_, nofun⟩ (fun _ => rfl) ?_ rfl
    · exact ⟨name, by rw [opening?_cons, if_pos rfl]⟩
    · intro parts
      rw [latest?_cons_of_none rfl, ← ht.resources]
  | openedForWrite name =>
    refine ht.add (.openForWrite name) ⟨Path.parts name, [], true⟩ ⟨nofun, fun _ => ?_⟩ (fun _ => rfl) ?_ rfl
    · refine ⟨name, by rw [opening?_cons, if_pos rfl], rfl, ?_⟩
      rw [written_cons, ht.unwritten _ le_rfl]
      rfl
    · intro parts
      rw [latest?_cons_of_some rfl, ← ht.resources]
      exact getElem?_publish memory (Path.parts name) [] parts
  | wrote h bytes resource hr hw =>
    constructor
    · intro parts
      rw [latest?_cons_of_none rfl, ← ht.resources]
    · intro g other hg
      rw [Handles.get?_set_eq] at hg
      split at hg
      · next heq => exact heq ▸ ht.numbered h resource hr
      · exact ht.numbered g other hg
    · intro g hg
      have hne : h ≠ g := (lt_of_lt_of_le (ht.numbered h resource hr) hg).ne
      rw [written_cons, ht.unwritten g hg, writtenBy, if_neg hne, List.append_nil]
    · intro g other hg
      rw [Handles.get?_set_eq] at hg
      split at hg
      · next heq =>
        subst heq
        rw [hr] at hg
        cases hg
        exact (ht.kept g resource hr).write hw bytes
      · next hne => exact (ht.kept g other hg).cons nofun (if_neg (Ne.symm hne))
  | closedReader h resource hr hw =>
    refine ht.discard (fun parts => ?_) rfl
    obtain ⟨name, hopen⟩ := (ht.kept h resource hr).reader hw
    have hp : published? past (.close h, .done) = none := by rw [published?, hopen]
    rw [latest?_cons_of_none hp, ← ht.resources]
    rfl
  | closedWriter h resource hr hw =>
    refine ht.discard (fun parts => ?_) rfl
    obtain ⟨name, hopen, hparts, hcontent⟩ := (ht.kept h resource hr).writer hw
    have hp : published? past (.close h, .done) = some (Path.parts name, written past h) := by rw [published?, hopen]
    rw [latest?_cons_of_some hp, getElem?_publish, hparts, hcontent, ← ht.resources]
    rfl

/-! ## Handles that stay open -/

/-- A call other than the one that closes a handle leaves what the handle stands for, the content of a reader too. -/
theorem Does.handle (ht : Told past memory) (hd : memory.Does record memory')
    (hr : memory.handles.get? h = some resource) (hc : record.1 ≠ .close h) :
    ∃ content, memory'.handles.get? h = some { resource with content := content } ∧
      (resource.writable = false → content = resource.content) := by
  have hne : h ≠ memory.handles.next := (ht.numbered h resource hr).ne
  cases hd with
  | looked => exact ⟨resource.content, hr, fun _ => rfl⟩
  | put => exact ⟨resource.content, hr, fun _ => rfl⟩
  | openedForRead =>
    refine ⟨resource.content, ?_, fun _ => rfl⟩
    rw [Handles.get?_add_eq, if_neg hne, hr]
  | openedForWrite =>
    refine ⟨resource.content, ?_, fun _ => rfl⟩
    rw [Handles.get?_add_eq, if_neg hne, hr]
  | wrote g bytes other hg hw =>
    rw [Handles.get?_set_eq]
    by_cases heq : h = g
    · subst heq
      rw [hr] at hg
      cases hg
      refine ⟨resource.content ++ bytes, by rw [if_pos rfl, hr]; rfl, fun hfalse => ?_⟩
      rw [hw] at hfalse
      cases hfalse
    · exact ⟨resource.content, by rw [if_neg heq, hr], fun _ => rfl⟩
  | closedReader g =>
    have hne : h ≠ g := by
      rintro rfl
      exact hc rfl
    exact ⟨resource.content, (Handles.get?_erase memory.handles g h).trans (by rw [if_neg hne, hr]), fun _ => rfl⟩
  | closedWriter g =>
    have hne : h ≠ g := by
      rintro rfl
      exact hc rfl
    exact ⟨resource.content, (Handles.get?_erase memory.handles g h).trans (by rw [if_neg hne, hr]), fun _ => rfl⟩

theorem reads_of_handle (hr : memory.handles.get? h = some resource) (hw : resource.writable = false) :
    memory.Reads h resource.content := by
  refine ⟨shows_of_handle hr, fun bytes => ?_⟩
  rw [perform_writeAll hr, hw]
  rfl

theorem writes_of_handle (hr : memory.handles.get? h = some resource) (hw : resource.writable = true)
    (hp : resource.parts = Path.parts name) : memory.Writes h name resource.content := by
  refine ⟨shows_of_handle hr, fun bytes => ?_, ?_, ?_⟩
  · rw [perform_writeAll hr, if_pos hw]
  · rw [perform_close hr]
  · rw [perform_close hr, if_pos hw, get?, getElem?_publish, if_pos hp]

end Memory

/-! ## Runs -/

/-- A memory with all calls made on it, the latest first. -/
structure Chronicle where
  past : List Memory.Record
  memory : Memory

namespace Chronicle

open Memory (Told published? latest? written)

/-- The chronicle of an empty memory. -/
def start : Chronicle := ⟨[], .empty⟩

/-- Makes a call and notes it down. -/
def step (c : Chronicle) (op : Memory.Op) : Chronicle :=
  ⟨(op, (c.memory.perform op).1) :: c.past, (c.memory.perform op).2⟩

/-- Makes calls one after another. -/
def run (c : Chronicle) (ops : List Memory.Op) : Chronicle := ops.foldl step c

variable {c : Chronicle} {h : Nat} {resource : Memory.Open}

theorem told_step (ht : Told c.past c.memory) (op : Memory.Op) : Told (c.step op).past (c.step op).memory :=
  ht.does (Memory.does_perform c.memory op)

theorem told_run (ht : Told c.past c.memory) (ops : List Memory.Op) : Told (c.run ops).past (c.run ops).memory := by
  induction ops generalizing c with
  | nil => exact ht
  | cons op ops ih => exact ih (told_step ht op)

theorem handle_run (ht : Told c.past c.memory) (hr : c.memory.handles.get? h = some resource)
    {ops : List Memory.Op} (hc : .close h ∉ ops) :
    ∃ content, (c.run ops).memory.handles.get? h = some { resource with content := content } ∧
      (resource.writable = false → content = resource.content) := by
  induction ops generalizing c resource with
  | nil => exact ⟨resource.content, hr, fun _ => rfl⟩
  | cons op ops ih =>
    rw [List.mem_cons, not_or] at hc
    obtain ⟨mid, hmid, hkeep⟩ := (Memory.does_perform c.memory op).handle ht hr (Ne.symm hc.1)
    obtain ⟨content, hcontent, hkeep'⟩ := ih (told_step ht op) hmid hc.2
    exact ⟨content, hcontent, fun hw => (hkeep' hw).trans (hkeep hw)⟩

/-- A handle that was opened for reading shows the content that was there then, for as long as it is not closed. -/
theorem reads_run (ht : Told c.past c.memory) {name : String} {content : Text.Bytes}
    (hn : c.memory.get? name = some content) {later : List Memory.Op} (hc : .close c.memory.handles.next ∉ later) :
    ((c.step (.openForRead name)).run later).memory.Reads c.memory.handles.next content := by
  have hr : (c.step (.openForRead name)).memory.handles.get? c.memory.handles.next =
      some ⟨Path.parts name, content, false⟩ := by
    rw [step, Memory.perform_openForRead_of_some hn]
    exact Handles.get?_add _ _
  obtain ⟨content', hr', hkeep⟩ := handle_run (told_step ht _) hr hc
  cases hkeep rfl
  exact Memory.reads_of_handle hr' rfl

/-- A handle that was opened for writing shows what was written through it, for as long as it is not closed. -/
theorem writes_run (ht : Told c.past c.memory) (name : String) {later : List Memory.Op}
    (hc : .close c.memory.handles.next ∉ later) :
    ((c.step (.openForWrite name)).run later).memory.Writes c.memory.handles.next name
      (written ((c.step (.openForWrite name)).run later).past c.memory.handles.next) := by
  have hr : (c.step (.openForWrite name)).memory.handles.get? c.memory.handles.next =
      some ⟨Path.parts name, [], true⟩ := Handles.get?_add _ _
  obtain ⟨content, hr', -⟩ := handle_run (told_step ht _) hr hc
  obtain ⟨-, -, -, hcontent⟩ := ((told_run (told_step ht _) later).kept _ _ hr').writer rfl
  rw [← hcontent]
  exact Memory.writes_of_handle hr' rfl rfl

/-- A call that publishes nothing under a name leaves what is found there. -/
theorem get?_step_of_unpublished (ht : Told c.past c.memory) {op : Memory.Op} {name : String}
    (hp : ∀ content, published? c.past (op, (c.memory.perform op).1) ≠ some (Path.parts name, content)) :
    (c.step op).memory.get? name = c.memory.get? name := by
  have hstep := (told_step ht op).resources (Path.parts name)
  rw [Memory.get?, hstep, Memory.get?, ht.resources, step, latest?]
  split
  · next target content heq =>
    rw [if_neg]
    rintro rfl
    exact hp content heq
  · rfl

/-- Whatever calls were made on a memory, a name has the content that was published under it last: what was put there,
nothing since it was opened for writing, or all that was written through a handle, in one piece when that handle was
closed. No call changes a name that it does not publish. A handle for reading shows the content of its name at the
opening until it is closed and takes no bytes; a handle for writing shows its own bytes and publishes them at the
closing. Either gives any number of its first bytes as often as it is asked, and refuses to give more than it has. -/
theorem run_told (before : List Memory.Op) (name : String) :
    let c := start.run before
    c.memory.get? name = latest? c.past (Path.parts name) ∧
    (∀ op, (∀ content, published? c.past (op, (c.memory.perform op).1) ≠ some (Path.parts name, content)) →
      (c.step op).memory.get? name = c.memory.get? name) ∧
    (match c.memory.get? name with
      | none => c.memory.perform (.openForRead name) = (.refused (.storage (.absent name)), c.memory)
      | some content => ∃ h, (c.memory.perform (.openForRead name)).1 = .opened h ∧
          ∀ later, .close h ∉ later → ((c.step (.openForRead name)).run later).memory.Reads h content) ∧
    (∃ h, (c.memory.perform (.openForWrite name)).1 = .opened h ∧
      ∀ later, .close h ∉ later →
        let c' := (c.step (.openForWrite name)).run later
        c'.memory.Writes h name (written c'.past h)) ∧
    StorageError.openedForReading.kind = .permissionDenied ∧ StorageError.pastEnd.kind = .unexpectedEnd := by
  intro c
  have ht : Told c.past c.memory := told_run Memory.told_empty before
  refine ⟨ht.resources _, fun op => get?_step_of_unpublished ht, ?_, ?_, rfl, rfl⟩
  · split
    · next hn => exact Memory.perform_openForRead_of_none hn
    · next content hn =>
      refine ⟨c.memory.handles.next, by rw [Memory.perform_openForRead_of_some hn], fun later hc => ?_⟩
      exact reads_run ht hn hc
  · exact ⟨c.memory.handles.next, rfl, fun later hc => writes_run ht name hc⟩

/-- A reader and two writers of one name in three spellings: the reader keeps what it found, nothing is there while the
writers are open, and the one that is closed last decides with its own bytes. -/
theorem run_told_interleaved :
    let put : List Memory.Op := [.put "a/b" [1, 2]]
    let writing : List Memory.Op := [.openForWrite "a/b", .openForWrite "a/./b", .writeAll 1 [3], .writeAll 2 [4],
      .writeAll 1 [5]]
    let now := ((start.run put).step (.openForRead "a//b")).run writing
    now.memory.Reads 0 [1, 2] ∧ now.memory.get? "a/b" = some [] ∧
      (now.run [.close 2, .close 1]).memory.get? "a/b" = some [3, 5] := by
  intro put writing now
  have hfound : (start.run put).memory.get? "a//b" = some [1, 2] := by decide +kernel
  have hopened : ((start.run put).memory.perform (.openForRead "a//b")).1 = .opened 0 := by decide +kernel
  obtain ⟨h, hh, hreads⟩ := hfound ▸ (run_told put "a//b").2.2.1
  obtain rfl : 0 = h := Memory.Reply.opened.inj (hopened.symm.trans hh)
  have hempty := (run_told (put ++ .openForRead "a//b" :: writing) "a/b").1
  have hclosed := (run_told (put ++ .openForRead "a//b" :: writing ++ [.close 2, .close 1]) "a/b").1
  exact ⟨hreads writing (by decide), hempty.trans (by decide +kernel), hclosed.trans (by decide +kernel)⟩

end Chronicle

end IniDoc
