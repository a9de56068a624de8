import IniDoc.CommandLine.Run
import IniDoc.Proofs.Setting

/-!
# What commands do to files

A command saves last, and saving opens its file only when the bytes are there. So a command that fails leaves every file
as it was, and one that succeeds changes at most the one file that it is to write.

* `CommandLine.target?`: the file that a command line is to write.
* `FileTree.Confined`: what a result may have done to the files.
* `FileTree.confined_save`, `FileTree.confined_perform`: a save, and every command.
* `FileTree.run_confined`: every command line, however command lines are understood.
-/

namespace IniDoc

open CommandLine (Outcome Request Stop run)

/-! ## What is to be written -/

/-- The file that an action is to write; none if it only reads. -/
def CommandLine.Action.target? : Action → Option String
  | .get .. | .list .. => none
  | .set file .. => some file
  | .format file output => some (output.getD file)

/-- The file that a command line is to write, as a parser understands it. One that asks for no command writes none. -/
def CommandLine.target? (parse : List String → Except Stop Request) (words : List String) : Option String :=
  match parse words with
  | .ok request => request.action.target?
  | .error _ => none

namespace FileTree

variable {tree tree' : FileTree} {target : Option String} {ε ε' α β : Type}

/-- The trees differ at most in the file that a name leads to. Without a name they have the same files. -/
def Changed (tree tree' : FileTree) : (target : Option String) → Prop
  | none => tree.SameFiles tree'
  | some file => ∃ place bytes, tree.locateForWrite file = .ok place ∧ tree.Wrote tree' place bytes

/-- A failure leaves all files as they were, and a success changes at most the file that a name leads to. -/
def Confined (tree : FileTree) (target : Option String) (r : Except ε α × FileTree) : Prop :=
  match r.1 with
  | .error _ => tree.SameFiles r.2
  | .ok _ => tree.Changed r.2 target

theorem Confined.of_sameFiles {r : Except ε α × FileTree} (h : tree.SameFiles r.2) : tree.Confined none r := by
  unfold Confined
  split <;> exact h

/-- What is made of a result has no effect of its own. -/
theorem Confined.map {r : Except ε α × FileTree} (h : tree.Confined target r) (f : α → β) :
    tree.Confined target (r.1.map f, r.2) := by
  obtain ⟨result, after⟩ := r
  cases result <;> exact h

theorem Confined.mapError {r : Except ε α × FileTree} (h : tree.Confined target r) (f : ε → ε') :
    tree.Confined target (r.1.mapError f, r.2) := by
  obtain ⟨result, after⟩ := r
  cases result <;> exact h

/-- Reading before does not count. -/
theorem SameFiles.confined {r : Except ε α × FileTree} (hsame : tree.SameFiles tree') (h : tree'.Confined target r) :
    tree.Confined target r := by
  obtain ⟨result, after⟩ := r
  cases result with
  | error e => exact hsame.trans h
  | ok a =>
    cases target with
    | none => exact hsame.trans h
    | some file =>
      obtain ⟨place, bytes, hl, hw⟩ := h
      exact ⟨place, bytes, hsame.symm.locateForWrite hl, hsame.wrote hw⟩

/-! ## Saving -/

variable {options : Options}

/-- A document that the encoding cannot write is not saved, and neither is one under a name that leads to no file;
otherwise nothing can fail any more. -/
theorem confined_save (tree : FileTree) (d : Document) (file : String) (encoding : Text.Encoding) :
    tree.Confined (some file) ((d.save volume.toStorage file encoding).run tree) := by
  cases hb : d.toBytes encoding with
  | error e =>
    rw [save_of_error hb]
    exact .refl tree
  | ok bytes =>
    cases hl : tree.locateForWrite file with
    | error cause =>
      rw [save_of_noPlace hl hb]
      exact .refl tree
    | ok place =>
      obtain ⟨tree', hsave, hw⟩ := save_of_bytes hl hb
      rw [hsave]
      exact ⟨place, bytes, hl, hw⟩

theorem confined_saveFile (tree : FileTree) (options : Options) (d : Document) (file : String) :
    tree.Confined (some file) ((saveFile volume options d file).run tree) :=
  (confined_save tree d file options.encoding).mapError (Failure.save file)

/-- A document that has been loaded, or could not be, is saved. -/
theorem confined_settle (loaded : Except Failure Document) (hsame : tree.SameFiles tree') (file : String) :
    tree.Confined (some file) (StateT.run (m := Id)
      (match loaded with
        | .error failure => return .error failure
        | .ok d => saveFile volume options d file) tree') := by
  cases loaded with
  | error failure => exact hsame
  | ok d => exact hsame.confined (confined_saveFile tree' options d file)

/-! ## Commands -/

theorem confined_getValue (tree : FileTree) (room : Nat) (options : Options) (file sectionName name : String) :
    tree.Confined none ((getValue volume room options file sectionName name).run tree) :=
  .of_sameFiles (sameFiles_loadFile tree room options file)

theorem confined_listLines (tree : FileTree) (room : Nat) (options : Options) (file : String)
    (sectionName : Option String) :
    tree.Confined none ((listLines volume room options file sectionName).run tree) :=
  .of_sameFiles (sameFiles_loadFile tree room options file)

theorem confined_setValue (tree : FileTree) (room : Nat) (options : Options) (file sectionName name data : String)
    (placement : Placement) :
    tree.Confined (some file) ((setValue volume room options file sectionName name data placement).run tree) := by
  rw [setValue_eq, run_bind]
  exact confined_settle _ (sameFiles_loadOrEmpty tree room options file) file

theorem confined_reformat (tree : FileTree) (room : Nat) (options : Options) (file output : String) :
    tree.Confined (some output) ((reformat volume room options file output).run tree) := by
  rw [reformat, run_bind]
  exact confined_settle _ (sameFiles_loadFile tree room options file) output

/-- A request changes at most the file that its action is to write. -/
theorem confined_perform (tree : FileTree) (room : Nat) (request : Request) :
    tree.Confined request.action.target? ((request.perform volume room).run tree) := by
  obtain ⟨options, action⟩ := request
  cases action with
  | get file sectionName key => exact (confined_getValue tree room options file sectionName key).map _
  | set file sectionName key value placement =>
    exact (confined_setValue tree room options file sectionName key value placement).map _
  | list file sectionName => exact confined_listLines tree room options file sectionName
  | format file output => exact (confined_reformat tree room options file (output.getD file)).map _

/-! ## Command lines -/

theorem run_commandLine (parse : List String → Except Stop Request) (tree : FileTree) (room : Nat)
    (words : List String) : (run parse volume room words).run tree =
      match parse words with
      | .error stop => (Outcome.ofStop stop, tree)
      | .ok request =>
        (Outcome.ofResult ((request.perform volume room).run tree).1, ((request.perform volume room).run tree).2) := by
  unfold run
  cases parse words <;> rfl

/-- The exit code tells whether the files may have changed. -/
theorem Confined.outcome {r : Except Failure (List String) × FileTree} (h : tree.Confined target r) :
    ((Outcome.ofResult r.1).code ≠ 0 → (Outcome.ofResult r.1).output = "" ∧ tree.SameFiles r.2) ∧
      ((Outcome.ofResult r.1).code = 0 → tree.Changed r.2 target) := by
  obtain ⟨result, after⟩ := r
  cases result with
  | error failure => exact ⟨fun _ => ⟨rfl, h⟩, fun hcode => absurd hcode Nat.one_ne_zero⟩
  | ok lines => exact ⟨fun hcode => absurd rfl hcode, fun _ => h⟩

/-- However command lines are understood: one that fails prints nothing and leaves all files as they were, and one that
succeeds changes at most the file that it is to write. The same holds of every request, whether a command line asks for
it or not. -/
theorem run_confined (parse : List String → Except Stop Request) (tree : FileTree) (room : Nat) (words : List String) :
    let (outcome, tree') := (run parse volume room words).run tree
    (outcome.code ≠ 0 → outcome.output = "" ∧ tree.SameFiles tree') ∧
      (outcome.code = 0 → tree.Changed tree' (CommandLine.target? parse words)) ∧
      ∀ request : Request, tree.Confined request.action.target? ((request.perform volume room).run tree) := by
  rw [run_commandLine, CommandLine.target?]
  cases parse words with
  | error stop =>
    -- No command is run, whether help was asked for or nothing that makes sense.
    refine ⟨?_, fun _ => .refl tree, confined_perform tree room⟩
    cases stop with
    | usage => exact fun _ => ⟨rfl, .refl tree⟩
    | help => exact fun h => absurd rfl h
    | version => exact fun h => absurd rfl h
  | ok request =>
    obtain ⟨hfailed, hdone⟩ := (confined_perform tree room request).outcome
    exact ⟨hfailed, hdone, confined_perform tree room⟩

/-- A value that cannot be written is refused after its section and key have been made, and the file stays; a value that
can be written changes the file. -/
theorem run_confined_set :
    let tree := scratch.setNode ["tmp", "scratch", "a.ini"] (.file (Text.Utf8.encode "[S]\r\na=1\r\n".toList))
    let refused := (run Request.ofWords volume 100 ["set", "a.ini", "T", "b", "π"]).run tree
    let done := (run Request.ofWords volume 100 ["set", "a.ini", "T", "b", "2"]).run tree
    (refused.1.code ≠ 0 ∧ refused.1.output = "" ∧ tree.SameFiles refused.2) ∧
      done.1.code = 0 ∧ tree.Changed done.2 (some "a.ini") := by
  intro tree refused done
  have hrefused : refused.1.code ≠ 0 := by decide +kernel
  have hdone : done.1.code = 0 := by decide +kernel
  have hsame := (run_confined Request.ofWords tree 100 ["set", "a.ini", "T", "b", "π"]).1 hrefused
  have hchanged := (run_confined Request.ofWords tree 100 ["set", "a.ini", "T", "b", "2"]).2.1 hdone
  exact ⟨⟨hrefused, hsame⟩, hdone, hchanged⟩

end FileTree

end IniDoc
