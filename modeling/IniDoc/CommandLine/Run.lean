import IniDoc.CommandLine.Arguments
import IniDoc.Editing.Command

/-!
# Running a command line

What a command line does to a volume, and what it prints. The exit code is 0 on success, 1 when a command fails and 2
when the command line makes no sense. How command lines are understood is left to a parser, such as `Request.ofWords`.
-/

namespace IniDoc.CommandLine

/-- What a run leaves behind beside the files: its exit code, its output, and its report of a failure. -/
structure Outcome where
  code : Nat
  output : String
  report : String
  deriving Repr, DecidableEq

/-- How the program is used. -/
def usageText : String :=
  "Usage: inidoc [OPTIONS] COMMAND\n\n" ++
  "Commands:\n" ++
  "  get FILE SECTION KEY         Print the value of a key\n" ++
  "  set FILE SECTION KEY VALUE   Create or update a key and save the file\n" ++
  "      [--first | --before KEY | --after KEY]\n" ++
  "  list FILE [SECTION]          List sections, or the keys of one section\n" ++
  "  fmt FILE [-o OUTPUT]         Write a file anew in canonical form\n\n" ++
  "Options:\n" ++
  "  --string-mode                Strip double quotes around values\n" ++
  "  --strict                     Fail on unterminated quoted values\n" ++
  "  --utf8                       Read and write UTF-8 instead of Latin-1\n"

/-- Which program this is. -/
def versionText : String := "inidoc 0.1.0\n"

/-- Lines as output. -/
def printLines (lines : List String) : String := String.join (lines.map (· ++ "\n"))

/-- The outcome of a command that gave lines or failed. -/
def Outcome.ofResult : Except Failure (List String) → Outcome
  | .ok lines => ⟨0, printLines lines, ""⟩
  | .error failure => ⟨1, "", failure.report⟩

/-- The outcome of a command line that asks for no command. -/
def Outcome.ofStop : Stop → Outcome
  | .usage => ⟨2, "", ""⟩
  | .help => ⟨0, usageText, ""⟩
  | .version => ⟨0, versionText, ""⟩

variable {m : Type → Type} {η : Type} [Monad m]

/-- Does what a request asks for, with room for so many bytes in one buffer; the result is the lines to print. -/
def Request.perform (request : Request) (volume : Volume m η) (room : Nat) : m (Except Failure (List String)) := do
  match request.action with
  | .get file sectionName key =>
    return (← getValue volume room request.options file sectionName key).map fun value => [value]
  | .set file sectionName key value placement =>
    return (← setValue volume room request.options file sectionName key value placement).map fun _ => []
  | .list file sectionName => listLines volume room request.options file sectionName
  | .format file output =>
    return (← reformat volume room request.options file (output.getD file)).map fun _ => []

/-- Runs a command line on a volume, as a parser understands it. -/
def run (parse : List String → Except Stop Request) (volume : Volume m η) (room : Nat) (words : List String) :
    m Outcome :=
  match parse words with
  | .error stop => return Outcome.ofStop stop
  | .ok request => return Outcome.ofResult (← request.perform volume room)

end IniDoc.CommandLine
