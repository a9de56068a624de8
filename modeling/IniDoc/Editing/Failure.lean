import IniDoc.Error

/-!
# Failures of commands

Why a command on a file failed: what it was doing, and the errors beneath.

* `Failure.chain`: the wordings from the outermost to the innermost.
* `Failure.report`: the chain as lines for a person.
-/

namespace IniDoc

/-- Why a command failed. -/
inductive Failure where
  /-- The file could not be loaded. -/
  | load (file : String) (cause : Error)
  /-- The file could not be saved. -/
  | save (file : String) (cause : Error)
  /-- The file has no section of the name. -/
  | noSection (name file : String)
  /-- The section, here in its own spelling, has no key of the name. -/
  | noKey (key sectionName : String)
  /-- The section, here as it was asked for, has no key to put another one next to. -/
  | noAnchor (key sectionName : String)
  /-- The document refused the edit. -/
  | edit (cause : Error)
  deriving Repr, DecidableEq

namespace Failure

/-- An error and what is beneath it. -/
def errorChain (error : Error) : List String := error.message :: error.cause?.toList

/-- The wordings of a failure, from the outermost to the innermost. -/
def chain : Failure → List String
  | load file cause => ("failed to load " ++ file) :: errorChain cause
  | save file cause => ("failed to save " ++ file) :: errorChain cause
  | noSection name file => ["section [" ++ name ++ "] not found in " ++ file]
  | noKey key sectionName =>
    ("key " ++ key ++ " not found in [" ++ sectionName ++ "]") :: errorChain .keyNotFound
  | noAnchor key sectionName => ["anchor key " ++ key ++ " not found in [" ++ sectionName ++ "]"]
  | edit cause => errorChain cause

/-- The outermost wording. -/
def message (failure : Failure) : String := failure.chain.headD ""

/-- The lines of the causes: one alone has no number. -/
def causeLines : List String → List String
  | [] => []
  | [cause] => ["", "Caused by:", "    " ++ cause]
  | causes => ["", "Caused by:"] ++ causes.mapIdx fun i cause => "    " ++ toString i ++ ": " ++ cause

/-- A failure as lines for a person. -/
def report (failure : Failure) : String :=
  String.join ((("Error: " ++ failure.message) :: causeLines failure.chain.tail).map (· ++ "\n"))

end Failure

end IniDoc
