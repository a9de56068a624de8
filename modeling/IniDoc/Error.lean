import IniDoc.Text.Quoted

/-!
# Errors

Every error is the cause of a failure; its wording is in one place, `Error.message`.

* `StorageError`: what a storage can refuse, with its kind.
* `Misuse`: what is wrong with the arguments of an edit.
* `Error`: everything that can go wrong between a storage and a document.
-/

namespace IniDoc

/-- The kinds of storage errors. -/
inductive StorageError.Kind where
  | notFound
  | unexpectedEnd
  | permissionDenied
  | isDirectory
  | notDirectory
  | invalidName
  | invalidInput
  | other
  | uncategorized
  deriving Repr, DecidableEq

/-- Why a storage refuses a call. -/
inductive StorageError where
  /-- A memory storage holds nothing under the name. -/
  | absent (name : String)
  /-- More was asked of a memory storage than the resource holds. -/
  | pastEnd
  /-- A memory storage's handle for reading was written to. -/
  | openedForReading
  /-- A path leads nowhere. -/
  | noSuchFile
  /-- A handle does not allow the call. -/
  | badHandle
  /-- A path goes on behind a file. -/
  | notDirectory
  /-- A directory was used as a file. -/
  | isDirectory
  /-- A path, or one of its parts, is too long. -/
  | nameTooLong
  /-- A path holds a zero character. -/
  | zeroInName
  /-- More was asked of a file than it holds. -/
  | shortRead
  /-- Any other failure, in its own words. -/
  | failed (text : String)
  deriving Repr, DecidableEq

namespace StorageError

/-- The kind of a storage error. -/
def kind : StorageError → Kind
  | absent _ | noSuchFile => .notFound
  | pastEnd | shortRead => .unexpectedEnd
  | openedForReading => .permissionDenied
  | badHandle => .uncategorized
  | notDirectory => .notDirectory
  | isDirectory => .isDirectory
  | nameTooLong => .invalidName
  | zeroInName => .invalidInput
  | failed _ => .other

/-- The wording of a storage error. -/
def message : StorageError → String
  | absent name => name ++ " does not exist"
  | pastEnd => "unexpected end of file"
  | openedForReading => "handle was opened for reading"
  | noSuchFile => "No such file or directory (os error 2)"
  | badHandle => "Bad file descriptor (os error 9)"
  | notDirectory => "Not a directory (os error 20)"
  | isDirectory => "Is a directory (os error 21)"
  | nameTooLong => "File name too long (os error 36)"
  | zeroInName => "file name contained an unexpected NUL byte"
  | shortRead => "failed to fill whole buffer"
  | failed text => text

end StorageError

/-- What is wrong with the arguments of an edit. -/
inductive Misuse where
  | emptySectionName
  | emptyKeyName
  | emptyKeyData
  | foreignAnchor
  deriving Repr, DecidableEq

/-- The wording of a misuse. -/
def Misuse.message : Misuse → String
  | emptySectionName => "section name is empty"
  | emptyKeyName => "key name is empty"
  | emptyKeyData => "key data is empty"
  | foreignAnchor => "anchor key does not belong to this section"

/-- Everything that can go wrong between a storage and a document. -/
inductive Error where
  /-- The storage refused a call. -/
  | storage (cause : StorageError)
  /-- A resource is too large for one buffer. -/
  | outOfMemory (requested : Nat)
  /-- An edit was asked for what it cannot do. -/
  | invalidArgument (cause : Misuse)
  /-- No key has the name. -/
  | keyNotFound
  /-- The first character of a text that an encoding lacks. -/
  | unencodable (char : Char)
  /-- A quoted value is not closed; its quote stands on the line and at the byte offset. -/
  | unclosedQuote (line offset : Nat)
  deriving Repr, DecidableEq

/-- The wording of an error. -/
def Error.message : Error → String
  | storage cause => "I/O error: " ++ cause.message
  | outOfMemory requested => "Out of memory: failed to allocate " ++ toString requested ++ " bytes"
  | invalidArgument cause => "Invalid argument: " ++ cause.message
  | keyNotFound => "Key not found"
  | unencodable c =>
    "Unencodable character " ++ Text.quoteChar c ++ " (U+" ++ String.ofList (Text.upperHex c.toNat) ++ ")"
  | unclosedQuote line offset =>
    "Parse error at line " ++ toString line ++ " (offset " ++ toString offset ++ "): unterminated quoted value"

/-- The error beneath an error: a storage's refusal shows once as an error and once by itself. -/
def Error.cause? : Error → Option String
  | storage cause => some cause.message
  | _ => none

end IniDoc
