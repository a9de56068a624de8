import IniDoc.CommandLine.Run

/-!
# The program

The command line on the files of the machine.
-/

namespace IniDoc.Main

open IniDoc.Text (Bytes)

/-- The cause behind an error of the system, by the system's number of it. -/
def causeOf (error : IO.Error) : StorageError :=
  match error with
  | .noFileOrDirectory .. | .noSuchThing .. => .noSuchFile
  | .inappropriateType _ code _ | .invalidArgument _ code _ | .resourceExhausted _ code _ =>
    if code = 20 then .notDirectory
    else if code = 21 then .isDirectory
    else if code = 36 then .nameTooLong
    else .failed (toString error)
  | _ => .failed (toString error)

/-- Whether an error says that a name leads nowhere. -/
def saysAbsent : Error → Bool
  | .storage .noSuchFile | .storage .notDirectory | .storage .nameTooLong => true
  | _ => false

/-- Makes a system call. -/
def attempt {α : Type} (call : IO α) : IO (Except Error α) :=
  tryCatch (do return .ok (← call)) fun error => return .error (.storage (causeOf error))

/-- All bytes of an open file, from its start. -/
def content (handle : IO.FS.Handle) : IO Bytes := do
  handle.rewind
  return (← handle.readBinToEnd).toList

/-- The room for one buffer: as much as can be addressed. -/
def room : Nat := Nat.pow 2 63 - 1

/-- The files of the machine as a volume. -/
def volume : Volume IO IO.FS.Handle where
  openForRead name := attempt (IO.FS.Handle.mk name .read)
  length handle := attempt do return (← content handle).length
  readAll handle count := do
    match ← attempt (content handle) with
    | .error cause => return .error cause
    | .ok bytes => return if count ≤ bytes.length then .ok (bytes.take count) else .error (.storage .shortRead)
  openForWrite name := attempt (IO.FS.Handle.mk name .write)
  writeAll handle bytes := attempt (handle.write bytes.toByteArray)
  close handle := attempt handle.flush
  isPresent name := do
    match ← attempt (IO.FS.Handle.mk name .read) with
    | .ok _ => return true
    | .error cause => return !saysAbsent cause

end IniDoc.Main

open IniDoc in
/-- Runs the command line. -/
def main (words : List String) : IO UInt32 := do
  let outcome ← CommandLine.run CommandLine.Request.ofWords Main.volume Main.room words
  (← IO.getStdout).putStr outcome.output
  (← IO.getStderr).putStr outcome.report
  return UInt32.ofNat outcome.code
