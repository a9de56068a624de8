/-!
# Paths

A name of a resource is a path: parts between slashes. Two spellings of a path are the same name when their parts are
the same, so repeated slashes and a slash at the end do not matter, nor does a part `.` behind another part.
-/

namespace IniDoc.Path

/-- The parts between slashes, empty ones left out. -/
def pieces (path : String) : List String :=
  ((path.toList.splitOn '/').map String.ofList).filter (· != "")

/-- Whether a path starts at the root. -/
def isAbsolute (path : String) : Bool := path.toList.head? == some '/'

/-- The parts of a path as they are compared. The root is a part of its own; the part `.` counts only where a relative
path starts with it. -/
def parts (path : String) : List String :=
  if isAbsolute path then "/" :: (pieces path).filter (· != ".")
  else match pieces path with
    | [] => []
    | first :: rest => first :: rest.filter (· != ".")

end IniDoc.Path
