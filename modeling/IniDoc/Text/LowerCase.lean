import IniDoc.Text.LowerCaseTable

/-!
# Lower case

Names compare by their lower-case forms, taken character by character and without regard to the neighbours.

* `lowerChar`: the lower-case form of a character, two characters for `İ` alone.
* `foldName`: the form under which a name is looked up.
-/

namespace IniDoc.Text

/-- The lower-case form of a character; a character without one is its own. The dotted capital I keeps its dot as a
combining character. -/
def lowerChar (c : Char) : List Char :=
  if c.toNat = 0x130 then ['i', '\u0307']
  else match lowerCaseRuns.findSome? (·.lower? c.toNat) with
    | some code => [Char.ofNat code]
    | none => [c]

/-- The form of a name under which it is looked up: two names with the same form are the same name. -/
def foldName (name : String) : String := String.ofList (name.toList.flatMap lowerChar)

end IniDoc.Text
