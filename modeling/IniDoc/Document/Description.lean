import IniDoc.Document.Basic
import IniDoc.Text.Quoted

/-!
# Descriptions

A document on one line, for logs and for people who look into one.
-/

namespace IniDoc

open Text (quoteString)

/-- Parts in brackets, with commas between them. -/
def describeList (parts : List String) : String := "[" ++ String.intercalate ", " parts ++ "]"

/-- A key as a record. -/
def Key.describe (key : Key) : String :=
  "Key \x7b name: " ++ quoteString key.name ++ ", data: " ++ quoteString key.data ++ " \x7d"

/-- A section as a record. -/
def Section.describe (s : Section) : String :=
  "Section \x7b name: " ++ quoteString s.name ++ ", keys: " ++ describeList (s.keys.toList.map Key.describe) ++ " \x7d"

/-- A document as the list of its sections. -/
def Document.describe (d : Document) : String := describeList (d.sections.toList.map Section.describe)

end IniDoc
