import IniDoc.Document.Basic

/-!
# Cursors

A cursor stands on a key of a section and moves to the keys behind it, one at a time.

* `Cursor.first?` stands on the first key, if there is one.
* `Cursor.advance?` moves on; at the last key the cursor stays.
* `Cursor.entries` is what a cursor meets from where it stands.
-/

namespace IniDoc

/-- A place among the keys of a section. The key is the one with the number. -/
structure Cursor where
  owner : Section
  index : Nat
  key : Key
  key_eq : owner.keys.get? index = some key

namespace Cursor

/-- The cursor on the key with a number. -/
def at? (s : Section) (i : Nat) : Option Cursor :=
  match h : s.keys.get? i with
  | some key => some ⟨s, i, key, h⟩
  | none => none

/-- The cursor on the first key. -/
def first? (s : Section) : Option Cursor := s.keys.head.bind (at? s)

/-- The handle of the key. -/
def id (cursor : Cursor) : KeyId := cursor.owner.keyId cursor.index

/-- The key's name and value. -/
def entry (cursor : Cursor) : String × String := (cursor.key.name, cursor.key.data)

/-- The cursor on the next key, if there is one. -/
def advance? (cursor : Cursor) : Option Cursor :=
  (cursor.owner.keys.next? cursor.index).bind (at? cursor.owner)

/-- The entries of at most `fuel` keys from the cursor on. -/
def entriesFrom : (fuel : Nat) → Cursor → List (String × String)
  | 0, _ => []
  | fuel + 1, cursor => cursor.entry :: (cursor.advance?.map (entriesFrom fuel)).getD []

/-- The entries of a section as a cursor meets them. -/
def entries (s : Section) : List (String × String) :=
  ((first? s).map (entriesFrom s.size)).getD []

end Cursor

end IniDoc
