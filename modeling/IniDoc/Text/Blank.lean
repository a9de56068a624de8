/-!
# Blanks and lines

The character classes that separate words and lines, and the cuts of a text that they give.

* `skipBlanks`, `skipSpace`: what is left after leading blanks, on one line or across lines.
* `afterLine`: what is left after the current line and its line feed.
* `byteCount`, `lineFeeds`: the two measures in which a place in a text is reported.
-/

namespace IniDoc.Text

/-- A blank separates words inside a line: space, tab, vertical tab or form feed. -/
def isBlank (c : Char) : Bool := c == ' ' || c == '\t' || c == '\x0b' || c == '\x0c'

/-- Both characters of a CRLF pair end a line's content. -/
def isLineEnd (c : Char) : Bool := c == '\r' || c == '\n'

/-- A space is a blank or a line end. -/
def isSpace (c : Char) : Bool := isBlank c || isLineEnd c

/-- The text after its leading blanks. -/
def skipBlanks (text : List Char) : List Char := text.dropWhile isBlank

/-- The text after its leading spaces, empty lines included. -/
def skipSpace (text : List Char) : List Char := text.dropWhile isSpace

/-- The text after the first line feed; nothing when there is none. -/
def afterLine (text : List Char) : List Char := (text.dropWhile (· != '\n')).drop 1

/-- The length of a text in UTF-8 bytes. -/
def byteCount (text : List Char) : Nat := text.foldr (fun c count => c.utf8Size + count) 0

/-- The number of line feeds in a text. -/
def lineFeeds (text : List Char) : Nat := text.count '\n'

/-! ## Each cut leaves a suffix -/

theorem skipBlanks_suffix (text : List Char) : skipBlanks text <:+ text := List.dropWhile_suffix _

theorem skipSpace_suffix (text : List Char) : skipSpace text <:+ text := List.dropWhile_suffix _

theorem afterLine_suffix (text : List Char) : afterLine text <:+ text :=
  (List.drop_suffix _ _).trans (List.dropWhile_suffix _)

/-- A line of a text that is not empty holds at least one character. -/
theorem afterLine_length_lt {text : List Char} (h : text ≠ []) : (afterLine text).length < text.length := by
  have hs := (List.dropWhile_suffix (l := text) (· != '\n')).length_le
  have hp : 0 < text.length := List.length_pos_iff.2 h
  simp only [afterLine, List.length_drop]
  omega

end IniDoc.Text
