import IniDoc.Text.Blank

/-!
# Items

A text is a sequence of items: headers, entries, comments, and lines that say nothing. Reading the items needs the
text alone, never a document; what they do to a document is said elsewhere.

* `Item.next` reads one item and the text behind it.
* `Item.next_suffix`, `Item.next_length_lt`: that text is a suffix of the text read from, and shorter.
* `Item.all` is the sequence of items of a text.
-/

namespace IniDoc.Text

/-- One thing that a text says. -/
inductive Item where
  /-- A line `[name]`; what follows the bracket is ignored. -/
  | header (name : String)
  /-- A header whose name is empty: the lines up to the next header belong to no section. -/
  | namelessHeader
  /-- Lines that belong to no section. -/
  | outside
  /-- A line whose first word runs into a semicolon. -/
  | comment
  /-- A line in a section whose first word is not followed by an equals sign. -/
  | noEquals
  /-- A line `name = value`; either text may be empty. -/
  | entry (name value : String)
  /-- A quoted value with no closing quote; the tail runs from the opening quote to the end of the text. -/
  | unclosed (tail : List Char)
  deriving Repr, DecidableEq

namespace Item

/-- A header's name ends at the bracket or at the end of the line. -/
def endsHeader (c : Char) : Bool := c == ']' || isLineEnd c

/-- An entry's name ends at a space, an equals sign or a semicolon. -/
def endsName (c : Char) : Bool := isSpace c || c == '=' || c == ';'

/-- A plain value ends at a semicolon or at the end of the line. -/
def endsValue (c : Char) : Bool := c == ';' || isLineEnd c

/-- Drops lines until one starts, behind its blanks, with a bracket. -/
def toHeader (text : List Char) : List Char :=
  match _h : skipBlanks text with
  | [] => []
  | c :: rest => if c == '[' then c :: rest else toHeader (afterLine text)
termination_by text.length
decreasing_by exact afterLine_length_lt (by rintro rfl; simp [skipBlanks] at _h)

/-- Reads a header behind its opening bracket. -/
def ofHeader (text : List Char) : Item × List Char :=
  let line := skipBlanks text
  let name := line.takeWhile (!endsHeader ·)
  let rest := afterLine (line.dropWhile (!endsHeader ·))
  if name.isEmpty then (.namelessHeader, toHeader rest) else (.header (String.ofList name), rest)

/-- Reads the value of an entry, behind the equals sign and its blanks. A value in quotes runs to the closing quote,
over as many lines as it takes, and the rest of the closing quote's line is ignored. -/
def ofValue (quotes : Bool) (name : String) (text : List Char) : Item × List Char :=
  match quotes, text with
  | true, '"' :: body =>
    match body.dropWhile (· != '"') with
    | [] => (.unclosed text, [])
    | _ :: rest => (.entry name (String.ofList (body.takeWhile (· != '"'))), afterLine rest)
  | _, _ =>
    (.entry name (String.ofList (text.takeWhile (!endsValue ·))), afterLine (text.dropWhile (!endsValue ·)))

/-- Reads a line of a section from behind its first word. -/
def ofLine (quotes : Bool) (name : String) (text : List Char) : Item × List Char :=
  match text with
  | ';' :: rest => (.comment, afterLine rest)
  | _ =>
    match skipBlanks text with
    | '=' :: rest => ofValue quotes name (skipBlanks rest)
    | rest => (.noEquals, afterLine rest)

/-- The next item of a text and the text behind it, if anything but space is left. Outside a section everything up to
the next header is one item. -/
def next (quotes inSection : Bool) (text : List Char) : Option (Item × List Char) :=
  match skipSpace text with
  | [] => none
  | '[' :: rest => some (ofHeader rest)
  | c :: rest =>
    if inSection then
      let line := c :: rest
      some (ofLine quotes (String.ofList (line.takeWhile (!endsName ·))) (line.dropWhile (!endsName ·)))
    else some (.outside, toHeader (c :: rest))

/-- Whether the text behind an item belongs to a section. -/
def opensSection (inSection : Bool) : Item → Bool
  | .header _ => true
  | .namelessHeader => false
  | _ => inSection

/-! ## Reading an item makes progress -/

theorem toHeader_suffix (text : List Char) : toHeader text <:+ text := by
  fun_induction toHeader text with
  | case1 text h => simp
  | case2 text c rest h hc => exact h ▸ skipBlanks_suffix text
  | case3 text c rest h hc ih => exact ih.trans (afterLine_suffix text)

/-- A line that starts with neither a blank nor a bracket is dropped. -/
theorem toHeader_length_lt {c : Char} (rest : List Char) (hb : isBlank c = false) (hc : c ≠ '[') :
    (toHeader (c :: rest)).length < (c :: rest).length := by
  rw [toHeader]
  split
  · simp
  · next d r h =>
    obtain ⟨rfl, rfl⟩ : c = d ∧ rest = r := by simpa [skipBlanks, hb] using h
    simp only [beq_iff_eq, hc, if_false]
    exact Nat.lt_of_le_of_lt (toHeader_suffix _).length_le (afterLine_length_lt (by simp))

theorem ofHeader_suffix (text : List Char) : (ofHeader text).2 <:+ text := by
  have h : afterLine ((skipBlanks text).dropWhile (!endsHeader ·)) <:+ text :=
    (afterLine_suffix _).trans ((List.dropWhile_suffix _).trans (skipBlanks_suffix text))
  simp only [ofHeader]
  split
  · exact (toHeader_suffix _).trans h
  · exact h

theorem ofValue_suffix (quotes : Bool) (name : String) (text : List Char) :
    (ofValue quotes name text).2 <:+ text := by
  unfold ofValue
  split
  · next body =>
    split
    · simp
    · next rest h =>
      have hr : rest <:+ body := (List.suffix_cons _ _).trans (h ▸ List.dropWhile_suffix _)
      exact (afterLine_suffix _).trans (hr.trans (List.suffix_cons _ _))
  · exact (afterLine_suffix _).trans (List.dropWhile_suffix _)

theorem ofLine_suffix (quotes : Bool) (name : String) (text : List Char) :
    (ofLine quotes name text).2 <:+ text := by
  unfold ofLine
  split
  · exact (afterLine_suffix _).trans (List.suffix_cons _ _)
  · split
    · next rest h =>
      exact (ofValue_suffix _ _ _).trans ((skipBlanks_suffix rest).trans
        ((List.suffix_cons _ _).trans (h ▸ skipBlanks_suffix text)))
    · exact (afterLine_suffix _).trans (skipBlanks_suffix text)

/-- A line that starts with neither a space nor a name character loses its first character when it is read. -/
theorem ofLine_length_lt (quotes : Bool) (name : String) {c : Char} {rest : List Char} (hc : endsName c = true)
    (hs : isSpace c = false) : (ofLine quotes name (c :: rest)).2.length < (c :: rest).length := by
  have hb : isBlank c = false := by simp_all [isSpace]
  unfold ofLine
  split
  · next h =>
    cases h
    have := (afterLine_suffix rest).length_le
    simp; omega
  · simp only [skipBlanks, List.dropWhile_cons, hb, Bool.false_eq_true, if_false]
    split
    · next h =>
      cases h
      have := ((ofValue_suffix quotes name (rest.dropWhile isBlank)).trans (List.dropWhile_suffix _)).length_le
      simp; omega
    · exact afterLine_length_lt (by simp)

/-- The text behind an item is a suffix of the text it was read from. -/
theorem next_suffix {quotes inSection : Bool} {text rest : List Char} {item : Item}
    (h : next quotes inSection text = some (item, rest)) : rest <:+ text := by
  refine List.IsSuffix.trans ?_ (skipSpace_suffix text)
  unfold next at h
  split at h
  · cases h
  · next r hr =>
    have := ofHeader_suffix r
    simp only [Option.some.injEq] at h
    rw [hr]
    exact (h ▸ this).trans (List.suffix_cons _ _)
  · next c r _ hr =>
    rw [hr]
    split at h
    · simp only [Option.some.injEq] at h
      exact (congrArg Prod.snd h ▸ ofLine_suffix _ _ _).trans (List.dropWhile_suffix _)
    · cases h
      exact toHeader_suffix _

/-- Every item takes at least one character. -/
theorem next_length_lt {quotes inSection : Bool} {text rest : List Char} {item : Item}
    (h : next quotes inSection text = some (item, rest)) : rest.length < text.length := by
  refine Nat.lt_of_lt_of_le ?_ (skipSpace_suffix text).length_le
  unfold next at h
  split at h
  · cases h
  · next r hr =>
    have := (ofHeader_suffix r).length_le
    simp only [Option.some.injEq] at h
    rw [hr]
    rw [h] at this
    simp at this ⊢; omega
  · next c r hc hr =>
    have hs : isSpace c = false := by
      have := List.head?_dropWhile_not isSpace text
      simp_all [skipSpace]
    rw [hr]
    split at h
    · simp only [Option.some.injEq] at h
      obtain rfl : _ = rest := congrArg Prod.snd h
      by_cases he : endsName c = true
      · simp only [List.dropWhile_cons, he, Bool.not_true, Bool.false_eq_true, if_false]
        exact ofLine_length_lt _ _ he hs
      · have hd : (c :: r).dropWhile (!endsName ·) = r.dropWhile (!endsName ·) := by simp [he]
        have := (ofLine_suffix quotes (String.ofList ((c :: r).takeWhile (!endsName ·)))
          ((c :: r).dropWhile (!endsName ·))).length_le
        have := (List.dropWhile_suffix (l := r) (!endsName ·)).length_le
        simp only [hd, List.length_cons] at *
        omega
    · cases h
      have hb : isBlank c = false := by simp_all [isSpace]
      exact toHeader_length_lt r hb hc

/-- The items of a text, which starts inside or outside a section. -/
def allFrom (quotes inSection : Bool) (text : List Char) : List Item :=
  match _h : next quotes inSection text with
  | none => []
  | some (item, rest) => item :: allFrom quotes (item.opensSection inSection) rest
termination_by text.length
decreasing_by exact next_length_lt _h

/-- The items of a whole text. -/
def all (quotes : Bool) (text : List Char) : List Item := allFrom quotes false text

/-- The text from an opening quote that is never closed. -/
def unclosed? : Item → Option (List Char)
  | .unclosed tail => some tail
  | _ => none

end Item

end IniDoc.Text
