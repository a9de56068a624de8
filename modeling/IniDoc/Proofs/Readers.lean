import IniDoc.Proofs.Reading

/-!
# Readers made of parsers

The parts of a line can be read by parsers that a library of combinators makes. A parser may refuse a text. Of the
library nothing is known but what it documents, and that is enough: no reader refuses any text, and each one stops where
an item of the text has its parts.

* `Parser`, `Combinators`: parsers, and the library that makes them.
* `Combinators.Documented`: what the library documents; `Combinators.plain` is a library that keeps to it.
* `Combinators.header`, `Combinators.word`, `Combinators.value`: the readers of a line.
* `Combinators.Documented.header_eq` and its kind: what they read.
-/

namespace IniDoc.Text

/-- Why a parser does not read a text. -/
inductive Refusal where
  /-- More text is needed to decide. -/
  | incomplete
  /-- The text from a place on does not fit; another parser may read it. -/
  | mismatch (place : List Char)
  /-- The text from a place on is wrong, whatever else is tried. -/
  | failure (place : List Char)

/-- A parser gives the text behind what it read, and what it read. -/
abbrev Parser (α : Type) := List Char → Except Refusal (List Char × α)

/-- A library of parser combinators. -/
structure Combinators where
  takeWhile : (Char → Bool) → Parser (List Char)
  takeTill : (Char → Bool) → Parser (List Char)
  char : Char → Parser Char
  opt {α : Type} : Parser α → Parser (Option α)
  terminated {α β : Type} : Parser α → Parser β → Parser α
  delimited {α β γ : Type} : Parser α → Parser β → Parser γ → Parser β

namespace Combinators

/-- What a library documents. -/
structure Documented (lib : Combinators) : Prop where
  /-- The longest run of characters with a property, if there are any. -/
  takeWhile (p : Char → Bool) (text : List Char) :
    lib.takeWhile p text = .ok (text.dropWhile p, text.takeWhile p)
  /-- The longest run of characters up to one with a property, if there are any. -/
  takeTill (p : Char → Bool) (text : List Char) :
    lib.takeTill p text = .ok (text.dropWhile (!p ·), text.takeWhile (!p ·))
  /-- The one character asked for. -/
  char_cons (c : Char) (text : List Char) : lib.char c (c :: text) = .ok (text, c)
  /-- Any other character, or none, does not fit. -/
  char_mismatch (c : Char) (text : List Char) (h : text.head? ≠ some c) :
    ∃ place, lib.char c text = .error (.mismatch place)
  /-- What a parser reads if it fits; nothing otherwise. -/
  opt {α : Type} (p : Parser α) (text : List Char) :
    lib.opt p text = match p text with
      | .ok (rest, a) => .ok (rest, some a)
      | .error (.mismatch _) => .ok (text, none)
      | .error refusal => .error refusal
  /-- Two parsers, one behind the other, for what the first one reads. -/
  terminated {α β : Type} (p : Parser α) (q : Parser β) (text : List Char) :
    lib.terminated p q text = do
      let (text, a) ← p text
      let (text, _) ← q text
      return (text, a)
  /-- Three parsers, one behind the other, for what the second one reads. -/
  delimited {α β γ : Type} (p : Parser α) (q : Parser β) (r : Parser γ) (text : List Char) :
    lib.delimited p q r text = do
      let (text, _) ← p text
      let (text, b) ← q text
      let (text, _) ← r text
      return (text, b)

/-- The library that does what is documented and nothing else. -/
def plain : Combinators where
  takeWhile p text := .ok (text.dropWhile p, text.takeWhile p)
  takeTill p text := .ok (text.dropWhile (!p ·), text.takeWhile (!p ·))
  char c text :=
    match text with
    | [] => .error (.mismatch [])
    | d :: rest => if d = c then .ok (rest, d) else .error (.mismatch text)
  opt p text :=
    match p text with
    | .ok (rest, a) => .ok (rest, some a)
    | .error (.mismatch _) => .ok (text, none)
    | .error refusal => .error refusal
  terminated p q text := do
    let (text, a) ← p text
    let (text, _) ← q text
    return (text, a)
  delimited p q r text := do
    let (text, _) ← p text
    let (text, b) ← q text
    let (text, _) ← r text
    return (text, b)

theorem documented_plain : plain.Documented where
  takeWhile _ _ := rfl
  takeTill _ _ := rfl
  char_cons c text := if_pos rfl
  char_mismatch c text h := by
    cases text with
    | nil => exact ⟨[], rfl⟩
    | cons d text => exact ⟨d :: text, if_neg (by simpa using h)⟩
  opt _ _ := rfl
  terminated _ _ _ := rfl
  delimited _ _ _ _ := rfl

/-! ## The readers -/

variable (lib : Combinators)

/-- Spaces, across lines. -/
def spaces : Parser (List Char) := lib.takeWhile isSpace

/-- Blanks, on one line. -/
def blanks : Parser (List Char) := lib.takeWhile isBlank

/-- What is left of a line, and the line feed behind it. -/
def restOfLine : Parser (List Char) := lib.terminated (lib.takeTill (· == '\n')) (lib.opt (lib.char '\n'))

/-- The name of a header, behind its bracket, and the rest of the line. -/
def header : Parser (List Char) := fun text => do
  let (text, _) ← lib.blanks text
  let (text, name) ← lib.takeTill Item.endsHeader text
  let (text, _) ← lib.restOfLine text
  return (text, name)

/-- What the first word of a line can be. -/
inductive Word where
  /-- A name, which may be empty. -/
  | name (name : List Char)
  /-- A word that runs into a semicolon. -/
  | comment

/-- The first word of a line, and of a comment the rest of the line. -/
def word : Parser Word := fun text => do
  let (text, name) ← lib.takeTill Item.endsName text
  if text.head? = some ';' then
    let (text, _) ← lib.restOfLine text
    return (text, .comment)
  else return (text, .name name)

/-- What can stand behind the first word of a line. -/
inductive Value where
  /-- A value, plain or quoted, which may be empty. -/
  | data (data : List Char)
  /-- No equals sign. -/
  | missing
  /-- A quote that is never closed, with the text from the quote on. -/
  | unclosed (tail : List Char)

/-- What stands between two quotes. -/
def quoted : Parser (List Char) := lib.delimited (lib.char '"') (lib.takeTill (· == '"')) (lib.char '"')

/-- The rest of a line from behind its first word. A quote that is never closed takes the rest of the text. -/
def value (quotes : Bool) : Parser Value := fun text => do
  let (text, _) ← lib.blanks text
  match ← lib.opt (lib.char '=') text with
  | (text, none) =>
    let (text, _) ← lib.restOfLine text
    return (text, .missing)
  | (text, some _) =>
    let (text, _) ← lib.blanks text
    if quotes = true ∧ text.head? = some '"' then
      match ← lib.opt lib.quoted text with
      | (rest, some body) =>
        let (rest, _) ← lib.restOfLine rest
        return (rest, .data body)
      | (_, none) => return ([], .unclosed text)
    else
      let (text, data) ← lib.takeTill Item.endsValue text
      let (text, _) ← lib.restOfLine text
      return (text, .data data)

/-! ## What the readers read -/

namespace Documented

variable {lib : Combinators} (h : lib.Documented) {text rest : List Char} {c : Char} {quotes : Bool}
include h

theorem spaces_eq (text : List Char) : lib.spaces text = .ok (skipSpace text, text.takeWhile isSpace) :=
  h.takeWhile isSpace text

theorem blanks_eq (text : List Char) : lib.blanks text = .ok (skipBlanks text, text.takeWhile isBlank) :=
  h.takeWhile isBlank text

theorem opt_char_cons (c : Char) (text : List Char) : lib.opt (lib.char c) (c :: text) = .ok (text, some c) := by
  rw [h.opt, h.char_cons]

theorem opt_char_mismatch (hc : text.head? ≠ some c) : lib.opt (lib.char c) text = .ok (text, none) := by
  obtain ⟨place, he⟩ := h.char_mismatch c text hc
  rw [h.opt, he]

theorem restOfLine_eq (text : List Char) :
    lib.restOfLine text = .ok (afterLine text, text.takeWhile (· != '\n')) := by
  have hfeed : ∃ feed, lib.opt (lib.char '\n') (text.dropWhile (· != '\n')) = .ok (afterLine text, feed) := by
    unfold afterLine
    cases hd : text.dropWhile (· != '\n') with
    | nil => exact ⟨none, h.opt_char_mismatch (by simp)⟩
    | cons c rest =>
      have hc : c = '\n' := by
        have := List.head?_dropWhile_not (· != '\n') text
        simpa [hd] using this
      exact ⟨some '\n', hc ▸ h.opt_char_cons '\n' rest⟩
  obtain ⟨feed, hfeed⟩ := hfeed
  have htill : lib.takeTill (· == '\n') text = .ok (text.dropWhile (· != '\n'), text.takeWhile (· != '\n')) :=
    h.takeTill (· == '\n') text
  unfold restOfLine
  simp only [h.terminated, htill, bind, Except.bind, hfeed]
  rfl

theorem header_eq (text : List Char) : lib.header text = .ok (Item.behindHeader text, Item.headerName text) := by
  unfold header
  simp only [h.blanks_eq, h.takeTill, h.restOfLine_eq, bind, Except.bind]
  rfl

theorem word_comment (hb : Item.behindWord text = ';' :: rest) : lib.word text = .ok (afterLine rest, .comment) := by
  have hline : afterLine (';' :: rest) = afterLine rest := rfl
  have htill : lib.takeTill Item.endsName text = .ok (Item.behindWord text, Item.word text) := h.takeTill _ text
  unfold word
  simp only [htill, hb, List.head?_cons, if_true, h.restOfLine_eq, hline, bind, Except.bind]
  rfl

theorem word_name (hb : (Item.behindWord text).head? ≠ some ';') :
    lib.word text = .ok (Item.behindWord text, .name (Item.word text)) := by
  have htill : lib.takeTill Item.endsName text = .ok (Item.behindWord text, Item.word text) := h.takeTill _ text
  unfold word
  simp only [htill, if_neg hb, bind, Except.bind]
  rfl

theorem value_missing (he : (skipBlanks text).head? ≠ some '=') :
    lib.value quotes text = .ok (afterLine (skipBlanks text), .missing) := by
  unfold value
  simp only [h.blanks_eq, h.opt_char_mismatch he, h.restOfLine_eq, bind, Except.bind]
  rfl

theorem value_plain (he : skipBlanks text = '=' :: rest) (hq : quotes = true → (skipBlanks rest).head? ≠ some '"') :
    lib.value quotes text =
      .ok (afterLine ((skipBlanks rest).dropWhile (!Item.endsValue ·)),
        .data ((skipBlanks rest).takeWhile (!Item.endsValue ·))) := by
  have hplain : ¬(quotes = true ∧ (skipBlanks rest).head? = some '"') := fun ⟨h1, h2⟩ => hq h1 h2
  unfold value
  simp only [h.blanks_eq, he, h.opt_char_cons, if_neg hplain, h.takeTill, h.restOfLine_eq, bind, Except.bind]
  rfl

theorem quoted_closed {body behind : List Char} (hb : body.dropWhile (· != '"') = '"' :: behind) :
    lib.quoted ('"' :: body) = .ok (behind, body.takeWhile (· != '"')) := by
  have htill : lib.takeTill (· == '"') body = .ok ('"' :: behind, body.takeWhile (· != '"')) :=
    hb ▸ h.takeTill (· == '"') body
  unfold quoted
  simp only [h.delimited, h.char_cons, htill, bind, Except.bind]
  rfl

theorem quoted_unclosed {body : List Char} (hb : '"' ∉ body) :
    ∃ place, lib.quoted ('"' :: body) = .error (.mismatch place) := by
  have htill : lib.takeTill (· == '"') body = .ok ([], body.takeWhile (· != '"')) :=
    dropWhile_ne_eq_nil hb ▸ h.takeTill (· == '"') body
  obtain ⟨place, hend⟩ := h.char_mismatch '"' [] (by simp)
  refine ⟨place, ?_⟩
  unfold quoted
  simp only [h.delimited, h.char_cons, htill, hend, bind, Except.bind]

theorem value_quoted {body behind : List Char} (he : skipBlanks text = '=' :: rest)
    (hv : skipBlanks rest = '"' :: body) (hb : body.dropWhile (· != '"') = '"' :: behind) :
    lib.value true text = .ok (afterLine behind, .data (body.takeWhile (· != '"'))) := by
  have hopt : lib.opt lib.quoted ('"' :: body) = .ok (behind, some (body.takeWhile (· != '"'))) := by
    rw [h.opt, h.quoted_closed hb]
  unfold value
  simp only [h.blanks_eq, he, h.opt_char_cons, hv, List.head?_cons, and_self, if_true, hopt, h.restOfLine_eq, bind,
    Except.bind]
  rfl

theorem value_unclosed {body : List Char} (he : skipBlanks text = '=' :: rest) (hv : skipBlanks rest = '"' :: body)
    (hb : '"' ∉ body) : lib.value true text = .ok ([], .unclosed ('"' :: body)) := by
  have hopt : lib.opt lib.quoted ('"' :: body) = .ok ('"' :: body, none) := by
    obtain ⟨place, hq⟩ := h.quoted_unclosed hb
    rw [h.opt, hq]
  unfold value
  simp only [h.blanks_eq, he, h.opt_char_cons, hv, List.head?_cons, and_self, if_true, hopt, bind, Except.bind]
  rfl

end Documented

end Combinators

end IniDoc.Text
