import IniDoc.Proofs.Reading

/-!
# One line at a time

How the readers of items get on with a text that is one line and what stands behind it. A line holds no line end of
its own; it ends in a line feed, in a CRLF pair or with the text.

* `LineEnd`: the ends of a line and what stands behind them.
* `Item.ofContent`: the item of a line in a section, read by itself and without quotes.
* `LineEnd.next_header`, `LineEnd.next_outside`, `LineEnd.next_content`: the item of a line with its end is that of
  the line, and the text behind the item is the text behind the line.
-/

namespace IniDoc.Text

variable {p : Char → Bool} {line tail rest text : List Char} {c : Char}

/-! ## Where a cut stops -/

theorem takeWhile_append_stop (line : List Char) (h : ∀ c ∈ tail.head?, p c = false) :
    (line ++ tail).takeWhile p = line.takeWhile p := by
  induction line with
  | nil => cases tail <;> simp_all
  | cons c line ih => by_cases hc : p c <;> simp [hc, ih]

theorem dropWhile_append_stop (line : List Char) (h : ∀ c ∈ tail.head?, p c = false) :
    (line ++ tail).dropWhile p = line.dropWhile p ++ tail := by
  induction line with
  | nil => cases tail <;> simp_all
  | cons c line ih => by_cases hc : p c <;> simp [hc, ih]

theorem skipBlanks_append (line : List Char) (h : ∀ c ∈ tail.head?, isBlank c = false) :
    skipBlanks (line ++ tail) = skipBlanks line ++ tail := dropWhile_append_stop line h

theorem skipBlanks_of_head (h : ∀ c ∈ text.head?, isBlank c = false) : skipBlanks text = text :=
  skipBlanks_append [] h

theorem skipBlanks_cons (hc : isBlank c = false) (text : List Char) : skipBlanks (c :: text) = c :: text :=
  List.dropWhile_cons_of_neg (by simp [hc])

theorem skipSpace_append_of_eq_nil (h : skipSpace line = []) : skipSpace (line ++ tail) = skipSpace tail := by
  simp only [skipSpace, List.dropWhile_eq_nil_iff] at h
  exact List.dropWhile_append_of_pos h

theorem skipSpace_append_of_cons (h : skipSpace line = c :: text) : skipSpace (line ++ tail) = c :: (text ++ tail) := by
  rw [skipSpace] at h
  rw [skipSpace, List.dropWhile_append, h]
  rfl

theorem afterLine_append_lf (h : ∀ c ∈ line, c ≠ '\n') (rest : List Char) :
    afterLine (line ++ '\n' :: rest) = rest := by
  rw [afterLine, List.dropWhile_append_of_pos (by simpa using h)]
  simp

theorem afterLine_eq_nil (h : ∀ c ∈ line, c ≠ '\n') : afterLine line = [] := by
  rw [afterLine, List.dropWhile_eq_nil_iff.2 (by simpa using h)]
  rfl

/-! ## Ends of lines -/

/-- The end of a line and the text behind it. -/
inductive LineEnd : List Char → List Char → Prop
  | lf (rest : List Char) : LineEnd ('\n' :: rest) rest
  | crlf (rest : List Char) : LineEnd ('\r' :: '\n' :: rest) rest
  | text : LineEnd [] []

/-- A line holds neither of the characters that end one. -/
def IsLine (line : List Char) : Prop := ∀ c ∈ line, isLineEnd c = false

theorem IsLine.of_suffix (h : IsLine line) (hs : rest <:+ line) : IsLine rest := by
  intro c hc
  exact h c (hs.subset hc)

theorem IsLine.of_cons (h : IsLine (c :: line)) : IsLine line := h.of_suffix (List.suffix_cons c line)

theorem IsLine.ne_lf (h : IsLine line) : ∀ c ∈ line, c ≠ '\n' := by
  rintro c hc rfl
  cases h _ hc

/-- On a line, skipping blanks and skipping spaces are one. -/
theorem IsLine.skipSpace_eq (h : IsLine line) : skipSpace line = skipBlanks line := by
  induction line with
  | nil => rfl
  | cons c line ih =>
    have hc : isLineEnd c = false := h c List.mem_cons_self
    have ih := ih h.of_cons
    simp only [skipSpace, skipBlanks, List.dropWhile_cons, isSpace, hc, Bool.or_false] at ih ⊢
    rw [ih]

/-- A cut that stops at every line end goes as far on a line as it does on the line with its end. -/
theorem IsLine.takeWhile_or (h : IsLine line) (p : Char → Bool) :
    line.takeWhile (fun c => !(p c || isLineEnd c)) = line.takeWhile (!p ·) := by
  induction line with
  | nil => rfl
  | cons c line ih =>
    have hc : isLineEnd c = false := h c List.mem_cons_self
    rw [List.takeWhile_cons, List.takeWhile_cons, ih h.of_cons, hc, Bool.or_false]

namespace LineEnd

theorem head (h : LineEnd tail rest) : ∀ c ∈ tail.head?, isLineEnd c = true := by
  cases h <;> simp [isLineEnd]

theorem head_isBlank (h : LineEnd tail rest) : ∀ c ∈ tail.head?, isBlank c = false := by
  cases h <;> simp [isBlank]

/-- A line with its end starts with a character only if the line does, or the end. -/
theorem head?_append_ne (h : LineEnd tail rest) {d : Char} (hl : line.head? ≠ some d) (hd : isLineEnd d = false) :
    (line ++ tail).head? ≠ some d := by
  cases line with
  | nil =>
    intro ht
    rw [h.head d ht] at hd
    cases hd
  | cons c line => exact hl

/-- What stands behind a line that is not the end of the text is shorter. -/
theorem length_lt (h : LineEnd tail rest) (hne : line ++ tail ≠ []) : rest.length < (line ++ tail).length := by
  have hp : 0 < (line ++ tail).length := List.length_pos_iff.2 hne
  cases h <;> simp_all <;> omega

theorem suffix (h : LineEnd tail rest) : rest <:+ tail := by
  cases h with
  | lf => exact List.suffix_cons ..
  | crlf => exact (List.suffix_cons ..).trans (List.suffix_cons ..)
  | text => exact List.suffix_refl _

theorem afterLine_eq (h : LineEnd tail rest) (hl : IsLine line) : afterLine (line ++ tail) = rest := by
  cases h with
  | lf => exact afterLine_append_lf hl.ne_lf rest
  | crlf =>
    rw [List.append_cons]
    apply afterLine_append_lf
    intro c hc
    rcases List.mem_append.1 hc with hc | hc
    · exact hl.ne_lf c hc
    · rw [List.mem_singleton.1 hc]
      decide
  | text => rw [List.append_nil, afterLine_eq_nil hl.ne_lf]

theorem skipSpace_eq (h : LineEnd tail rest) (hl : skipSpace line = []) :
    skipSpace (line ++ tail) = skipSpace rest := by
  rw [skipSpace_append_of_eq_nil hl]
  cases h <;> rfl

/-- What stands behind the blanks of a line starts with no space. -/
theorem skipSpace_of_cons (tail : List Char) (hl : IsLine line) (hc : skipBlanks line = c :: text) :
    skipSpace (line ++ tail) = c :: (text ++ tail) := skipSpace_append_of_cons (hl.skipSpace_eq.trans hc)

end LineEnd

/-! ## The item of a line -/

namespace Item

/-- The item of a line in a section from behind its first word. -/
def ofBehind (name : String) (behind : List Char) : Item :=
  match behind with
  | ';' :: _ => .comment
  | _ =>
    match skipBlanks behind with
    | '=' :: value => .entry name (String.ofList ((skipBlanks value).takeWhile (· != ';')))
    | _ => .noEquals

theorem ofBehind_equals (name : String) {behind value : List Char} (h : skipBlanks behind = '=' :: value) :
    ofBehind name behind = .entry name (String.ofList ((skipBlanks value).takeWhile (· != ';'))) := by
  unfold ofBehind
  split
  · cases h
  · simp only [h]

theorem ofBehind_noEquals (name : String) {behind : List Char} (hb : behind.head? ≠ some ';')
    (he : (skipBlanks behind).head? ≠ some '=') : ofBehind name behind = .noEquals := by
  unfold ofBehind
  split
  · exact absurd rfl hb
  · split
    · next hv => exact absurd (congrArg List.head? hv) he
    · rfl

/-- The item of a line in a section that starts with neither a blank nor a bracket. -/
def ofContent (content : List Char) : Item :=
  ofBehind (String.ofList (word content)) (behindWord content)

theorem endsName_of_isLineEnd (h : isLineEnd c = true) : endsName c = true := by simp [endsName, isSpace, h]

end Item

namespace LineEnd

open Item

theorem ofValue_eq (h : LineEnd tail rest) (hl : IsLine line) (name : String) :
    ofValue false name (line ++ tail) = (.entry name (String.ofList (line.takeWhile (· != ';'))), rest) := by
  have hstop : ∀ c ∈ tail.head?, (!endsValue c) = false := by
    intro c hc
    simp [endsValue, h.head c hc]
  have hd : afterLine (line.dropWhile (!endsValue ·) ++ tail) = rest :=
    h.afterLine_eq (hl.of_suffix (List.dropWhile_suffix _))
  have ht : line.takeWhile (!endsValue ·) = line.takeWhile (· != ';') := hl.takeWhile_or (· == ';')
  unfold ofValue
  rw [takeWhile_append_stop line hstop, dropWhile_append_stop line hstop, hd, ht]

theorem ofLine_eq (h : LineEnd tail rest) (hl : IsLine line) (name : String) :
    ofLine false name (line ++ tail) = (ofBehind name line, rest) := by
  have hskip := skipBlanks_append line h.head_isBlank
  by_cases hb : line.head? = some ';'
  · obtain ⟨behind, rfl⟩ := List.head?_eq_some_iff.1 hb
    have hafter := h.afterLine_eq (hl.of_suffix (List.suffix_cons ..))
    rw [List.cons_append, ofLine_comment, hafter]
    rfl
  · by_cases he : (skipBlanks line).head? = some '='
    · obtain ⟨value, he⟩ := List.head?_eq_some_iff.1 he
      have hv : IsLine (skipBlanks value) := hl.of_suffix ((skipBlanks_suffix value).trans
        ((List.suffix_cons ..).trans (he ▸ skipBlanks_suffix line)))
      rw [he, List.cons_append] at hskip
      rw [ofLine_equals name hskip, skipBlanks_append value h.head_isBlank, h.ofValue_eq hv, ofBehind_equals name he]
    · have hafter := h.afterLine_eq (hl.of_suffix (skipBlanks_suffix line))
      rw [ofLine_noEquals name (h.head?_append_ne hb rfl) (hskip ▸ h.head?_append_ne he rfl), hskip, hafter,
        ofBehind_noEquals name hb he]

theorem ofHeader_eq (h : LineEnd tail rest) (hl : IsLine line) :
    ofHeader (line ++ tail) =
      if ((skipBlanks line).takeWhile (· != ']')).isEmpty then (.namelessHeader, toHeader rest)
      else (.header (String.ofList ((skipBlanks line).takeWhile (· != ']'))), rest) := by
  have hblanks : IsLine (skipBlanks line) := hl.of_suffix (skipBlanks_suffix line)
  have hstop : ∀ c ∈ tail.head?, (!endsHeader c) = false := by
    intro c hc
    simp [endsHeader, h.head c hc]
  have ht : (skipBlanks line).takeWhile (!endsHeader ·) = (skipBlanks line).takeWhile (· != ']') :=
    hblanks.takeWhile_or (· == ']')
  have hd : afterLine ((skipBlanks line).dropWhile (!endsHeader ·) ++ tail) = rest :=
    h.afterLine_eq (hblanks.of_suffix (List.dropWhile_suffix _))
  simp only [ofHeader]
  rw [skipBlanks_append line h.head_isBlank, takeWhile_append_stop _ hstop, dropWhile_append_stop _ hstop, ht, hd]

theorem next_blank (h : LineEnd tail rest) (hl : IsLine line) (hb : skipBlanks line = []) (quotes inSection : Bool) :
    next quotes inSection (line ++ tail) = next quotes inSection rest := by
  have hs : skipSpace (line ++ tail) = skipSpace rest := h.skipSpace_eq (hl.skipSpace_eq.trans hb)
  unfold next
  rw [hs]

theorem next_header {header : List Char} (h : LineEnd tail rest) (hl : IsLine line)
    (hb : skipBlanks line = '[' :: header) (quotes inSection : Bool) :
    next quotes inSection (line ++ tail) =
      some (if ((skipBlanks header).takeWhile (· != ']')).isEmpty then (.namelessHeader, toHeader rest)
        else (.header (String.ofList ((skipBlanks header).takeWhile (· != ']'))), rest)) := by
  have hh : IsLine header := hl.of_suffix ((List.suffix_cons ..).trans (hb ▸ skipBlanks_suffix line))
  rw [next_bracket (skipSpace_of_cons tail hl hb), h.ofHeader_eq hh]

/-- Dropping lines until a header drops a line that is none. -/
theorem toHeader_eq (h : LineEnd tail rest) (hl : IsLine line) (hb : (skipBlanks line).head? ≠ some '[') :
    toHeader (line ++ tail) = toHeader rest := by
  have hskip := skipBlanks_append line h.head_isBlank
  cases hs : skipBlanks line ++ tail with
  | nil =>
    -- Nothing is left behind the blanks only where the text ends.
    obtain ⟨-, rfl⟩ := List.append_eq_nil_iff.1 hs
    cases h
    rw [toHeader_nil (hskip.trans hs), toHeader_nil rfl]
  | cons c text =>
    have hc : c ≠ '[' := by
      rintro rfl
      cases hl : skipBlanks line with
      | nil =>
        rw [hl, List.nil_append] at hs
        cases h.head '[' (by rw [hs]; rfl)
      | cons d l =>
        rw [hl] at hb hs
        exact hb (congrArg some (List.cons.inj hs).1)
    rw [toHeader_other (hskip.trans hs) hc, h.afterLine_eq hl]

theorem next_outside (h : LineEnd tail rest) (hl : IsLine line) (hb : skipBlanks line = c :: text) (hc : c ≠ '[')
    (quotes : Bool) : next quotes false (line ++ tail) = some (.outside, toHeader rest) := by
  have hs := skipSpace_of_cons tail hl hb
  have ht : IsLine (c :: text) := hl.of_suffix (hb ▸ skipBlanks_suffix line)
  have hblank : skipBlanks (c :: text) = c :: text := by simp [skipBlanks, isBlank_of_skipBlanks hb]
  have hd : toHeader (c :: text ++ tail) = toHeader rest := h.toHeader_eq ht (by simpa [hblank] using hc)
  rw [next_other hs hc, if_neg (by simp), ← List.cons_append, hd]

theorem next_content (h : LineEnd tail rest) (hl : IsLine line) (hb : skipBlanks line = c :: text) (hc : c ≠ '[') :
    next false true (line ++ tail) = some (ofContent (c :: text), rest) := by
  have hs := skipSpace_of_cons tail hl hb
  have ht : IsLine (c :: text) := hl.of_suffix (hb ▸ skipBlanks_suffix line)
  have hstop : ∀ c ∈ tail.head?, (!endsName c) = false := by
    intro c hc
    simp [endsName_of_isLineEnd (h.head c hc)]
  have hword : word (c :: text ++ tail) = word (c :: text) := takeWhile_append_stop _ hstop
  have hbehind : behindWord (c :: text ++ tail) = behindWord (c :: text) ++ tail := dropWhile_append_stop _ hstop
  have hline := h.ofLine_eq (ht.of_suffix (List.dropWhile_suffix (!endsName ·))) (String.ofList (word (c :: text)))
  rw [next_other hs hc, if_pos rfl, ← List.cons_append, hword, hbehind]
  exact congrArg some hline

end LineEnd

end IniDoc.Text
