import Mathlib.Data.List.DropRight
import IniDoc.Proofs.Line
import IniDoc.Proofs.WellFormed

/-!
# Lines in front of the first header

What stands in front of the first header says nothing. The first line that is not empty decides how the others are
read: if it is a header, it is found behind spaces of every kind; if not, lines are dropped until one starts with a
bracket behind blanks, and a carriage return is no blank.

* `IsJunk`, `HeaderBehindReturn`: a line that is no header, and a header that is found only where nothing is dropped.
* `Item.toHeader_skipSpace`: the two ways of finding a header agree everywhere else.
* `scan_behind_junk`: a line in front of a text that is no header does nothing.
-/

namespace IniDoc.Text

variable {text line rest indent header : List Char} {c : Char}

/-! ## Lines and indentation -/

/-- A line whose first character behind the spaces, if there is one, is no bracket. -/
def IsJunk (line : List Char) : Prop := '\n' ∉ line ∧ (skipSpace line).head? ≠ some '['

instance (line : List Char) : Decidable (IsJunk line) := inferInstanceAs (Decidable (_ ∧ _))

/-- The spaces in front of the first other character of a text, as far as they stand on its line. -/
def indentation (text : List Char) : List Char := (text.takeWhile isSpace).rtakeWhile (· != '\n')

/-- The first character behind the spaces is a bracket, and a carriage return stands in front of it on its line. -/
def HeaderBehindReturn (text : List Char) : Prop := (skipSpace text).head? = some '[' ∧ '\r' ∈ indentation text

instance (text : List Char) : Decidable (HeaderBehindReturn text) := inferInstanceAs (Decidable (_ ∧ _))

/-- Spaces that stand on one line. -/
def IsIndent (indent : List Char) : Prop := ∀ c ∈ indent, isSpace c = true ∧ c ≠ '\n'

instance (indent : List Char) : Decidable (IsIndent indent) := List.decidableBAll _ indent

theorem skipSpace_indent (h : IsIndent indent) (rest : List Char) : skipSpace (indent ++ rest) = skipSpace rest :=
  List.dropWhile_append_of_pos fun c hc => (h c hc).1

theorem skipSpace_skipBlanks (text : List Char) : skipSpace (skipBlanks text) = skipSpace text := by
  induction text with
  | nil => rfl
  | cons c text ih =>
    by_cases hc : isBlank c = true
    · rw [skipBlanks, List.dropWhile_cons_of_pos hc]
      refine ih.trans ?_
      simp [skipSpace, isSpace, hc]
    · rw [skipBlanks, List.dropWhile_cons_of_neg hc]

theorem afterLine_indent (h : IsIndent indent) (rest : List Char) : afterLine (indent ++ rest) = afterLine rest := by
  rw [afterLine, List.dropWhile_append_of_pos (by simpa using fun c hc => (h c hc).2), afterLine]

/-- Without a carriage return an indentation is made of blanks. -/
theorem skipBlanks_indent (h : IsIndent indent) (hr : '\r' ∉ indent) (rest : List Char) :
    skipBlanks (indent ++ rest) = skipBlanks rest := by
  apply List.dropWhile_append_of_pos
  intro c hc
  obtain ⟨hs, hn⟩ := h c hc
  have hne : c ≠ '\r' := by
    rintro rfl
    exact hr hc
  simpa [isSpace, isLineEnd, hn, hne] using hs

theorem indentation_indent (h : IsIndent indent) (hc : isSpace c = false) (rest : List Char) :
    indentation (indent ++ c :: rest) = indent := by
  have htake : (indent ++ c :: rest).takeWhile isSpace = indent := by
    rw [List.takeWhile_append_of_pos fun d hd => (h d hd).1, List.takeWhile_cons_of_neg (by simp [hc]),
      List.append_nil]
  rw [indentation, htake, List.rtakeWhile_eq_self_iff]
  simpa using fun d hd => (h d hd).2

/-- What stands on an empty line does not count. -/
theorem indentation_line (h : IsIndent indent) (rest : List Char) :
    indentation (indent ++ '\n' :: rest) = indentation rest := by
  have htake : (indent ++ '\n' :: rest).takeWhile isSpace = indent ++ '\n' :: rest.takeWhile isSpace := by
    rw [List.takeWhile_append_of_pos fun d hd => (h d hd).1]
    rfl
  rw [indentation, htake, List.rtakeWhile, List.reverse_append, List.reverse_cons, List.append_assoc,
    takeWhile_append_stop _ (by rintro _ ⟨⟩; rfl)]
  rfl

/-- A text is indented, and then the line is empty or starts with a character that is no space. -/
theorem exists_indent (text : List Char) : ∃ indent rest, text = indent ++ rest ∧ IsIndent indent ∧
    (rest = [] ∨ (∃ behind, rest = '\n' :: behind) ∨ ∃ c behind, rest = c :: behind ∧ isSpace c = false) := by
  refine ⟨text.takeWhile fun c => isSpace c && c != '\n', text.dropWhile fun c => isSpace c && c != '\n',
    List.takeWhile_append_dropWhile.symm, ?_, ?_⟩
  · intro c hc
    simpa using List.mem_takeWhile_imp hc
  · cases hd : text.dropWhile fun c => isSpace c && c != '\n' with
    | nil => exact .inl rfl
    | cons c behind =>
      have hstop := List.head?_dropWhile_not (fun c => isSpace c && c != '\n') text
      by_cases hc : c = '\n'
      · exact .inr (.inl ⟨behind, hc ▸ rfl⟩)
      · exact .inr (.inr ⟨c, behind, rfl, by simpa [hd, hc] using hstop⟩)

/-! ## Headers behind a carriage return -/

theorem not_headerBehindReturn_indent (h : IsIndent indent) (hr : '\r' ∉ indent) (header : List Char) :
    ¬HeaderBehindReturn (indent ++ '[' :: header) := by
  rintro ⟨-, hreturn⟩
  rw [indentation_indent h rfl] at hreturn
  exact hr hreturn

theorem IsJunk.isIndent (hj : IsJunk line) (hb : skipSpace line = []) : IsIndent line := by
  intro c hc
  refine ⟨List.dropWhile_eq_nil_iff.1 hb c hc, ?_⟩
  rintro rfl
  exact hj.1 hc

/-- A header that stands behind a line that is none is found there or not as it is by itself. -/
theorem IsJunk.not_headerBehindReturn (hj : IsJunk line) (h : ¬HeaderBehindReturn text) :
    ¬HeaderBehindReturn (line ++ '\n' :: text) := by
  rintro ⟨hhead, hreturn⟩
  cases hs : skipSpace line with
  | nil =>
    rw [skipSpace_append_of_eq_nil hs] at hhead
    rw [indentation_line (hj.isIndent hs)] at hreturn
    exact h ⟨hhead, hreturn⟩
  | cons c rest =>
    rw [skipSpace_append_of_cons hs] at hhead
    rw [IsJunk, hs] at hj
    exact hj.2 hhead

namespace Item

variable {quotes inSection : Bool}

/-! ## Two ways to a header -/

/-- Unless a carriage return stands in front of it, dropping lines finds the header that skipping spaces finds. -/
theorem toHeader_skipSpace (h : ¬HeaderBehindReturn text) : toHeader (skipSpace text) = toHeader text := by
  fun_induction toHeader text with
  | case1 text hb =>
    have hs : skipSpace text = [] := by
      rw [← skipSpace_skipBlanks, hb]
      rfl
    rw [hs, toHeader_nil rfl]
  | case2 text c rest hb hc =>
    obtain rfl : c = '[' := beq_iff_eq.1 hc
    have hs : skipSpace text = '[' :: rest := by
      rw [← skipSpace_skipBlanks, hb]
      rfl
    rw [hs, toHeader_bracket rfl]
  | case3 text c rest hb hc ih =>
    obtain ⟨indent, line, rfl, hi, rfl | ⟨behind, rfl⟩ | ⟨d, behind, rfl, hd⟩⟩ := exists_indent text
    · rw [skipSpace_indent hi, afterLine_indent hi]
      rfl
    · -- An empty line: the header is found behind it, if there is one.
      have hafter : afterLine (indent ++ '\n' :: behind) = behind := afterLine_indent hi _
      have hskip : skipSpace (indent ++ '\n' :: behind) = skipSpace behind := skipSpace_indent hi _
      rw [hafter] at ih ⊢
      rw [hskip]
      apply ih
      rwa [HeaderBehindReturn, hskip, indentation_line hi] at h
    · have hskip : skipSpace (indent ++ d :: behind) = d :: behind := by
        rw [skipSpace_indent hi, skipSpace, List.dropWhile_cons_of_neg (by simp [hd])]
      have hblank : skipBlanks (d :: behind) = d :: behind := skipBlanks_cons (Bool.or_eq_false_iff.1 hd).1 behind
      by_cases hd' : d = '['
      · subst hd'
        -- A carriage return stands in front of the header, or the blanks end there.
        by_cases hr : '\r' ∈ indent
        · exact absurd ⟨congrArg List.head? hskip, (indentation_indent hi hd behind).symm ▸ hr⟩ h
        · rw [skipBlanks_indent hi hr, hblank] at hb
          cases hb
          exact absurd rfl hc
      · rw [hskip, toHeader_other hblank hd', afterLine_indent hi]

/-! ## What lines in front of a header say -/

theorem next_congr {text' : List Char} (h : skipSpace text = skipSpace text') :
    next quotes inSection text = next quotes inSection text' := by
  rw [next, next, h]

/-- The items that do something. -/
def effective (items : List Item) : List Item := items.filter (· != .outside)

/-- Behind the line that tells how the others are read, lines are dropped up to a header. -/
theorem allFrom_content (h : skipSpace text = c :: rest) (hc : c ≠ '[') :
    allFrom quotes false text = .outside :: allFrom quotes false (toHeader (c :: rest)) := by
  have hnext : next quotes false text = some (.outside, toHeader (c :: rest)) := by
    rw [next_other h hc, if_neg Bool.false_ne_true]
  rw [allFrom_of_next hnext]
  rfl

/-- Lines dropped up to a header do nothing. -/
theorem effective_toHeader (h : ¬HeaderBehindReturn text) :
    effective (allFrom quotes false (toHeader text)) = effective (allFrom quotes false text) := by
  rw [← toHeader_skipSpace h]
  cases hs : skipSpace text with
  | nil =>
    have hempty : skipSpace text = skipSpace [] := hs
    rw [toHeader_nil rfl, allFrom_congr (next_congr hempty)]
  | cons c rest =>
    by_cases hc : c = '['
    · subst hc
      have hheader : skipSpace text = skipSpace ('[' :: rest) := hs
      rw [toHeader_bracket rfl, allFrom_congr (next_congr hheader)]
    · rw [allFrom_content hs hc]
      rfl

theorem allFrom_blank (hb : skipSpace line = []) (text : List Char) :
    allFrom quotes inSection (line ++ '\n' :: text) = allFrom quotes inSection text :=
  allFrom_congr (next_congr (skipSpace_append_of_eq_nil hb))

theorem allFrom_junk (hj : IsJunk line) (hne : skipSpace line ≠ []) (text : List Char) :
    allFrom quotes false (line ++ '\n' :: text) = .outside :: allFrom quotes false (toHeader text) := by
  obtain ⟨hlf, hbracket⟩ := hj
  obtain ⟨c, rest, hs⟩ := List.exists_cons_of_ne_nil hne
  have hc : c ≠ '[' := by
    rintro rfl
    exact hbracket (by rw [hs]; rfl)
  have hrest : ∀ d ∈ c :: rest, d ≠ '\n' := by
    rintro d hd rfl
    exact hlf ((skipSpace_suffix line).subset (hs ▸ hd))
  have hhead : skipBlanks (c :: (rest ++ '\n' :: text)) = c :: (rest ++ '\n' :: text) :=
    skipBlanks_cons (Bool.or_eq_false_iff.1 (isSpace_of_skipSpace hs)).1 _
  rw [allFrom_content (skipSpace_append_of_cons hs) hc, toHeader_other hhead hc, ← List.cons_append,
    afterLine_append_lf hrest]

/-- A line that is no header does nothing in front of a text, unless a line is dropped there and the text starts with
a header behind a carriage return. -/
theorem effective_junk (hj : IsJunk line) (h : skipSpace line = [] ∨ ¬HeaderBehindReturn text) :
    effective (allFrom quotes false (line ++ '\n' :: text)) = effective (allFrom quotes false text) := by
  by_cases hb : skipSpace line = []
  · rw [allFrom_blank hb]
  · rw [allFrom_junk hj hb]
    exact effective_toHeader (h.resolve_left hb)

end Item

end IniDoc.Text

namespace IniDoc

open Text
open Text.Item (effective)

theorem Progress.addAll_effective (p : Progress) (items : List Item) : p.addAll (effective items) = p.addAll items := by
  induction items generalizing p with
  | nil => rfl
  | cons item items ih =>
    cases item with
    | outside => exact ih p
    | _ => exact ih (p.add _)

theorem Document.scanChars_congr {d : Document} {options : Options} (hs : options.strict = false)
    {text text' : List Char}
    (h : effective (Item.all options.quotes text) = effective (Item.all options.quotes text')) :
    d.scanChars options text = d.scanChars options text' := by
  have hstate : (Progress.start d).addAll (Item.all options.quotes text) =
      (Progress.start d).addAll (Item.all options.quotes text') := by
    rw [← Progress.addAll_effective, h, Progress.addAll_effective]
  simp only [scanChars, hs, hstate]

variable {options : Options}

theorem Document.scan_junk (d : Document) (hs : options.strict = false) {line text : String} (hj : IsJunk line.toList)
    (h : skipSpace line.toList = [] ∨ ¬HeaderBehindReturn text.toList) :
    d.scan options (line ++ "\n" ++ text) = d.scan options text := by
  refine scanChars_congr hs ?_
  have hchars : (line ++ "\n" ++ text).toList = line.toList ++ '\n' :: text.toList := by simp
  rw [hchars]
  exact Item.effective_junk hj h

/-- No line that is no header makes a header behind it harder to find than it is by itself. -/
theorem not_headerBehindReturn_junk {junk : List String} {indent : String} (header : String)
    (hj : ∀ line ∈ junk, IsJunk line.toList) (hi : IsIndent indent.toList) (hr : '\r' ∉ indent.toList) :
    ¬HeaderBehindReturn (junk.foldr (· ++ "\n" ++ ·) (indent ++ "[" ++ header)).toList := by
  induction junk with
  | nil => simpa using not_headerBehindReturn_indent hi hr header.toList
  | cons line junk ih =>
    rw [List.forall_mem_cons] at hj
    simpa using hj.1.not_headerBehindReturn (ih hj.2)

/-- In front of a header, lines that are none do nothing. -/
theorem Document.scan_junk_header (d : Document) (hs : options.strict = false) {junk : List String}
    {indent : String} (header : String) (hj : ∀ line ∈ junk, IsJunk line.toList) (hi : IsIndent indent.toList)
    (h : (∀ line ∈ junk, skipSpace line.toList = []) ∨ '\r' ∉ indent.toList) :
    d.scan options (junk.foldr (· ++ "\n" ++ ·) (indent ++ "[" ++ header)) = d.scan options ("[" ++ header) := by
  induction junk with
  | nil =>
    refine scanChars_congr hs (congrArg effective (Item.allFrom_congr (Item.next_congr ?_)))
    have hchars : (indent ++ "[" ++ header).toList = indent.toList ++ ("[" ++ header).toList := by simp
    rw [List.foldr_nil, hchars, skipSpace_indent hi]
  | cons line junk ih =>
    rw [List.forall_mem_cons] at hj h
    have hline := h.imp And.left (not_headerBehindReturn_junk header hj.2 hi)
    rw [List.foldr_cons, scan_junk d hs hj.1 hline]
    exact ih hj.2 (h.imp_left And.right)

/-- A line in front of a text that is no header does nothing, but for one case: behind a line that is dropped, a
header is not found behind a carriage return. Up to the first header found, nothing is said. -/
theorem scan_behind_junk (d : Document) (options : Options) (hs : options.strict = false) :
    (∀ line text : String, IsJunk line.toList → skipSpace line.toList = [] ∨ ¬HeaderBehindReturn text.toList →
      d.scan options (line ++ "\n" ++ text) = d.scan options text) ∧
    (∀ line text : String, IsJunk line.toList → skipSpace line.toList ≠ [] →
      d.scan options (line ++ "\n" ++ text) = d.scan options (String.ofList (Item.toHeader text.toList))) ∧
    ∀ (junk : List String) (indent header : String), (∀ line ∈ junk, IsJunk line.toList) → IsIndent indent.toList →
      (∀ line ∈ junk, skipSpace line.toList = []) ∨ '\r' ∉ indent.toList →
      d.scan options (junk.foldr (· ++ "\n" ++ ·) (indent ++ "[" ++ header)) = d.scan options ("[" ++ header) := by
  refine ⟨fun line text hj h => d.scan_junk hs hj h, ?_,
    fun junk indent header hj hi h => d.scan_junk_header hs header hj hi h⟩
  intro line text hj hne
  refine Document.scanChars_congr hs ?_
  have hchars : (line ++ "\n" ++ text).toList = line.toList ++ '\n' :: text.toList := by simp
  rw [hchars, Item.all, Item.allFrom_junk hj hne, String.toList_ofList]
  rfl

/-- A quote and a bracket in a line that is dropped, empty lines with carriage returns behind it; a header that a
dropped line makes pass unseen, and the next one; a header behind a carriage return where nothing is dropped. -/
theorem scan_behind_junk_indented :
    let d := (Document.empty 0).run [.addSection "b"]
    let options : Options := ⟨true, false, .utf8⟩
    let text := "\r\n\t\x0b[B] x\r\nk = 1\n"
    (d.scan options ("\r k = \"[" ++ "\n" ++ text) = d.scan options text ∧
      (d.scan options text).2 = .ok ⟨1, 1, 0, 0⟩) ∧
    (d.scan options ("x" ++ "\n" ++ "\r[a]\n [b]") = d.scan options "[b]" ∧
      (d.scan options "\r[a]\n [b]").2 = .ok ⟨2, 0, 0, 0⟩) ∧
    d.scan options ("" ++ "\n" ++ (" \r" ++ "\n" ++ ("\t\r " ++ "[" ++ "a]\nk=1"))) = d.scan options "[a]\nk=1" := by
  intro d options text
  obtain ⟨hline, hdropped, hheader⟩ := scan_behind_junk d options rfl
  refine ⟨⟨hline _ text (by decide +kernel) (.inr (by decide +kernel)), by decide +kernel⟩, ⟨?_, by decide +kernel⟩, ?_⟩
  · have hfound : String.ofList (Item.toHeader "\r[a]\n [b]".toList) = "[b]" := by decide +kernel
    exact hfound ▸ hdropped "x" "\r[a]\n [b]" (by decide +kernel) (by decide +kernel)
  · exact hheader ["", " \r"] "\t\r " "a]\nk=1" (by decide +kernel) (by decide +kernel) (.inl (by decide +kernel))

/-- A line without any meaning costs the header behind it, which stands behind a carriage return, and its entry. -/
theorem scan_junk_ne_scan :
    let options : Options := ⟨false, false, .utf8⟩
    let text := "\r[A]\nk=1\n"
    IsJunk "junk".toList ∧ ((Document.empty 0).scan options text).2 = .ok ⟨1, 1, 0, 0⟩ ∧
      ((Document.empty 0).scan options ("junk" ++ "\n" ++ text)).2 = .ok ⟨0, 0, 0, 0⟩ := by
  decide +kernel

end IniDoc
