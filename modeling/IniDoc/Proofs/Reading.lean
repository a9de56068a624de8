import Mathlib.Data.List.TakeWhile
import IniDoc.Text.Item

/-!
# What reading an item can do

The eight ways in which an item is read from a text whose leading spaces are gone, as a relation. Facts about items
go by cases on it and do not open the readers.

* `Item.Reads`: the relation.
* `Item.next_eq_some_iff`: it is what `Item.next` computes.
* `Item.Reads.boundary`: reading goes on at the start of a line or at a header.
-/

namespace IniDoc.Text

variable {text line rest : List Char} {c : Char}

/-! ## Spaces and lines -/

/-- What is left behind the spaces starts with no space. -/
theorem isSpace_of_skipSpace (h : skipSpace text = c :: rest) : isSpace c = false := by
  have := List.head?_dropWhile_not isSpace text
  simp_all [skipSpace]

theorem isBlank_of_skipBlanks (h : skipBlanks text = c :: rest) : isBlank c = false := by
  have := List.head?_dropWhile_not isBlank text
  simp_all [skipBlanks]

theorem skipSpace_idem (text : List Char) : skipSpace (skipSpace text) = skipSpace text := by
  cases h : skipSpace text with
  | nil => rfl
  | cons c rest => simp [skipSpace, isSpace_of_skipSpace h]

theorem afterLine_skipBlanks (text : List Char) : afterLine (skipBlanks text) = afterLine text := by
  induction text with
  | nil => rfl
  | cons c text ih =>
    by_cases hc : isBlank c = true
    · have hne : c ≠ '\n' := by
        rintro rfl
        cases hc
      rw [skipBlanks, List.dropWhile_cons_of_pos hc]
      refine ih.trans ?_
      simp [afterLine, hne]
    · rw [skipBlanks, List.dropWhile_cons_of_neg hc]

/-- Behind a line stands either nothing or what a line feed is followed by. -/
theorem afterLine_boundary (text : List Char) : afterLine text = [] ∨ '\n' :: afterLine text <:+ text := by
  cases h : text.dropWhile (· != '\n') with
  | nil => exact .inl (by rw [afterLine, h]; rfl)
  | cons c rest =>
    have hc : c = '\n' := by
      have := List.head?_dropWhile_not (· != '\n') text
      simpa [h] using this
    have hs : c :: rest <:+ text := h ▸ List.dropWhile_suffix _
    exact .inr (by rw [afterLine, h]; exact hc ▸ hs)

/-- A text with a character in it can be cut before the first one. -/
theorem exists_dropWhile_ne (h : c ∈ text) : ∃ rest, text.dropWhile (· != c) = c :: rest := by
  cases hd : text.dropWhile (· != c) with
  | nil =>
    have := List.dropWhile_eq_nil_iff.1 hd c h
    simp at this
  | cons d rest =>
    have := List.head?_dropWhile_not (· != c) text
    exact ⟨rest, by simpa [hd] using this⟩

/-- A text without a character in it is all in front of the first one. -/
theorem dropWhile_ne_eq_nil (h : c ∉ text) : text.dropWhile (· != c) = [] := by
  simp only [List.dropWhile_eq_nil_iff, bne_iff_ne]
  rintro d hd rfl
  exact h hd

/-- Where an equals sign stands behind the blanks, no semicolon stands in front of them. -/
theorem head?_ne_of_equals (h : skipBlanks text = '=' :: rest) : text.head? ≠ some ';' := by
  intro hc
  obtain ⟨behind, rfl⟩ := List.head?_eq_some_iff.1 hc
  cases h

namespace Item

/-! ## The parts of a line -/

/-- The name of a header, behind its bracket. -/
def headerName (text : List Char) : List Char := (skipBlanks text).takeWhile (!endsHeader ·)

/-- The text behind the line of a header, from behind its bracket. -/
def behindHeader (text : List Char) : List Char := afterLine ((skipBlanks text).dropWhile (!endsHeader ·))

/-- The first word of a line. -/
def word (line : List Char) : List Char := line.takeWhile (!endsName ·)

/-- A line from behind its first word. -/
def behindWord (line : List Char) : List Char := line.dropWhile (!endsName ·)

theorem behindHeader_suffix (text : List Char) : behindHeader text <:+ text :=
  (afterLine_suffix _).trans ((List.dropWhile_suffix _).trans (skipBlanks_suffix text))

theorem behindWord_suffix (line : List Char) : behindWord line <:+ line := List.dropWhile_suffix _

theorem suffix_of_equals {value : List Char} (h : skipBlanks (behindWord line) = '=' :: value) :
    skipBlanks value <:+ line :=
  (skipBlanks_suffix value).trans ((List.suffix_cons _ _).trans
    (h ▸ (skipBlanks_suffix _).trans (behindWord_suffix line)))

/-- `Reads quotes inSection line item rest`: of a text that starts with no space, the first item is `item`, and
`rest` stands behind it. -/
inductive Reads (quotes : Bool) : Bool → List Char → Item → List Char → Prop
  | header {s : Bool} {text : List Char} (hn : headerName text ≠ []) :
      Reads quotes s ('[' :: text) (.header (String.ofList (headerName text))) (behindHeader text)
  | nameless {s : Bool} {text : List Char} (hn : headerName text = []) :
      Reads quotes s ('[' :: text) .namelessHeader (toHeader (behindHeader text))
  | outside {c : Char} {text : List Char} (hs : isSpace c = false) (hc : c ≠ '[') :
      Reads quotes false (c :: text) .outside (toHeader (c :: text))
  | comment {c : Char} {text behind : List Char} (hs : isSpace c = false) (hc : c ≠ '[')
      (hb : behindWord (c :: text) = ';' :: behind) :
      Reads quotes true (c :: text) .comment (afterLine behind)
  | noEquals {c : Char} {text : List Char} (hs : isSpace c = false) (hc : c ≠ '[')
      (hb : (behindWord (c :: text)).head? ≠ some ';')
      (he : (skipBlanks (behindWord (c :: text))).head? ≠ some '=') :
      Reads quotes true (c :: text) .noEquals (afterLine (skipBlanks (behindWord (c :: text))))
  | plain {c : Char} {text value : List Char} (hs : isSpace c = false) (hc : c ≠ '[')
      (he : skipBlanks (behindWord (c :: text)) = '=' :: value)
      (hq : quotes = true → (skipBlanks value).head? ≠ some '"') :
      Reads quotes true (c :: text)
        (.entry (String.ofList (word (c :: text))) (String.ofList ((skipBlanks value).takeWhile (!endsValue ·))))
        (afterLine ((skipBlanks value).dropWhile (!endsValue ·)))
  | quoted {c : Char} {text value body behind : List Char} (hs : isSpace c = false) (hc : c ≠ '[')
      (he : skipBlanks (behindWord (c :: text)) = '=' :: value) (hq : quotes = true)
      (hv : skipBlanks value = '"' :: body) (hb : body.dropWhile (· != '"') = '"' :: behind) :
      Reads quotes true (c :: text)
        (.entry (String.ofList (word (c :: text))) (String.ofList (body.takeWhile (· != '"')))) (afterLine behind)
  | unclosed {c : Char} {text value body : List Char} (hs : isSpace c = false) (hc : c ≠ '[')
      (he : skipBlanks (behindWord (c :: text)) = '=' :: value) (hq : quotes = true)
      (hv : skipBlanks value = '"' :: body) (hb : '"' ∉ body) :
      Reads quotes true (c :: text) (.unclosed ('"' :: body)) []

variable {quotes inSection : Bool} {item : Item}

/-! ## The relation is the function -/

theorem ofHeader_of_ne_nil (h : headerName text ≠ []) :
    ofHeader text = (.header (String.ofList (headerName text)), behindHeader text) :=
  if_neg (by simpa [headerName] using h)

theorem ofHeader_of_eq_nil (h : headerName text = []) :
    ofHeader text = (.namelessHeader, toHeader (behindHeader text)) :=
  if_pos (by simpa [headerName] using h)

theorem toHeader_nil (h : skipBlanks text = []) : toHeader text = [] := by
  rw [toHeader]
  split
  · rfl
  · next he =>
    rw [h] at he
    cases he

theorem toHeader_bracket (h : skipBlanks text = '[' :: rest) : toHeader text = '[' :: rest := by
  rw [toHeader]
  split
  · next he =>
    rw [h] at he
    cases he
  · next he =>
    rw [h] at he
    cases he
    rfl

theorem toHeader_other (h : skipBlanks text = c :: rest) (hc : c ≠ '[') :
    toHeader text = toHeader (afterLine text) := by
  rw [toHeader]
  split
  · next he =>
    rw [h] at he
    cases he
  · next he =>
    rw [h] at he
    cases he
    rw [if_neg (by simpa using hc)]

theorem next_nil (h : skipSpace text = []) : next quotes inSection text = none := by
  unfold next
  rw [h]

theorem next_bracket (h : skipSpace text = '[' :: rest) : next quotes inSection text = some (ofHeader rest) := by
  unfold next
  rw [h]
  rfl

theorem next_other (h : skipSpace text = c :: rest) (hc : c ≠ '[') :
    next quotes inSection text =
      if inSection then some (ofLine quotes (String.ofList (word (c :: rest))) (behindWord (c :: rest)))
      else some (.outside, toHeader (c :: rest)) := by
  unfold next
  rw [h]
  split
  · next he => cases he
  · next he => exact absurd (List.cons.inj he).1 hc
  · next he =>
    cases he
    rfl

theorem next_eq_none_iff : next quotes inSection text = none ↔ skipSpace text = [] := by
  constructor
  · intro h
    cases hs : skipSpace text with
    | nil => rfl
    | cons c rest =>
      by_cases hc : c = '['
      · subst hc
        rw [next_bracket hs] at h
        cases h
      · rw [next_other hs hc] at h
        cases inSection <;> cases h
  · exact next_nil

theorem ofLine_comment (name : String) (behind : List Char) :
    ofLine quotes name (';' :: behind) = (.comment, afterLine behind) := rfl

theorem ofLine_noEquals (name : String) (hb : text.head? ≠ some ';') (he : (skipBlanks text).head? ≠ some '=') :
    ofLine quotes name text = (.noEquals, afterLine (skipBlanks text)) := by
  unfold ofLine
  split
  · exact absurd rfl hb
  · split
    · next hv => exact absurd (congrArg List.head? hv) he
    · rfl

theorem ofLine_equals (name : String) {value : List Char} (he : skipBlanks text = '=' :: value) :
    ofLine quotes name text = ofValue quotes name (skipBlanks value) := by
  unfold ofLine
  split
  · cases he
  · simp only [he]

theorem ofValue_plain (name : String) (hq : quotes = true → text.head? ≠ some '"') :
    ofValue quotes name text =
      (.entry name (String.ofList (text.takeWhile (!endsValue ·))), afterLine (text.dropWhile (!endsValue ·))) := by
  unfold ofValue
  split
  · exact absurd rfl (hq rfl)
  · rfl

theorem ofValue_quoted (name : String) {body behind : List Char} (hb : body.dropWhile (· != '"') = '"' :: behind) :
    ofValue true name ('"' :: body) = (.entry name (String.ofList (body.takeWhile (· != '"'))), afterLine behind) := by
  simp only [ofValue, hb]

theorem ofValue_unclosed (name : String) {body : List Char} (hb : '"' ∉ body) :
    ofValue true name ('"' :: body) = (.unclosed ('"' :: body), []) := by
  simp only [ofValue, dropWhile_ne_eq_nil hb]

/-- Every way of reading is a case of the relation. -/
theorem reads_of_next (h : next quotes inSection text = some (item, rest)) :
    Reads quotes inSection (skipSpace text) item rest := by
  cases hs : skipSpace text with
  | nil =>
    rw [next_nil hs] at h
    cases h
  | cons c line =>
    have hsp := isSpace_of_skipSpace hs
    by_cases hc : c = '['
    · subst hc
      rw [next_bracket hs] at h
      by_cases hn : headerName line = []
      · rw [ofHeader_of_eq_nil hn] at h
        cases h
        exact .nameless hn
      · rw [ofHeader_of_ne_nil hn] at h
        cases h
        exact .header hn
    · rw [next_other hs hc] at h
      cases inSection with
      | false =>
        cases h
        exact .outside hsp hc
      | true =>
        rw [if_pos rfl] at h
        by_cases hb : (behindWord (c :: line)).head? = some ';'
        · obtain ⟨behind, hb⟩ := List.head?_eq_some_iff.1 hb
          rw [hb, ofLine_comment] at h
          cases h
          exact .comment hsp hc hb
        · by_cases he : (skipBlanks (behindWord (c :: line))).head? = some '='
          · obtain ⟨value, he⟩ := List.head?_eq_some_iff.1 he
            rw [ofLine_equals _ he] at h
            by_cases hq : quotes = true ∧ (skipBlanks value).head? = some '"'
            · obtain ⟨rfl, hv⟩ := hq
              obtain ⟨body, hv⟩ := List.head?_eq_some_iff.1 hv
              rw [hv] at h
              by_cases hb : '"' ∈ body
              · obtain ⟨behind, hb⟩ := exists_dropWhile_ne hb
                rw [ofValue_quoted _ hb] at h
                cases h
                exact .quoted hsp hc he rfl hv hb
              · rw [ofValue_unclosed _ hb] at h
                cases h
                exact .unclosed hsp hc he rfl hv hb
            · have hq : quotes = true → (skipBlanks value).head? ≠ some '"' := fun h1 h2 => hq ⟨h1, h2⟩
              rw [ofValue_plain _ hq] at h
              cases h
              exact .plain hsp hc he hq
          · rw [ofLine_noEquals _ hb he] at h
            cases h
            exact .noEquals hsp hc hb he

/-- The relation is what `next` computes. -/
theorem next_eq_some_iff :
    next quotes inSection text = some (item, rest) ↔ Reads quotes inSection (skipSpace text) item rest := by
  constructor
  · exact reads_of_next
  · intro h
    generalize hs : skipSpace text = line at h
    cases h with
    | header hn => rw [next_bracket hs, ofHeader_of_ne_nil hn]
    | nameless hn => rw [next_bracket hs, ofHeader_of_eq_nil hn]
    | outside _ hc => rw [next_other hs hc, if_neg (by simp)]
    | comment _ hc hb => rw [next_other hs hc, if_pos rfl, hb, ofLine_comment]
    | noEquals _ hc hb he => rw [next_other hs hc, if_pos rfl, ofLine_noEquals _ hb he]
    | plain _ hc he hq => rw [next_other hs hc, if_pos rfl, ofLine_equals _ he, ofValue_plain _ hq]
    | quoted _ hc he hq hv hb =>
      rw [next_other hs hc, if_pos rfl, ofLine_equals _ he, hq, hv, ofValue_quoted _ hb]
    | unclosed _ hc he hq hv hb =>
      rw [next_other hs hc, if_pos rfl, ofLine_equals _ he, hq, hv, ofValue_unclosed _ hb]

theorem Reads.skipSpace_eq (h : Reads quotes inSection line item rest) : skipSpace line = line := by
  cases h with
  | header _ => rfl
  | nameless _ => rfl
  | _ hs => simp [skipSpace, hs]

theorem Reads.next_eq (h : Reads quotes inSection line item rest) : next quotes inSection line = some (item, rest) :=
  next_eq_some_iff.2 (h.skipSpace_eq.symm ▸ h)

theorem Reads.suffix (h : Reads quotes inSection line item rest) : rest <:+ line := next_suffix h.next_eq

theorem Reads.length_lt (h : Reads quotes inSection line item rest) : rest.length < line.length :=
  next_length_lt h.next_eq

/-- A header has a name. -/
theorem ne_empty_of_next {name : String} (h : next quotes inSection text = some (.header name, rest)) : name ≠ "" := by
  have hr := reads_of_next h
  generalize skipSpace text = line at hr
  cases hr with
  | header hn => simpa using hn

/-! ## Where reading goes on -/

/-- Where lines are dropped, the blanks in front of the first one are dropped at least. -/
theorem toHeader_suffix_skipBlanks (text : List Char) : toHeader text <:+ skipBlanks text := by
  fun_induction toHeader text with
  | case1 text hb => exact List.nil_suffix
  | case2 text c rest hb hc => exact hb ▸ List.suffix_refl _
  | case3 text c rest hb hc ih =>
    have hblanks : afterLine text <:+ skipBlanks text := afterLine_skipBlanks text ▸ afterLine_suffix _
    exact (ih.trans (skipBlanks_suffix _)).trans hblanks

theorem toHeader_boundary (text : List Char) : toHeader text = [] ∨ ∃ rest, toHeader text = '[' :: rest := by
  fun_induction toHeader text with
  | case1 text hb => exact .inl rfl
  | case2 text c rest hb hc =>
    obtain rfl : c = '[' := beq_iff_eq.1 hc
    exact .inr ⟨rest, rfl⟩
  | case3 text c rest hb hc ih => exact ih

/-- Reading goes on at the start of a line or at a header, if it goes on. -/
theorem Reads.boundary (h : Reads quotes inSection line item rest) :
    rest = [] ∨ '\n' :: rest <:+ line ∨ ∃ text, rest = '[' :: text := by
  have hafter : ∀ {behind}, behind <:+ line →
      afterLine behind = [] ∨ '\n' :: afterLine behind <:+ line ∨ ∃ text, afterLine behind = '[' :: text :=
    fun hs => (afterLine_boundary _).imp_right fun h => .inl (h.trans hs)
  have hto : ∀ text, toHeader text = [] ∨ '\n' :: toHeader text <:+ line ∨ ∃ rest, toHeader text = '[' :: rest :=
    fun text => (toHeader_boundary text).imp_right .inr
  cases h with
  | header hn =>
    exact hafter ((List.dropWhile_suffix _).trans ((skipBlanks_suffix _).trans (List.suffix_cons _ _)))
  | nameless hn => exact hto _
  | outside hs hc => exact hto _
  | comment hs hc hb => exact hafter ((List.suffix_cons _ _).trans (hb ▸ behindWord_suffix _))
  | noEquals hs hc hb he => exact hafter ((skipBlanks_suffix _).trans (behindWord_suffix _))
  | plain hs hc he hq => exact hafter ((List.dropWhile_suffix _).trans (suffix_of_equals he))
  | @quoted _ _ _ body behind hs hc he hq hv hb =>
    have hbody : body <:+ _ := (List.suffix_cons _ _).trans (hv ▸ suffix_of_equals he)
    have hbehind : '"' :: behind <:+ body := hb ▸ List.dropWhile_suffix _
    exact hafter ((List.suffix_cons _ _).trans (hbehind.trans hbody))
  | unclosed => exact .inl rfl

/-! ## A text as a sequence of items -/

theorem allFrom_of_next_none (h : next quotes inSection text = none) : allFrom quotes inSection text = [] := by
  rw [allFrom]
  split
  · rfl
  · next he =>
    rw [h] at he
    cases he

theorem allFrom_of_next (h : next quotes inSection text = some (item, rest)) :
    allFrom quotes inSection text = item :: allFrom quotes (item.opensSection inSection) rest := by
  rw [allFrom]
  split
  · next he =>
    rw [h] at he
    cases he
  · next he =>
    rw [h] at he
    cases he
    rfl

theorem allFrom_congr {text' : List Char} (h : next quotes inSection text = next quotes inSection text') :
    allFrom quotes inSection text = allFrom quotes inSection text' := by
  cases hn : next quotes inSection text' with
  | none => rw [allFrom_of_next_none hn, allFrom_of_next_none (h.trans hn)]
  | some found => rw [allFrom_of_next hn, allFrom_of_next (h.trans hn)]

/-- What holds of a text, and of the text behind every item in it, decides what holds of the items. -/
theorem forall_mem_allFrom {P : List Char → Prop} {Q : Item → Prop}
    (hnext : ∀ s text item rest, P text → next quotes s text = some (item, rest) → Q item ∧ P rest) (h : P text) :
    ∀ item ∈ allFrom quotes inSection text, Q item := by
  fun_induction allFrom quotes inSection text with
  | case1 s text hn => simp
  | case2 s text first rest hn ih =>
    obtain ⟨hfirst, hrest⟩ := hnext s text first rest h hn
    rw [List.forall_mem_cons]
    exact ⟨hfirst, ih hrest⟩

theorem unclosed?_eq_some_iff {tail : List Char} : item.unclosed? = some tail ↔ item = .unclosed tail := by
  cases item <;> simp [unclosed?]

/-- Where quotes mean nothing, none is left unclosed. -/
theorem findSome?_unclosed?_eq_none (inSection : Bool) (text : List Char) :
    (allFrom false inSection text).findSome? unclosed? = none := by
  refine List.findSome?_eq_none_iff.2 (forall_mem_allFrom (fun s text item rest _ h => ⟨?_, trivial⟩) trivial)
  rw [next_eq_some_iff] at h
  generalize skipSpace text = line at h
  cases h with
  | unclosed _ _ _ hq => cases hq
  | _ => rfl

end Item

end IniDoc.Text
