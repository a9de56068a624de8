import IniDoc.Proofs.Line
import IniDoc.Proofs.Unclosed

/-!
# Two texts as one

A text that starts with a header may stand behind another text and a line feed. Wherever that other text stops, inside
a line, between lines or in lines that are dropped, the line feed ends what the end of the text would have ended, and
the header opens a section of its own.

* `Item.Reads.extend`: an item is read the same way when a line feed and a header follow the text.
* `Item.allFrom_append_header`: the items of both texts are those of the one and then those of the other.
* `scan_append_header`: one scan of both texts is a scan of the one and then a scan of the other.
-/

namespace IniDoc.Text

variable {text line rest joined tail header : List Char} {c : Char}

/-- What is left of a text, and what is left of it when a line feed and a tail follow it. The line feed may have ended
the last line. -/
inductive Joins (tail : List Char) : List Char → List Char → Prop
  | inside (rest : List Char) : Joins tail rest (rest ++ '\n' :: tail)
  | behind : Joins tail [] tail

/-- A line feed stops every cut that stops at line ends. -/
theorem head_lf {p : Char → Bool} (hp : p '\n' = false) : ∀ c ∈ ('\n' :: tail).head?, p c = false := by
  rintro c ⟨⟩
  exact hp

theorem skipBlanks_append_lf (text tail : List Char) :
    skipBlanks (text ++ '\n' :: tail) = skipBlanks text ++ '\n' :: tail := skipBlanks_append text (head_lf rfl)

theorem head?_append_lf_ne {d : Char} (h : text.head? ≠ some d) (hd : d ≠ '\n') :
    (text ++ '\n' :: tail).head? ≠ some d := by
  cases text with
  | nil => simpa using hd.symm
  | cons c text => exact h

theorem joins_afterLine (text tail : List Char) : Joins tail (afterLine text) (afterLine (text ++ '\n' :: tail)) := by
  by_cases h : '\n' ∈ text
  · obtain ⟨rest, hd⟩ := exists_dropWhile_ne h
    have hjoined : afterLine (text ++ '\n' :: tail) = rest ++ '\n' :: tail := by
      rw [afterLine, List.dropWhile_append, hd]
      rfl
    rw [afterLine, hd, hjoined]
    exact .inside rest
  · have hne : ∀ c ∈ text, c ≠ '\n' := by
      rintro c hc rfl
      exact h hc
    rw [afterLine_eq_nil hne, afterLine_append_lf hne]
    exact .behind

namespace Item

variable {quotes inSection : Bool} {item : Item}

/-! ## The readers -/

theorem joins_toHeader (text header : List Char) :
    Joins ('[' :: header) (toHeader text) (toHeader (text ++ '\n' :: '[' :: header)) := by
  have hheader : toHeader ('[' :: header) = '[' :: header := toHeader_bracket rfl
  fun_induction toHeader text with
  | case1 text hb =>
    have hskip := skipBlanks_append_lf text ('[' :: header)
    have hne : ∀ c ∈ text, c ≠ '\n' := by
      rintro c hc rfl
      exact absurd (List.dropWhile_eq_nil_iff.1 hb _ hc) (by decide)
    rw [hb, List.nil_append] at hskip
    rw [toHeader_other hskip (by decide), afterLine_append_lf hne, hheader]
    exact .behind
  | case2 text c rest hb hc =>
    obtain rfl : c = '[' := beq_iff_eq.1 hc
    have hskip := skipBlanks_append_lf text ('[' :: header)
    rw [hb] at hskip
    rw [toHeader_bracket hskip]
    exact .inside _
  | case3 text c rest hb hc ih =>
    have hskip := skipBlanks_append_lf text ('[' :: header)
    rw [hb] at hskip
    rw [toHeader_other hskip (by simpa using hc)]
    have hafter := joins_afterLine text ('[' :: header)
    generalize afterLine (text ++ '\n' :: '[' :: header) = joined at hafter
    generalize afterLine text = behind at hafter ih
    cases hafter with
    | inside => exact ih
    | behind =>
      rw [toHeader_nil rfl, hheader]
      exact .behind

theorem headerName_append_lf (text tail : List Char) : headerName (text ++ '\n' :: tail) = headerName text := by
  rw [headerName, skipBlanks_append_lf, takeWhile_append_stop _ (head_lf rfl), headerName]

theorem joins_behindHeader (text tail : List Char) :
    Joins tail (behindHeader text) (behindHeader (text ++ '\n' :: tail)) := by
  rw [behindHeader, behindHeader, skipBlanks_append_lf, dropWhile_append_stop _ (head_lf rfl)]
  exact joins_afterLine _ tail

theorem word_append_lf (line tail : List Char) : word (line ++ '\n' :: tail) = word line :=
  takeWhile_append_stop line (head_lf rfl)

theorem behindWord_append_lf (line tail : List Char) :
    behindWord (line ++ '\n' :: tail) = behindWord line ++ '\n' :: tail := dropWhile_append_stop line (head_lf rfl)

theorem skipBlanks_behindWord_append_lf (line tail : List Char) :
    skipBlanks (behindWord (line ++ '\n' :: tail)) = skipBlanks (behindWord line) ++ '\n' :: tail := by
  rw [behindWord_append_lf, skipBlanks_append_lf]

/-- An item that is read from a text to its end is read the same way when a line feed and a header follow. -/
theorem Reads.extend (h : Reads quotes inSection line item rest) (hu : item.unclosed? = none) (header : List Char) :
    ∃ joined, Joins ('[' :: header) rest joined ∧
      Reads quotes inSection (line ++ '\n' :: '[' :: header) item joined := by
  cases h with
  | @header _ text hn =>
    refine ⟨_, joins_behindHeader text _, ?_⟩
    rw [← headerName_append_lf text ('[' :: header)] at hn ⊢
    exact .header hn
  | @nameless _ text hn =>
    rw [← headerName_append_lf text ('[' :: header)] at hn
    have hread : Reads quotes inSection _ .namelessHeader _ := .nameless hn
    refine ⟨_, ?_, hread⟩
    -- The lines behind a header without a name are dropped, be it the last line or not.
    have hbehind := joins_behindHeader text ('[' :: header)
    generalize behindHeader (text ++ '\n' :: '[' :: header) = joined at hbehind
    generalize behindHeader text = behind at hbehind
    cases hbehind with
    | inside => exact joins_toHeader _ header
    | behind =>
      rw [toHeader_nil rfl, toHeader_bracket rfl]
      exact .behind
  | @outside c text hs hc => exact ⟨_, joins_toHeader (c :: text) header, .outside hs hc⟩
  | @comment c text behind hs hc hb =>
    have hbehind := behindWord_append_lf (c :: text) ('[' :: header)
    rw [hb] at hbehind
    exact ⟨_, joins_afterLine behind _, .comment hs hc hbehind⟩
  | @noEquals c text hs hc hb he =>
    have hbehind := behindWord_append_lf (c :: text) ('[' :: header)
    have hskip := skipBlanks_behindWord_append_lf (c :: text) ('[' :: header)
    refine ⟨_, joins_afterLine _ _, ?_⟩
    rw [← hskip]
    exact .noEquals hs hc (hbehind ▸ head?_append_lf_ne hb (by decide)) (hskip ▸ head?_append_lf_ne he (by decide))
  | @plain c text value hs hc he hq =>
    have hskip := skipBlanks_behindWord_append_lf (c :: text) ('[' :: header)
    rw [he] at hskip
    have hvalue := skipBlanks_append_lf value ('[' :: header)
    refine ⟨_, joins_afterLine _ _, ?_⟩
    rw [← word_append_lf (c :: text) ('[' :: header), ← dropWhile_append_stop _ (head_lf rfl),
      ← takeWhile_append_stop (skipBlanks value) (head_lf rfl), ← hvalue]
    exact .plain hs hc hskip fun h => hvalue ▸ head?_append_lf_ne (hq h) (by decide)
  | @quoted c text value body behind hs hc he hq hv hb =>
    have hskip := skipBlanks_behindWord_append_lf (c :: text) ('[' :: header)
    rw [he] at hskip
    have hvalue := skipBlanks_append_lf value ('[' :: header)
    rw [hv] at hvalue
    have hdrop : (body ++ '\n' :: '[' :: header).dropWhile (· != '"') = '"' :: (behind ++ '\n' :: '[' :: header) := by
      rw [List.dropWhile_append, hb]
      rfl
    have hsuffix : '\n' :: '[' :: header <:+ (body ++ '\n' :: '[' :: header).dropWhile (· != '"') := by
      rw [hdrop]
      exact (List.suffix_append behind _).trans (List.suffix_cons _ _)
    refine ⟨_, joins_afterLine _ _, ?_⟩
    rw [← word_append_lf (c :: text) ('[' :: header), ← takeWhile_append_of_suffix hsuffix]
    exact .quoted hs hc hskip hq hvalue hdrop
  | unclosed => cases hu

/-! ## The items of both texts -/

theorem next_extend (h : next quotes inSection text = some (item, rest)) (hu : item.unclosed? = none)
    (header : List Char) : ∃ joined, Joins ('[' :: header) rest joined ∧
      next quotes inSection (text ++ '\n' :: '[' :: header) = some (item, joined) := by
  have hr := next_eq_some_iff.1 h
  obtain ⟨joined, hjoins, hjoined⟩ := hr.extend hu header
  refine ⟨joined, hjoins, next_eq_some_iff.2 ?_⟩
  cases hs : skipSpace text with
  | nil =>
    rw [hs] at hr
    exact absurd hr.length_lt (Nat.not_lt_zero _)
  | cons c line =>
    rw [hs] at hjoined
    rwa [skipSpace_append_of_cons hs, ← List.cons_append]

/-- A header opens a section or none, whatever section it stands in. -/
theorem opensSection_ofHeader (text : List Char) (s s' : Bool) :
    (ofHeader text).1.opensSection s = (ofHeader text).1.opensSection s' := by
  by_cases hn : headerName text = []
  · rw [ofHeader_of_eq_nil hn]
    rfl
  · rw [ofHeader_of_ne_nil hn]
    rfl

theorem allFrom_bracket (quotes s s' : Bool) (header : List Char) :
    allFrom quotes s ('[' :: header) = allFrom quotes s' ('[' :: header) := by
  have hnext : ∀ s, next quotes s ('[' :: header) = some ((ofHeader header).1, (ofHeader header).2) := by
    intro s
    exact next_bracket rfl
  rw [allFrom_of_next (hnext s), allFrom_of_next (hnext s'), opensSection_ofHeader header s s']

/-- Where no quote is left open, the items of two texts as one are those of both texts. -/
theorem allFrom_append_header (h : (allFrom quotes inSection text).findSome? unclosed? = none) (header : List Char)
    (s : Bool) : allFrom quotes inSection (text ++ '\n' :: '[' :: header) =
      allFrom quotes inSection text ++ allFrom quotes s ('[' :: header) := by
  fun_induction allFrom quotes inSection text with
  | case1 s' text hn =>
    have hskip : skipSpace (text ++ '\n' :: '[' :: header) = '[' :: header :=
      skipSpace_append_of_eq_nil (next_eq_none_iff.1 hn)
    have hnext : next quotes s' (text ++ '\n' :: '[' :: header) = next quotes s' ('[' :: header) := by
      rw [next_bracket hskip, next_bracket rfl]
    rw [allFrom_congr hnext, List.nil_append, allFrom_bracket quotes s' s]
  | case2 s' text item rest hn ih =>
    rw [List.findSome?_cons] at h
    cases hu : item.unclosed? with
    | some tail => simp [hu] at h
    | none =>
      rw [hu] at h
      obtain ⟨joined, hjoins, hnext⟩ := next_extend hn hu header
      rw [allFrom_of_next hnext, List.cons_append]
      cases hjoins with
      | inside => rw [ih h]
      | behind =>
        have hnone : allFrom quotes (item.opensSection s') [] = [] := allFrom_of_next_none (next_nil rfl)
        rw [hnone, List.nil_append, allFrom_bracket quotes _ s]

end Item

end IniDoc.Text

namespace IniDoc

open Text
open Text.Item (allFrom)

/-! ## Counts -/

/-- The counts of two scans together. -/
instance : Add Summary where
  add a b := ⟨a.sections + b.sections, a.keys + b.keys, a.skipped + b.skipped, a.abandoned + b.abandoned⟩

theorem Summary.add_def (a b : Summary) : a + b =
    ⟨a.sections + b.sections, a.keys + b.keys, a.skipped + b.skipped, a.abandoned + b.abandoned⟩ := rfl

namespace Progress

variable {base : Summary}

/-- Counts what was counted before, too. -/
def credit (p : Progress) (base : Summary) : Progress := { p with summary := base + p.summary }

/-- Where nothing has been abandoned before, an item does the same and counts on. -/
theorem add_credit (h : base.abandoned = 0) (p : Progress) (item : Item) :
    (p.credit base).add item = (p.add item).credit base := by
  cases item with
  | header name =>
    simp only [add, addHeader, credit]
    cases p.document.addSection name <;> rfl
  | entry name data =>
    simp only [add, addEntry, credit]
    rcases p.current.bind fun id => p.document.updateSection id (·.add name data) with _ | (_ | _) <;> rfl
  | unclosed tail => simp only [add, skip, credit, Summary.add_def, h, Nat.zero_add, Nat.add_assoc]
  | _ => rfl

theorem addAll_credit (h : base.abandoned = 0) (p : Progress) (items : List Item) :
    (p.credit base).addAll items = (p.addAll items).credit base := by
  induction items generalizing p with
  | nil => rfl
  | cons item items ih =>
    show ((p.credit base).add item).addAll items = _
    rw [add_credit h, ih]
    rfl

/-- A header does the same whatever the current section is. -/
theorem add_ofHeader (p : Progress) (current : Option SectionId) (text : List Char) :
    ({ p with current } : Progress).add (Item.ofHeader text).1 = p.add (Item.ofHeader text).1 := by
  by_cases hn : Item.headerName text = []
  · rw [Item.ofHeader_of_eq_nil hn]
    rfl
  · rw [Item.ofHeader_of_ne_nil hn]
    simp only [add, addHeader]

/-- A text that starts with a header does the same wherever a scan stands, and counts on. -/
theorem addAll_bracket (p : Progress) (h : p.summary.abandoned = 0) (quotes inSection : Bool) (header : List Char) :
    p.addAll (allFrom quotes inSection ('[' :: header)) =
      ((start p.document).addAll (allFrom quotes inSection ('[' :: header))).credit p.summary := by
  have hnext : Item.next quotes inSection ('[' :: header) =
      some ((Item.ofHeader header).1, (Item.ofHeader header).2) := Item.next_bracket rfl
  have hp : p = ({ start p.document with current := p.current } : Progress).credit p.summary := by
    simp [credit, start, Summary.add_def]
  conv_lhs => rw [hp]
  rw [addAll_credit h, Item.allFrom_of_next hnext]
  show (Progress.addAll (Progress.add _ _) _).credit _ = (Progress.addAll (Progress.add _ _) _).credit _
  rw [add_ofHeader]

end Progress

/-! ## Scans -/

variable {d : Document} {options : Options} {s : Summary}

/-- A scan that abandons nothing leaves no quote open. -/
theorem Document.closed_of_scanChars {text : List Char} (h : (d.scanChars options text).2 = .ok s)
    (ha : s.abandoned = 0) : (Item.all options.quotes text).findSome? Item.unclosed? = none ∧
      ((Progress.start d).addAll (Item.all options.quotes text)).summary = s := by
  cases hu : (Item.all options.quotes text).findSome? Item.unclosed? with
  | none =>
    simp only [scanChars, hu] at h
    refine ⟨rfl, Except.ok.inj (Eq.trans ?_ h)⟩
    cases options.strict <;> rfl
  | some tail =>
    obtain ⟨-, before, body, items, name, -, htail, -, -, hall, -⟩ := Item.exists_cut hu
    simp only [scanChars, hu] at h
    cases hs : options.strict with
    | true =>
      rw [hs] at h
      cases h
    | false =>
      rw [hs] at h
      obtain rfl := Except.ok.inj h
      rw [Item.all, hall, Progress.addAll_append] at ha
      -- The scan would have abandoned the quote at least.
      have hquote := Char.utf8Size_pos '"'
      change byteCount tail = 0 at ha
      rw [htail, byteCount_cons] at ha
      omega

/-- A quote that is left open behind another text stands as many lines and bytes further on as the text does. -/
theorem unclosedQuote_append_lf (text : List Char) {other tail : List Char} (h : tail <:+ other) :
    ∃ line offset, unclosedQuote other tail = .unclosedQuote line offset ∧
      unclosedQuote (text ++ '\n' :: other) tail =
        .unclosedQuote (line + 1 + lineFeeds text) (offset + byteCount text + 1) := by
  obtain ⟨before, rfl⟩ := h
  refine ⟨_, _, unclosedQuote_append before tail, ?_⟩
  rw [← List.cons_append, ← List.append_assoc, unclosedQuote_append, byteCount_append, byteCount_cons, lineFeeds,
    List.count_append, List.count_cons_self, lineFeeds, lineFeeds]
  congr 1
  · omega
  · show byteCount text + (1 + byteCount before) = _
    omega

/-- One scan of two texts, the other of which starts with a header, is a scan of the one and then a scan of the other,
provided that no quote is left open in the one. Both scans are counted, and an unclosed quote stands as many lines and
bytes further on as the other text does. -/
theorem scan_append_header (d : Document) (options : Options) (one other : String) (s : Summary)
    (hs : (d.scan options one).2 = .ok s) (ha : s.abandoned = 0) (ho : other.toList.head? = some '[') :
    let both := d.scan options (one ++ "\n" ++ other)
    let after := (d.scan options one).1.scan options other
    both.1 = after.1 ∧ (∀ s', after.2 = .ok s' → both.2 = .ok (s + s')) ∧
      ∀ e, after.2 = .error e → ∃ line offset, e = .unclosedQuote line offset ∧
        both.2 = .error (.unclosedQuote (line + 1 + lineFeeds one.toList) (offset + one.utf8ByteSize + 1)) := by
  obtain ⟨header, ho⟩ := List.head?_eq_some_iff.1 ho
  obtain ⟨hclosed, hsum⟩ := Document.closed_of_scanChars hs ha
  have hchars : (one ++ "\n" ++ other).toList = one.toList ++ '\n' :: '[' :: header := by simp [ho]
  have hitems : Item.all options.quotes (one.toList ++ '\n' :: '[' :: header) =
      Item.all options.quotes one.toList ++ Item.all options.quotes ('[' :: header) :=
    Item.allFrom_append_header hclosed header false
  have hstate : (Progress.start d).addAll (Item.all options.quotes (one.toList ++ '\n' :: '[' :: header)) =
      ((Progress.start (d.scan options one).1).addAll (Item.all options.quotes ('[' :: header))).credit s := by
    rw [hitems, Progress.addAll_append, ← hsum]
    exact Progress.addAll_bracket _ (hsum.symm ▸ ha) _ _ header
  have hfind : (Item.all options.quotes (one.toList ++ '\n' :: '[' :: header)).findSome? Item.unclosed? =
      (Item.all options.quotes ('[' :: header)).findSome? Item.unclosed? := by
    rw [hitems, List.findSome?_append, hclosed, Option.none_or]
  simp only [Document.scan] at hstate ⊢
  rw [hchars, ho]
  unfold Document.scanChars at hstate ⊢
  simp only [hstate, hfind]
  refine ⟨rfl, ?_, ?_⟩
  · intro s' h
    split at h
    · cases h
    · rw [← Except.ok.inj h]
      rfl
  · intro e h
    split at h
    · next tail _ hu =>
      obtain ⟨-, before, -, -, -, hcut, -⟩ := Item.exists_cut hu
      obtain ⟨line, offset, hquote, hboth⟩ := unclosedQuote_append_lf one.toList ⟨before, hcut.symm⟩
      refine ⟨line, offset, (Except.error.inj h).symm.trans hquote, ?_⟩
      rw [hboth, ← utf8ByteSize_ofList, String.ofList_toList]
    · cases h

/-- The one text stops in lines that are dropped behind a header without a name, and the other leaves a quote open. -/
theorem scan_append_header_behind_dropped_lines :
    let d := (Document.empty 0).run [.addSection "b"]
    let options : Options := ⟨true, true, .utf8⟩
    let one := "[a]\nk = \"x\ny\" z\n[ ]\r\n\tépar"
    let other := "[b]\nk = 1\nq = \"é"
    let after := (d.scan options one).1.scan options other
    (d.scan options one).2 = .ok ⟨1, 1, 1, 0⟩ ∧ after.2 = .error (.unclosedQuote 3 14) ∧
      d.scan options (one ++ "\n" ++ other) = (after.1, .error (.unclosedQuote 8 42)) := by
  intro d options one other after
  have hone : (d.scan options one).2 = .ok ⟨1, 1, 1, 0⟩ := by decide +kernel
  have hafter : after.2 = .error (.unclosedQuote 3 14) := by decide +kernel
  obtain ⟨hdocument, -, herror⟩ := scan_append_header d options one other _ hone rfl (by decide +kernel)
  obtain ⟨line, offset, he, hboth⟩ := herror _ hafter
  obtain ⟨rfl, rfl⟩ := Error.unclosedQuote.inj he
  exact ⟨hone, hafter, Prod.ext hdocument (hboth.trans (by decide +kernel))⟩

end IniDoc
