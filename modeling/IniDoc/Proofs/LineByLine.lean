import Mathlib.Data.List.Infix
import IniDoc.Proofs.Line
import IniDoc.Proofs.WellFormed

/-!
# Reading line by line

Where quotes mean nothing and every carriage return belongs to a CRLF pair, a scan is a fold over the lines of the
text, each of which is understood by itself.

* `Progress.addLine`: what one line does to a document, the current section and the counts.
* `Progress.Shows.addText_eq_foldl`: the items of a text do what its lines do, from any state a scan can be in.
* `scan_eq_foldl_lines`: a whole scan is the fold over the lines.
-/

namespace IniDoc

open Text
open Text.Item (allFrom endsName next ofBehind ofContent opensSection toHeader)

/-! ## Lines of a text -/

/-- Every carriage return stands right before a line feed. -/
def ReturnsPaired (text : List Char) : Prop := ∀ rest ∈ text.tails, rest.head? = some '\r' → rest[1]? = some '\n'

instance (text : List Char) : Decidable (ReturnsPaired text) :=
  inferInstanceAs (Decidable (∀ rest ∈ text.tails, rest.head? = some '\r' → rest[1]? = some '\n'))

/-- A line without the carriage return at its end. -/
def dropReturn (line : List Char) : List Char := if line.getLast? = some '\r' then line.dropLast else line

/-- The lines of a text. The text is split at its line feeds, so that the last line may be empty. -/
def lines (text : List Char) : List (List Char) := (text.splitOn '\n').map dropReturn

variable {text line tail rest : List Char}

theorem ReturnsPaired.of_suffix (h : ReturnsPaired text) (hs : rest <:+ text) : ReturnsPaired rest := by
  intro t ht
  rw [List.mem_tails] at ht
  exact h t ((List.mem_tails t text).2 (ht.trans hs))

/-- A text whose carriage returns are paired starts with a line and its end. -/
theorem ReturnsPaired.exists_line (h : ReturnsPaired text) :
    ∃ line tail rest, text = line ++ tail ∧ IsLine line ∧ LineEnd tail rest := by
  have hsplit : text = text.takeWhile (!isLineEnd ·) ++ text.dropWhile (!isLineEnd ·) :=
    List.takeWhile_append_dropWhile.symm
  have hl : IsLine (text.takeWhile (!isLineEnd ·)) := by
    intro c hc
    simpa using List.mem_takeWhile_imp hc
  have hs : text.dropWhile (!isLineEnd ·) <:+ text := List.dropWhile_suffix _
  cases ht : text.dropWhile (!isLineEnd ·) with
  | nil => exact ⟨_, [], [], by rw [← ht]; exact hsplit, hl, .text⟩
  | cons c tail =>
    rw [ht] at hsplit hs
    have hc : isLineEnd c = true := by
      have := List.head?_dropWhile_not (!isLineEnd ·) text
      simpa [ht] using this
    rcases (by simpa [isLineEnd] using hc : c = '\r' ∨ c = '\n') with rfl | rfl
    · have hn : tail[0]? = some '\n' := h _ ((List.mem_tails _ _).2 hs) rfl
      obtain ⟨rest, rfl⟩ : ∃ rest, tail = '\n' :: rest := by
        cases tail with
        | nil => cases hn
        | cons d rest => exact ⟨rest, by rw [Option.some.inj hn]⟩
      exact ⟨_, _, rest, hsplit, hl, .crlf rest⟩
    · exact ⟨_, _, tail, hsplit, hl, .lf tail⟩

/-- Induction over lines: the first line of a text may use what holds of the text behind it. -/
theorem ReturnsPaired.induction_on_lines {P : List Char → Prop} (h : ReturnsPaired text)
    (hline : ∀ line tail rest, IsLine line → LineEnd tail rest → ReturnsPaired rest →
      (line ++ tail ≠ [] → P rest) → P (line ++ tail)) : P text := by
  induction hn : text.length using Nat.strong_induction_on generalizing text with
  | _ n ih =>
    obtain ⟨line, tail, rest, rfl, hl, he⟩ := h.exists_line
    have hr : ReturnsPaired rest := h.of_suffix (he.suffix.trans (List.suffix_append _ _))
    apply hline line tail rest hl he hr
    intro hne
    exact ih _ (hn ▸ he.length_lt hne) hr rfl

theorem dropReturn_append (line : List Char) : dropReturn (line ++ ['\r']) = line := by simp [dropReturn]

theorem dropReturn_eq (h : IsLine line) : dropReturn line = line := by
  apply if_neg
  intro hg
  cases h _ (List.mem_of_getLast? hg)

theorem lf_notMem (h : IsLine line) : '\n' ∉ line := by
  intro hm
  exact h.ne_lf _ hm rfl

/-- The lines of a text are its first line and the lines behind it. Behind the last line nothing is left, which reads
as one empty line. -/
theorem lines_append (h : LineEnd tail rest) (hl : IsLine line) :
    lines (line ++ tail) = line :: lines rest ∧ tail ≠ [] ∨ lines (line ++ tail) = [line] ∧ rest = [] := by
  cases h with
  | lf =>
    refine .inl ⟨?_, by simp⟩
    rw [lines, List.splitOn_append_cons_self, List.splitOn_eq_singleton (lf_notMem hl)]
    simp [lines, dropReturn_eq hl]
  | crlf =>
    have hr : '\n' ∉ line ++ ['\r'] := by simp [lf_notMem hl]
    refine .inl ⟨?_, by simp⟩
    rw [lines, List.append_cons, List.splitOn_append_cons_self, List.splitOn_eq_singleton hr]
    simp [lines, dropReturn_append]
  | text =>
    refine .inr ⟨?_, rfl⟩
    rw [lines, List.append_nil, List.splitOn_eq_singleton (lf_notMem hl)]
    simp [dropReturn_eq hl]

example : lines "[a]\r\n\nk = 1\r\n".toList = ["[a]".toList, [], "k = 1".toList, []] := by decide

/-! ## What a line does -/

namespace Progress

/-- The section with a name, found or made behind all others, becomes the current one. -/
def enter (p : Progress) (name : String) : Progress :=
  let document := p.document.apply (.addSection name)
  { document, current := document.find? name, summary := { p.summary with sections := p.summary.sections + 1 } }

/-- A key of the section gets a value, and is made behind all others if it is not there. -/
def record (p : Progress) (id : SectionId) (name data : String) : Progress :=
  { p with
    document := p.document.apply (.addKey id name data)
    summary := { p.summary with keys := p.summary.keys + 1 } }

/-- What a line of a section does from behind the name that it starts with. -/
def addBehind (p : Progress) (id : SectionId) (name behind : List Char) : Progress :=
  match behind with
  | ';' :: _ => p
  | _ =>
    match skipBlanks behind with
    | '=' :: text =>
      let value := (skipBlanks text).takeWhile (· != ';')
      if name = [] ∨ value = [] then p.skip else p.record id (String.ofList name) (String.ofList value)
    | _ => p.skip

theorem addBehind_equals (p : Progress) (id : SectionId) (name : List Char) {behind text : List Char}
    (h : skipBlanks behind = '=' :: text) :
    p.addBehind id name behind =
      if name = [] ∨ (skipBlanks text).takeWhile (· != ';') = [] then p.skip
      else p.record id (String.ofList name) (String.ofList ((skipBlanks text).takeWhile (· != ';'))) := by
  unfold addBehind
  split
  · cases h
  · simp only [h]

theorem addBehind_noEquals (p : Progress) (id : SectionId) (name : List Char) {behind : List Char}
    (hb : behind.head? ≠ some ';') (he : (skipBlanks behind).head? ≠ some '=') :
    p.addBehind id name behind = p.skip := by
  unfold addBehind
  split
  · exact absurd rfl hb
  · split
    · next hv => exact absurd (congrArg List.head? hv) he
    · rfl

/-- What a line does to a document, the current section and the counts. -/
def addLine (p : Progress) (line : List Char) : Progress :=
  match skipBlanks line with
  | [] => p
  | '[' :: header =>
    let name := (skipBlanks header).takeWhile (· != ']')
    if name = [] then { p with current := none }.skip else p.enter (String.ofList name)
  | content =>
    match p.current with
    | none => p
    | some id => p.addBehind id (content.takeWhile (!endsName ·)) (content.dropWhile (!endsName ·))

variable {p : Progress} {q : Draft}

theorem Shows.addHeader_eq (h : p.Shows q) {name : String} (hn : name ≠ "") : p.addHeader name = p.enter name := by
  obtain ⟨id, d, ha, hw, -, s, hs, hsn⟩ := Document.exists_addSection h.wellFormed hn
  obtain ⟨hid, hg⟩ := Document.section?_eq_some_iff.1 hs
  have happly : p.document.apply (.addSection name) = d := by
    rw [Document.apply, ha]
    rfl
  have hfind : d.find? name = some id := by
    rw [Document.find?, (hw.sections.find?_eq_some_iff name id.index).2 ⟨s, hg, hsn⟩, Option.map_some, ← hid]
  rw [Progress.addHeader, ha, enter, happly, hfind]

theorem Shows.addEntry_eq (h : p.Shows q) {id : SectionId} (hp : p.current = some id) {name data : String}
    (hn : name ≠ "") (hd : data ≠ "") : p.addEntry name data = p.record id name data := by
  obtain ⟨hc, -⟩ | ⟨id', sectionName, s, hc, hq, hs, hsn⟩ := h.current
  · rw [hc] at hp
    cases hp
  · obtain rfl : id' = id := Option.some.inj (hc.symm.trans hp)
    have hsw := h.wellFormed.of_section? hs
    obtain ⟨key, changed, ha, -⟩ := hsw.exists_add hn hd
    have hu : p.document.updateSection id' (·.add name data) = some (.ok (key, p.document.putSection changed)) := by
      rw [Document.updateSection, hs, Option.map_some, ha]
      rfl
    simp only [Progress.addEntry, hp, Option.bind_some, hu, record, Document.apply, Document.orKeep]

/-! ## Items and lines -/

theorem addAll_cons (p : Progress) (item : Item) (items : List Item) :
    p.addAll (item :: items) = (p.add item).addAll items := rfl

/-- Whether a section is open behind an item is seen from the item, and from the state of the scan behind it. -/
theorem Shows.opensSection_of_next (h : p.Shows q) {quotes : Bool} {item : Item}
    (hn : next quotes p.current.isSome text = some (item, rest)) :
    item.opensSection p.current.isSome = (p.add item).current.isSome := by
  cases item with
  | header name =>
    show true = (p.addHeader name).current.isSome
    obtain ⟨id, d, ha, -⟩ := Document.exists_addSection h.wellFormed (Item.ne_empty_of_next hn)
    rw [Progress.addHeader, ha]
    rfl
  | entry name data =>
    show p.current.isSome = (p.addEntry name data).current.isSome
    unfold Progress.addEntry
    split <;> rfl
  | _ => rfl

theorem Shows.add_ofBehind (h : p.Shows q) {id : SectionId} (hp : p.current = some id) (name behind : List Char) :
    p.add (ofBehind (String.ofList name) behind) = p.addBehind id name behind := by
  by_cases hb : behind.head? = some ';'
  · obtain ⟨rest, rfl⟩ := List.head?_eq_some_iff.1 hb
    rfl
  · by_cases he : (skipBlanks behind).head? = some '='
    · obtain ⟨text, he⟩ := List.head?_eq_some_iff.1 he
      rw [Item.ofBehind_equals _ he, p.addBehind_equals id name he]
      split
      · next hn => exact addEntry_eq_skip p (by simpa using hn)
      · next hn =>
        obtain ⟨hname, hvalue⟩ := not_or.1 hn
        exact h.addEntry_eq hp (by simpa using hname) (by simpa using hvalue)
    · rw [Item.ofBehind_noEquals _ hb he, p.addBehind_noEquals id name hb he]
      rfl

/-- What a line with content does to a scan that has a section. -/
theorem Shows.add_ofContent (h : p.Shows q) {id : SectionId} (hp : p.current = some id) {content : List Char} {c : Char}
    (hb : skipBlanks line = c :: content) (hc : c ≠ '[') : p.add (ofContent (c :: content)) = p.addLine line := by
  rw [addLine, hb]
  split
  · next he => cases he
  · next he => exact absurd (List.cons.inj he).1 hc
  · rw [hp]
    exact h.add_ofBehind hp _ _

/-! ## A whole text -/

/-- What the items of a text do to a scan. -/
def addText (p : Progress) (text : List Char) : Progress := p.addAll (allFrom false p.current.isSome text)

theorem addText_congr (h : next false p.current.isSome text = next false p.current.isSome rest) :
    p.addText text = p.addText rest := by
  rw [addText, addText, Item.allFrom_congr h]

theorem Shows.addText_of_next (h : p.Shows q) {item : Item}
    (hn : next false p.current.isSome text = some (item, rest)) : p.addText text = (p.add item).addText rest := by
  rw [addText, Item.allFrom_of_next hn, addAll_cons, h.opensSection_of_next hn]
  rfl

theorem Shows.addText_outside (h : p.Shows q) (hp : p.current = none)
    (hn : next false false text = some (.outside, rest)) : p.addText text = p.addText rest := by
  have hnext : next false p.current.isSome text = some (.outside, rest) := by rw [hp]; exact hn
  exact h.addText_of_next hnext

/-- Outside a section the lines up to the next header do nothing. -/
theorem Shows.addText_toHeader (h : p.Shows q) (hp : p.current = none) (ht : ReturnsPaired text) :
    p.addText (toHeader text) = p.addText text := by
  apply ht.induction_on_lines
  intro line tail rest hl he hr ih
  cases hb : skipBlanks line with
  | nil =>
    rw [he.toHeader_eq hl (by simp [hb]), addText_congr (he.next_blank hl hb false p.current.isSome)]
    by_cases hne : line ++ tail = []
    · obtain ⟨-, rfl⟩ := List.append_eq_nil_iff.1 hne
      cases he
      rw [Item.toHeader_nil rfl]
    · exact ih hne
  | cons c content =>
    by_cases hc : c = '['
    · subst hc
      have hskip : skipBlanks (line ++ tail) = '[' :: (content ++ tail) := by
        rw [skipBlanks_append line he.head_isBlank, hb, List.cons_append]
      apply addText_congr
      rw [Item.toHeader_bracket hskip, Item.next_bracket (LineEnd.skipSpace_of_cons tail hl hb), Item.next_bracket rfl]
    · rw [he.toHeader_eq hl (by simpa [hb] using hc), h.addText_outside hp (he.next_outside hl hb hc false)]

/-- The items of a text do what its first line does and then what the rest of the text does. -/
theorem Shows.addText_line (h : p.Shows q) (hl : IsLine line) (he : LineEnd tail rest) (hr : ReturnsPaired rest) :
    (∃ q', (p.addLine line).Shows q') ∧ p.addText (line ++ tail) = (p.addLine line).addText rest := by
  cases hb : skipBlanks line with
  | nil =>
    have hp : p.addLine line = p := by rw [addLine, hb]
    rw [hp]
    exact ⟨⟨q, h⟩, addText_congr (he.next_blank hl hb false p.current.isSome)⟩
  | cons c content =>
    by_cases hc : c = '['
    · subst hc
      have hnext := he.next_header hl hb false p.current.isSome
      by_cases hname : (skipBlanks content).takeWhile (· != ']') = []
      · have hp : p.addLine line = p.add .namelessHeader := by
          rw [addLine, hb]
          exact if_pos hname
        have hclear := h.add .namelessHeader
        rw [if_pos (by simpa using hname)] at hnext
        rw [hp, h.addText_of_next hnext]
        exact ⟨⟨_, hclear⟩, hclear.addText_toHeader rfl hr⟩
      · have hne : String.ofList ((skipBlanks content).takeWhile (· != ']')) ≠ "" := by simpa using hname
        have hp : p.addLine line = p.add (.header (String.ofList ((skipBlanks content).takeWhile (· != ']')))) := by
          rw [addLine, hb]
          exact (if_neg hname).trans (h.addHeader_eq hne).symm
        rw [if_neg (by simpa using hname)] at hnext
        rw [hp]
        exact ⟨⟨_, h.add _⟩, h.addText_of_next hnext⟩
    · cases hp : p.current with
      | none =>
        have hline : p.addLine line = p := by
          rw [addLine, hb]
          split
          · next hs => cases hs
          · next hs => exact absurd (List.cons.inj hs).1 hc
          · rw [hp]
        rw [hline, h.addText_outside hp (he.next_outside hl hb hc false), h.addText_toHeader hp hr]
        exact ⟨⟨q, h⟩, rfl⟩
      | some id =>
        have hnext := he.next_content hl hb hc
        rw [← h.add_ofContent hp hb hc]
        exact ⟨⟨_, h.add _⟩, h.addText_of_next (by rw [hp]; exact hnext)⟩

/-- The items of a text do what its lines do one after the other. -/
theorem Shows.addText_eq_foldl (h : p.Shows q) (ht : ReturnsPaired text) :
    p.addText text = (lines text).foldl addLine p := by
  revert p q
  apply ht.induction_on_lines
  intro line tail rest hl he hr ih p q h
  obtain ⟨⟨q', hq'⟩, hline⟩ := h.addText_line hl he hr
  rw [hline]
  rcases lines_append he hl with ⟨hlines, hne⟩ | ⟨hlines, rfl⟩
  · rw [hlines, List.foldl_cons]
    exact ih (by simp [hne]) hq'
  · rw [hlines, List.foldl_cons, List.foldl_nil, addText, Item.allFrom_of_next_none (Item.next_nil rfl)]
    rfl

end Progress

/-- A scan of a text whose carriage returns are paired, with quotes meaning nothing, is a fold over its lines. -/
theorem scan_eq_foldl_lines (id : Nat) (edits : List Document.Edit) (strict : Bool) (encoding : Encoding)
    (text : String) (ht : ReturnsPaired text.toList) :
    let d := (Document.empty id).run edits
    let final := (lines text.toList).foldl Progress.addLine (Progress.start d)
    d.scan ⟨false, strict, encoding⟩ text = (final.document, .ok final.summary) := by
  intro d final
  have hd : d.WellFormed := Document.wellFormed_run (Document.wellFormed_empty id) edits
  have hfinal : (Progress.start d).addAll (Item.all false text.toList) = final :=
    (Progress.Shows.start hd).addText_eq_foldl ht
  have hclosed : (Item.all false text.toList).findSome? Item.unclosed? = none :=
    Item.findSome?_unclosed?_eq_none false text.toList
  simp only [Document.scan, Document.scanChars, hclosed, hfinal]

/-- A text with lines of every kind: a header, an empty line, an entry, a word, a header without a name, and a line that
belongs to no section. -/
theorem scan_eq_foldl_lines_of_each_kind :
    let text := "[b] ; c\r\n\r\n\tkey = 1; d\r\nword\r\n[]\r\nlost = 2\n"
    let d := (Document.empty 0).run [.addSection "a"]
    let final := (lines text.toList).foldl Progress.addLine (Progress.start d)
    ReturnsPaired text.toList ∧ d.scan ⟨false, true, .utf8⟩ text = (final.document, .ok final.summary) :=
  ⟨by decide, scan_eq_foldl_lines 0 [.addSection "a"] true .utf8 _ (by decide)⟩

end IniDoc
