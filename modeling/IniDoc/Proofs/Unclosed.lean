import IniDoc.Proofs.Reading
import IniDoc.Proofs.WellFormed

/-!
# Quotes that are never closed

A quote that is never closed ends a text: it belongs to the last item, and the items before it are those of the text
cut off at the quote. A strict scan fails there, and a lenient one drops the entry that the quote stands in.

* `Item.Reads.cut`: an item behind which a text goes on is read the same way when the text is cut off further on.
* `Item.exists_cut`: the items of a text with an unclosed quote and those of the text before the quote.
* `scan_strict_lenient`: what strict and lenient scans have in common.
-/

namespace IniDoc.Text

variable {p : Char → Bool} {text line tail rest : List Char} {c : Char}

/-! ## Cuts that leave the end of a text whole -/

theorem dropWhile_append_of_suffix (h : tail <:+ (line ++ tail).dropWhile p) :
    (line ++ tail).dropWhile p = line.dropWhile p ++ tail := by
  induction line with
  | nil =>
    rw [List.nil_append] at h ⊢
    exact h.eq_of_length_le (List.dropWhile_suffix p).length_le ▸ rfl
  | cons c line ih =>
    rw [List.cons_append] at h ⊢
    by_cases hc : p c = true
    · rw [List.dropWhile_cons_of_pos hc] at h ⊢
      rw [List.dropWhile_cons_of_pos hc]
      exact ih h
    · rw [List.dropWhile_cons_of_neg hc, List.dropWhile_cons_of_neg hc, List.cons_append]

theorem takeWhile_append_of_suffix (h : tail <:+ (line ++ tail).dropWhile p) :
    (line ++ tail).takeWhile p = line.takeWhile p := by
  refine (List.append_left_inj (line.dropWhile p ++ tail)).1 ?_
  calc (line ++ tail).takeWhile p ++ (line.dropWhile p ++ tail)
      = line ++ tail := by rw [← dropWhile_append_of_suffix h, List.takeWhile_append_dropWhile]
    _ = line.takeWhile p ++ (line.dropWhile p ++ tail) := by
        rw [← List.append_assoc, List.takeWhile_append_dropWhile]

theorem skipBlanks_append_of_suffix (h : tail <:+ skipBlanks (line ++ tail)) :
    skipBlanks (line ++ tail) = skipBlanks line ++ tail := dropWhile_append_of_suffix h

theorem skipSpace_append_of_suffix (h : tail <:+ skipSpace (line ++ tail)) :
    skipSpace (line ++ tail) = skipSpace line ++ tail := dropWhile_append_of_suffix h

/-- Behind a line there is less than the whole text. -/
theorem not_suffix_afterLine (ht : tail ≠ []) : ¬tail <:+ afterLine tail := by
  intro h
  have hle := h.length_le
  have hlt := afterLine_length_lt ht
  omega

theorem afterLine_append_of_suffix (ht : tail ≠ []) (h : tail <:+ afterLine (line ++ tail)) :
    afterLine (line ++ tail) = afterLine line ++ tail := by
  have hd : (line ++ tail).dropWhile (· != '\n') = line.dropWhile (· != '\n') ++ tail :=
    dropWhile_append_of_suffix (h.trans (List.drop_suffix 1 _))
  cases hl : line.dropWhile (· != '\n') with
  | nil =>
    -- The line feed would have to come out of the tail.
    have := h.length_le
    have := List.length_pos_iff.2 ht
    rw [afterLine, hd, hl, List.nil_append, List.length_drop] at *
    omega
  | cons c behind => rw [afterLine, afterLine, hd, hl, List.cons_append, List.drop_one, List.drop_one, List.tail_cons,
      List.tail_cons]

namespace Item

variable {quotes inSection : Bool} {item : Item}

theorem toHeader_append_of_suffix (line : List Char) (ht : tail ≠ []) (h : tail <:+ toHeader (line ++ tail)) :
    toHeader (line ++ tail) = toHeader line ++ tail := by
  fun_induction toHeader line with
  | case1 line hl =>
    have hskip := skipBlanks_append_of_suffix (h.trans (toHeader_suffix_skipBlanks _))
    rw [hl, List.nil_append] at hskip
    cases tail with
    | nil => exact absurd rfl ht
    | cons c text =>
      by_cases hc : c = '['
      · subst hc
        rw [toHeader_bracket hskip, List.nil_append]
      · -- The tail would have to stand behind its own first line.
        rw [toHeader_other hskip hc, ← afterLine_skipBlanks, hskip] at h
        exact absurd (h.trans (toHeader_suffix _)) (not_suffix_afterLine ht)
  | case2 line c rest hl hc =>
    obtain rfl : c = '[' := beq_iff_eq.1 hc
    have hskip := skipBlanks_append_of_suffix (h.trans (toHeader_suffix_skipBlanks _))
    rw [hl, List.cons_append] at hskip
    rw [toHeader_bracket hskip, List.cons_append]
  | case3 line c rest hl hc ih =>
    have hskip := skipBlanks_append_of_suffix (h.trans (toHeader_suffix_skipBlanks _))
    rw [hl, List.cons_append] at hskip
    have hne : c ≠ '[' := by simpa using hc
    rw [toHeader_other hskip hne] at h ⊢
    have hafter := afterLine_append_of_suffix ht (h.trans (toHeader_suffix _))
    rw [hafter] at h ⊢
    exact ih h

/-! ## Reading a text that is cut off behind an item -/

theorem behindHeader_append_of_suffix (ht : tail ≠ []) (h : tail <:+ behindHeader (line ++ tail)) :
    headerName (line ++ tail) = headerName line ∧ behindHeader (line ++ tail) = behindHeader line ++ tail := by
  have hdrop := h.trans (afterLine_suffix _)
  have hskip := skipBlanks_append_of_suffix (hdrop.trans (List.dropWhile_suffix _))
  unfold headerName behindHeader at *
  rw [hskip] at h hdrop ⊢
  rw [dropWhile_append_of_suffix hdrop] at h ⊢
  exact ⟨takeWhile_append_of_suffix hdrop, afterLine_append_of_suffix ht h⟩

theorem word_append_of_suffix (line : List Char) (h : tail <:+ behindWord (line ++ tail)) :
    word (line ++ tail) = word line ∧ behindWord (line ++ tail) = behindWord line ++ tail :=
  ⟨takeWhile_append_of_suffix h, dropWhile_append_of_suffix h⟩

/-- A line with an equals sign that is cut off further on still has the equals sign. -/
theorem exists_value_of_suffix (line : List Char) {value : List Char}
    (he : skipBlanks (behindWord (line ++ tail)) = '=' :: value) (h : tail <:+ skipBlanks value) :
    ∃ v, word (line ++ tail) = word line ∧ skipBlanks (behindWord line) = '=' :: v ∧
      skipBlanks value = skipBlanks v ++ tail := by
  obtain ⟨v, rfl⟩ := h.trans (skipBlanks_suffix value)
  have hbehind : tail <:+ skipBlanks (behindWord (line ++ tail)) :=
    he ▸ (List.suffix_append v tail).trans (List.suffix_cons _ _)
  obtain ⟨hword, hline⟩ := word_append_of_suffix line (hbehind.trans (skipBlanks_suffix _))
  rw [hline] at he hbehind
  rw [skipBlanks_append_of_suffix hbehind, ← List.cons_append] at he
  exact ⟨v, hword, List.append_cancel_right he, skipBlanks_append_of_suffix h⟩

theorem head?_ne_of_append {d : Char} (h : (line ++ tail).head? ≠ some d) : line.head? ≠ some d := by
  cases line with
  | nil => simp
  | cons c line => exact h

/-- What the readers leave contains the tail, so they read the same when the tail is cut off. -/
theorem Reads.cut {behind : List Char} (h : Reads quotes inSection (c :: (text ++ tail)) item behind)
    (ht : tail ≠ []) (hs : tail <:+ behind) :
    ∃ rest, behind = rest ++ tail ∧ Reads quotes inSection (c :: text) item rest := by
  cases h with
  | header hn =>
    obtain ⟨hname, hbehind⟩ := behindHeader_append_of_suffix ht hs
    rw [hname] at hn ⊢
    exact ⟨_, hbehind, .header hn⟩
  | nameless hn =>
    obtain ⟨hname, hbehind⟩ := behindHeader_append_of_suffix ht (hs.trans (toHeader_suffix _))
    rw [hname] at hn
    rw [hbehind] at hs ⊢
    exact ⟨_, toHeader_append_of_suffix _ ht hs, .nameless hn⟩
  | outside hsp hc => exact ⟨_, toHeader_append_of_suffix (c :: text) ht hs, .outside hsp hc⟩
  | comment hsp hc hb =>
    obtain ⟨b, rfl⟩ := hs.trans (afterLine_suffix _)
    have hword : tail <:+ behindWord (c :: text ++ tail) :=
      hb ▸ (List.suffix_append b tail).trans (List.suffix_cons _ _)
    rw [← List.cons_append, (word_append_of_suffix _ hword).2, ← List.cons_append] at hb
    exact ⟨_, afterLine_append_of_suffix ht hs, .comment hsp hc (List.append_cancel_right hb)⟩
  | noEquals hsp hc hb he =>
    rw [← List.cons_append] at hs hb he ⊢
    have hskip := hs.trans (afterLine_suffix _)
    have hword := (word_append_of_suffix _ (hskip.trans (skipBlanks_suffix _))).2
    rw [hword] at hs hskip hb he ⊢
    rw [skipBlanks_append_of_suffix hskip] at hs he ⊢
    exact ⟨_, afterLine_append_of_suffix ht hs, .noEquals hsp hc (head?_ne_of_append hb) (head?_ne_of_append he)⟩
  | plain hsp hc he hq =>
    rw [← List.cons_append] at he ⊢
    have hdrop := hs.trans (afterLine_suffix _)
    obtain ⟨v, hword, hv, hvalue⟩ := exists_value_of_suffix _ he (hdrop.trans (List.dropWhile_suffix _))
    rw [hvalue] at hs hdrop hq ⊢
    rw [dropWhile_append_of_suffix hdrop] at hs ⊢
    rw [hword, takeWhile_append_of_suffix hdrop]
    exact ⟨_, afterLine_append_of_suffix ht hs, .plain hsp hc hv fun h => head?_ne_of_append (hq h)⟩
  | quoted hsp hc he hq hv hb =>
    rw [← List.cons_append] at he ⊢
    obtain ⟨b, rfl⟩ := hs.trans (afterLine_suffix _)
    have hdrop : tail <:+ List.dropWhile (· != '"') _ :=
      hb ▸ (List.suffix_append b tail).trans (List.suffix_cons _ _)
    obtain ⟨body, rfl⟩ := hdrop.trans (List.dropWhile_suffix _)
    have htail : tail <:+ '"' :: (body ++ tail) := (List.suffix_append body tail).trans (List.suffix_cons _ _)
    obtain ⟨v, hword, he', hvalue⟩ := exists_value_of_suffix _ he (hv ▸ htail)
    rw [hvalue, ← List.cons_append] at hv
    rw [dropWhile_append_of_suffix hdrop, ← List.cons_append] at hb
    rw [hword, takeWhile_append_of_suffix hdrop]
    exact ⟨_, afterLine_append_of_suffix ht hs,
      .quoted hsp hc he' hq (List.append_cancel_right hv) (List.append_cancel_right hb)⟩
  | unclosed hs hc he hq hv hb => exact absurd (List.suffix_nil.1 hs) ht

/-- The item in front of a text is the same when that text is cut off further on. -/
theorem next_cut (ht : tail ≠ []) (h : next quotes inSection (text ++ tail) = some (item, rest ++ tail)) :
    next quotes inSection text = some (item, rest) := by
  have hr := next_eq_some_iff.1 h
  have hs : tail <:+ rest ++ tail := List.suffix_append rest tail
  have hskip : skipSpace (text ++ tail) = skipSpace text ++ tail :=
    skipSpace_append_of_suffix (hs.trans hr.suffix)
  rw [hskip] at hr
  cases hc : skipSpace text with
  | nil =>
    -- An item takes at least one character, here one of the tail.
    rw [hc] at hr
    have := hr.length_lt
    rw [List.nil_append, List.length_append] at this
    omega
  | cons c line =>
    rw [hc] at hr
    obtain ⟨rest', he, hr'⟩ := hr.cut ht hs
    rw [List.append_cancel_right he, next_eq_some_iff, hc]
    exact hr'

/-- An opening quote that is never closed is where the text of an unclosed item ends. Cut off at the quote, the text
has an entry without a value instead. -/
theorem next_unclosed (h : next quotes inSection text = some (.unclosed tail, rest)) :
    quotes = true ∧ rest = [] ∧ ∃ before body name, text = before ++ tail ∧ tail = '"' :: body ∧ '"' ∉ body ∧
      next quotes inSection before = some (.entry name "", []) := by
  have hr := next_eq_some_iff.1 h
  generalize hline : skipSpace text = line at hr
  cases hr with
  | @unclosed c line value body hsp hc he hq hv hb =>
    have hvalue : '"' :: body <:+ value := hv ▸ skipBlanks_suffix value
    have hequals : '=' :: value <:+ c :: line :=
      he ▸ (skipBlanks_suffix _).trans (List.dropWhile_suffix (!endsName ·))
    have htail : '"' :: body <:+ skipSpace text := hline ▸ (hvalue.trans (List.suffix_cons _ _)).trans hequals
    obtain ⟨before, rfl⟩ := htail.trans (skipSpace_suffix text)
    refine ⟨hq, rfl, before, body, String.ofList (word (skipSpace before)), rfl, rfl, hb, ?_⟩
    rw [skipSpace_append_of_suffix htail] at hline
    rw [next_eq_some_iff]
    cases hl : skipSpace before with
    | nil =>
      -- The first word and the equals sign stand before the quote.
      rw [hl, List.nil_append] at hline
      have hlt := hequals.length_le
      rw [← hline, List.length_cons] at hlt
      have := hvalue.length_le
      omega
    | cons d content =>
      rw [hl, List.cons_append] at hline
      obtain ⟨rfl, rfl⟩ := List.cons.inj hline
      obtain ⟨v, hword, he', hv'⟩ := exists_value_of_suffix (d :: content) he (hv ▸ List.suffix_refl _)
      have hempty : skipBlanks v = [] := List.append_left_eq_self.1 (hv'.symm.trans hv)
      have hplain : Reads quotes true (d :: content) _ _ := .plain hsp hc he' fun _ => by simp [hempty]
      rwa [hempty] at hplain

/-- The items of a text with an unclosed quote, and those of the text before the quote: they differ in the last one
only, which is no longer unclosed but lacks a value. -/
theorem exists_cut (h : (allFrom quotes inSection text).findSome? unclosed? = some tail) :
    quotes = true ∧ ∃ before body items name, text = before ++ tail ∧ tail = '"' :: body ∧ '"' ∉ body ∧
      items.findSome? unclosed? = none ∧ allFrom quotes inSection text = items ++ [.unclosed tail] ∧
      allFrom quotes inSection before = items ++ [.entry name ""] := by
  fun_induction allFrom quotes inSection text with
  | case1 s text hn => cases h
  | case2 s text item rest hn ih =>
    rw [List.findSome?_cons] at h
    cases hu : unclosed? item with
    | some tail' =>
      obtain rfl : tail' = tail := by simpa [hu] using h
      obtain rfl := unclosed?_eq_some_iff.1 hu
      obtain ⟨hq, rfl, before, body, name, htext, htail, hb, hbefore⟩ := next_unclosed hn
      refine ⟨hq, before, body, [], name, htext, htail, hb, rfl, ?_, ?_⟩
      · rw [allFrom_of_next_none (next_nil rfl), List.nil_append]
      · rw [allFrom_of_next hbefore, allFrom_of_next_none (next_nil rfl), List.nil_append]
    | none =>
      rw [hu] at h
      obtain ⟨hq, before, body, items, name, rfl, htail, hb, hitems, hall, hbefore⟩ := ih h
      obtain ⟨pre, rfl⟩ := next_suffix hn
      have hcut : next quotes s (pre ++ before) = some (item, before) :=
        next_cut (htail ▸ List.cons_ne_nil _ _) (by rwa [List.append_assoc])
      refine ⟨hq, pre ++ before, body, item :: items, name, (List.append_assoc ..).symm, htail, hb, ?_, ?_, ?_⟩
      · rw [List.findSome?_cons, hu]
        exact hitems
      · rw [hall, List.cons_append]
      · rw [allFrom_of_next hcut, hbefore, List.cons_append]

end Item

end IniDoc.Text

namespace IniDoc

open Text

/-! ## Strict and lenient scans -/

namespace Progress

variable {p : Progress} {item : Item} {items : List Item}

/-- Only an unclosed quote abandons anything. -/
theorem abandoned_add (p : Progress) (h : item.unclosed? = none) :
    (p.add item).summary.abandoned = p.summary.abandoned := by
  cases item with
  | unclosed tail => cases h
  | header name =>
    simp only [add, addHeader]
    split <;> rfl
  | entry name data =>
    simp only [add, addEntry]
    split <;> rfl
  | _ => rfl

theorem abandoned_addAll (p : Progress) (h : items.findSome? Item.unclosed? = none) :
    (p.addAll items).summary.abandoned = p.summary.abandoned := by
  induction items generalizing p with
  | nil => rfl
  | cons item items ih =>
    rw [List.findSome?_cons] at h
    cases hu : item.unclosed? with
    | some tail => simp [hu] at h
    | none =>
      rw [hu] at h
      exact (ih _ h).trans (p.abandoned_add hu)

/-- An unclosed quote does what an entry without a value does, and counts what is abandoned. -/
theorem addAll_unclosed (p : Progress) (items : List Item) (tail : List Char) (name : String) :
    p.addAll (items ++ [.unclosed tail]) =
      { p.addAll (items ++ [.entry name ""]) with
        summary := { (p.addAll (items ++ [.entry name ""])).summary with abandoned := byteCount tail } } := by
  have hentry : ∀ p' : Progress, p'.addAll [.entry name ""] = p'.skip := by
    intro p'
    exact p'.addEntry_eq_skip (.inr rfl)
  rw [addAll_append, addAll_append, hentry]
  rfl

end Progress

theorem byteCount_cons (c : Char) (text : List Char) : byteCount (c :: text) = c.utf8Size + byteCount text := rfl

theorem byteCount_append (text rest : List Char) : byteCount (text ++ rest) = byteCount text + byteCount rest := by
  induction text with
  | nil => simp [byteCount]
  | cons c text ih =>
    rw [List.cons_append, byteCount_cons, byteCount_cons, ih, Nat.add_assoc]

theorem utf8ByteSize_ofList (text : List Char) : (String.ofList text).utf8ByteSize = byteCount text := by
  induction text with
  | nil => rfl
  | cons c text ih =>
    rw [← List.singleton_append, String.ofList_append, String.utf8ByteSize_append, ih,
      ← String.singleton_eq_ofList, String.utf8ByteSize_singleton]
    rfl

theorem unclosedQuote_append (before tail : List Char) :
    unclosedQuote (before ++ tail) tail = .unclosedQuote (lineFeeds before + 1) (byteCount before) := by
  simp [unclosedQuote, byteCount_append]

/-- A strict scan and a lenient one do the same, unless a quote is never closed. Then the strict scan fails at the
quote, and what both leave is what the text before the quote says. -/
theorem scan_strict_lenient (d : Document) (quotes : Bool) (encoding : Encoding) (text : String) :
    ∃ s, (d.scan ⟨quotes, false, encoding⟩ text).2 = .ok s ∧
      (s.abandoned = 0 → d.scan ⟨quotes, true, encoding⟩ text = d.scan ⟨quotes, false, encoding⟩ text) ∧
      (0 < s.abandoned → quotes = true ∧ ∃ before body, text.toList = before ++ '"' :: body ∧ '"' ∉ body ∧
        byteCount before + s.abandoned = text.utf8ByteSize ∧
        d.scan ⟨quotes, true, encoding⟩ text = ((d.scan ⟨quotes, false, encoding⟩ text).1,
          .error (.unclosedQuote (lineFeeds before + 1) (byteCount before))) ∧
        d.scan ⟨quotes, false, encoding⟩ (String.ofList before) =
          ((d.scan ⟨quotes, false, encoding⟩ text).1, .ok { s with abandoned := 0 })) := by
  refine ⟨((Progress.start d).addAll (Item.all quotes text.toList)).summary, rfl, ?_⟩
  cases hu : (Item.all quotes text.toList).findSome? Item.unclosed? with
  | none =>
    have hzero : ((Progress.start d).addAll (Item.all quotes text.toList)).summary.abandoned = 0 :=
      (Progress.start d).abandoned_addAll hu
    constructor
    · intro _
      simp only [Document.scan, Document.scanChars, hu]
    · intro h
      omega
  | some tail =>
    obtain ⟨hq, before, body, items, name, htext, htail, hb, hitems, hall, hbefore⟩ := Item.exists_cut hu
    have hzero : ((Progress.start d).addAll (items ++ [.entry name ""])).summary.abandoned = 0 :=
      (Progress.start d).abandoned_addAll (by simp [hitems, Item.unclosed?])
    have hadd := (Progress.start d).addAll_unclosed items tail name
    rw [← Item.all] at hall hbefore
    rw [hall, hadd]
    constructor
    · intro h
      have hpos : 0 < byteCount tail := by
        have hquote := Char.utf8Size_pos '"'
        rw [htail, byteCount_cons]
        omega
      change byteCount tail = 0 at h
      omega
    · intro _
      refine ⟨hq, before, body, htail ▸ htext, hb, ?_, ?_, ?_⟩
      · rw [← byteCount_append, ← htext, ← utf8ByteSize_ofList, String.ofList_toList]
      · simp only [Document.scan, Document.scanChars, hu]
        rw [htext, unclosedQuote_append]
      · simp only [Document.scan, Document.scanChars, String.toList_ofList, hall, hbefore, hadd]
        rw [← hzero]

end IniDoc
