import IniDoc.Proofs.Line
import IniDoc.Proofs.Outline

/-!
# What items say

The names and values that can be read from a text, and the texts in which no value is read in quotes.

* `IsHeaderName`, `IsWord`, `IsPlain`: what the name of a header, the name of an entry and a value without quotes look
  like. `Item.Reads.every` says that what is read looks like this.
* `QuoteFree`: no line opens a quote. Such a text is read as if quotes meant nothing.
-/

namespace IniDoc.Text

open Item (behindWord endsHeader endsName endsValue headerName word)

variable {text line rest : List Char} {c : Char} {quotes inSection : Bool} {item : Item}

/-! ## Names and values -/

/-- A header's name holds nothing that would end it and starts with no blank. -/
def IsHeaderName (name : List Char) : Prop :=
  (∀ c ∈ name, endsHeader c = false) ∧ ∀ c ∈ name.head?, isBlank c = false

/-- The name of an entry holds nothing that would end it and does not start as a header. -/
def IsWord (name : List Char) : Prop := (∀ c ∈ name, endsName c = false) ∧ name.head? ≠ some '['

/-- A plain value holds nothing that would end it, starts with no blank, and does not start with a quote that means
something. -/
def IsPlain (quotes : Bool) (value : List Char) : Prop :=
  (∀ c ∈ value, endsValue c = false) ∧ (∀ c ∈ value.head?, isBlank c = false) ∧
    (quotes = true → value.head? ≠ some '"')

-- The instances name the searches through a list and an option, as there are finitely many characters to search too.
instance (name : List Char) : Decidable (IsHeaderName name) :=
  @instDecidableAnd _ _ (List.decidableBAll _ name) (Option.decidableForallMem name.head?)

instance (name : List Char) : Decidable (IsWord name) :=
  @instDecidableAnd _ _ (List.decidableBAll _ name) inferInstance

instance (quotes : Bool) (value : List Char) : Decidable (IsPlain quotes value) :=
  @instDecidableAnd _ _ (List.decidableBAll _ value)
    (@instDecidableAnd _ _ (Option.decidableForallMem value.head?) inferInstance)

theorem forall_mem_takeWhile (p : Char → Bool) (text : List Char) : ∀ c ∈ text.takeWhile (!p ·), p c = false := by
  intro c hc
  simpa using List.mem_takeWhile_imp hc

theorem mem_head?_of_takeWhile {p : Char → Bool} (h : c ∈ (text.takeWhile p).head?) : c ∈ text.head? := by
  rw [List.head?_takeWhile] at h
  exact (Option.mem_filter_iff.1 h).1

theorem isBlank_of_head? (h : c ∈ (skipBlanks text).head?) : isBlank c = false := by
  obtain ⟨rest, hr⟩ := List.head?_eq_some_iff.1 h
  exact isBlank_of_skipBlanks hr

theorem isHeaderName_headerName (text : List Char) : IsHeaderName (headerName text) := by
  constructor
  · exact forall_mem_takeWhile _ _
  · intro c hc
    exact isBlank_of_head? (mem_head?_of_takeWhile hc)

theorem isWord_word (hc : c ≠ '[') (text : List Char) : IsWord (word (c :: text)) := by
  constructor
  · exact forall_mem_takeWhile _ _
  · intro h
    apply hc
    simpa using mem_head?_of_takeWhile h

theorem isPlain_takeWhile (hq : quotes = true → (skipBlanks text).head? ≠ some '"') :
    IsPlain quotes ((skipBlanks text).takeWhile (!endsValue ·)) := by
  refine ⟨forall_mem_takeWhile _ _, ?_, ?_⟩
  · intro c hc
    exact isBlank_of_head? (mem_head?_of_takeWhile hc)
  · intro h hc
    exact hq h (mem_head?_of_takeWhile hc)

/-! ## What an item says -/

namespace Item

/-- Names are read as they must look, and values either without or between quotes. -/
theorem Reads.every (h : Reads quotes inSection line item rest) :
    item.Every (IsHeaderName ·.toList) (IsWord ·.toList)
      fun value => IsPlain quotes value.toList ∨ quotes = true ∧ '"' ∉ value.toList := by
  cases h with
  | header hn => simpa only [Every, String.toList_ofList] using isHeaderName_headerName _
  | plain hs hc he hq =>
    simp only [Every, String.toList_ofList]
    exact ⟨isWord_word hc _, .inl (isPlain_takeWhile hq)⟩
  | quoted hs hc he hq hv hb =>
    simp only [Every, String.toList_ofList]
    refine ⟨isWord_word hc _, .inr ⟨hq, ?_⟩⟩
    intro hm
    simpa using List.mem_takeWhile_imp hm
  | _ => trivial

/-- All characters that an item brings stand in the line it is read from. -/
theorem Reads.every_subset (h : Reads quotes inSection line item rest) :
    item.Every (·.toList ⊆ line) (·.toList ⊆ line) (·.toList ⊆ line) := by
  cases h with
  | @header _ text hn =>
    simp only [Every, String.toList_ofList]
    have hs : skipBlanks text <:+ '[' :: text := (skipBlanks_suffix text).trans (List.suffix_cons _ _)
    exact List.Subset.trans (List.takeWhile_subset _) hs.subset
  | plain hs hc he hq =>
    simp only [Every, String.toList_ofList]
    exact ⟨List.takeWhile_subset _, List.Subset.trans (List.takeWhile_subset _) (suffix_of_equals he).subset⟩
  | quoted hs hc he hq hv hb =>
    simp only [Every, String.toList_ofList]
    have hbody := (List.suffix_cons _ _).trans (hv ▸ suffix_of_equals he)
    exact ⟨List.takeWhile_subset _, List.Subset.trans (List.takeWhile_subset _) hbody.subset⟩
  | _ => trivial

end Item

/-! ## Texts in which no quote opens -/

/-- The first line that is not empty has a value that starts with a quote. -/
def OpensQuote (text : List Char) : Prop :=
  ∃ c line value body, skipSpace text = c :: line ∧ c ≠ '[' ∧ skipBlanks (behindWord (c :: line)) = '=' :: value ∧
    skipBlanks value = '"' :: body

/-- Neither the text nor what stands behind one of its lines opens a quote. -/
def QuoteFree (text : List Char) : Prop := ∀ rest, rest = text ∨ '\n' :: rest <:+ text → ¬OpensQuote rest

theorem OpensQuote.mem (h : OpensQuote text) : '"' ∈ text := by
  obtain ⟨c, line, value, body, hs, -, he, hv⟩ := h
  have hvalue : skipBlanks value <:+ skipSpace text := hs ▸ Item.suffix_of_equals he
  exact (hvalue.trans (skipSpace_suffix text)).subset (hv ▸ List.mem_cons_self)

/-- A text without a quote character is free of quotes. -/
theorem quoteFree_of_notMem (h : '"' ∉ text) : QuoteFree text := by
  rintro rest (rfl | hs) ho
  · exact h ho.mem
  · exact h (((List.suffix_cons _ _).trans hs).subset ho.mem)

theorem quoteFree_of_line (h : '\n' ∉ text) (ho : ¬OpensQuote text) : QuoteFree text := by
  rintro rest (rfl | hs)
  · exact ho
  · exact absurd (hs.subset List.mem_cons_self) h

theorem not_opensQuote_nil : ¬OpensQuote [] := by
  intro h
  simpa using h.mem

theorem not_opensQuote_bracket (text : List Char) : ¬OpensQuote ('[' :: text) := by
  rintro ⟨c, line, value, body, hs, hc, -⟩
  exact hc (List.cons.inj hs).1.symm

theorem opensQuote_skipSpace : OpensQuote (skipSpace text) ↔ OpensQuote text := by
  rw [OpensQuote, OpensQuote, skipSpace_idem]

theorem QuoteFree.not_opensQuote (h : QuoteFree text) : ¬OpensQuote (skipSpace text) := by
  rw [opensQuote_skipSpace]
  exact h text (.inl rfl)

theorem QuoteFree.of_suffix (h : QuoteFree text) (hs : rest <:+ text) (hr : ¬OpensQuote rest) : QuoteFree rest := by
  rintro rest' (rfl | hs')
  · exact hr
  · exact h rest' (.inr (hs'.trans hs))

/-- A line feed keeps what stands in front of it and what stands behind it apart. -/
theorem opensQuote_append_lf (h : OpensQuote (line ++ '\n' :: rest)) : OpensQuote line ∨ OpensQuote rest := by
  obtain ⟨c, content, value, body, hs, hc, he, hv⟩ := h
  have hblank : ∀ d ∈ ('\n' :: rest).head?, isBlank d = false := by
    rintro d ⟨⟩
    rfl
  cases hl : skipSpace line with
  | nil =>
    rw [skipSpace_append_of_eq_nil hl] at hs
    exact .inr ⟨c, content, value, body, hs, hc, he, hv⟩
  | cons d first =>
    obtain ⟨rfl, rfl⟩ := List.cons.inj ((skipSpace_append_of_cons hl).symm.trans hs)
    have hword : behindWord (d :: first ++ '\n' :: rest) = behindWord (d :: first) ++ '\n' :: rest :=
      dropWhile_append_stop (d :: first) (by rintro e ⟨⟩; rfl)
    rw [← List.cons_append, hword, skipBlanks_append _ hblank] at he
    cases hb : skipBlanks (behindWord (d :: first)) with
    | nil =>
      rw [hb] at he
      cases he
    | cons e text =>
      rw [hb, List.cons_append] at he
      obtain ⟨rfl, rfl⟩ := List.cons.inj he
      rw [skipBlanks_append _ hblank] at hv
      cases ht : skipBlanks text with
      | nil =>
        rw [ht] at hv
        cases hv
      | cons e text' =>
        rw [ht, List.cons_append] at hv
        obtain ⟨rfl, rfl⟩ := List.cons.inj hv
        exact .inl ⟨d, first, text, text', hl, hc, hb, ht⟩

/-- Lines that are free of quotes make a text that is free of quotes. -/
theorem QuoteFree.append_lf (hl : QuoteFree line) (hr : QuoteFree rest) : QuoteFree (line ++ '\n' :: rest) := by
  have hself : ¬OpensQuote rest := hr rest (.inl rfl)
  rintro text (rfl | hs) ho
  · exact (opensQuote_append_lf ho).elim (hl line (.inl rfl)) hself
  · rcases List.suffix_or_suffix_of_suffix hs (List.suffix_append line ('\n' :: rest)) with hs' | hs'
    · rcases List.suffix_cons_iff.1 hs' with he | hs'
      · exact hself ((List.cons.inj he).2 ▸ ho)
      · exact hr text (.inr hs') ho
    · rcases List.suffix_cons_iff.1 hs' with he | ⟨behind, rfl⟩
      · exact hself ((List.cons.inj he).2 ▸ ho)
      · obtain ⟨before, hb⟩ := hs
        rw [← List.cons_append, ← List.append_assoc] at hb
        have hline : '\n' :: behind <:+ line := ⟨before, List.append_cancel_right hb⟩
        exact (opensQuote_append_lf ho).elim (hl behind (.inr hline)) hself

/-- The line of an entry is free of quotes if its value has no quotes or is one line and does not start with one. -/
theorem quoteFree_entry {name value : List Char} (hn : ∀ c ∈ name, endsName c = false)
    (hv : '"' ∉ value ∨ '\n' ∉ value ∧ (skipBlanks value).head? ≠ some '"') : QuoteFree (name ++ '=' :: value) := by
  have hname : ∀ c ∈ name, c ≠ '\n' := by
    rintro c hc rfl
    cases hn _ hc
  rintro rest (rfl | hs) ho
  · obtain ⟨c, line, text, body, hs, -, he, hb⟩ := ho
    have hword : behindWord (name ++ '=' :: value) = '=' :: value := by
      rw [behindWord, List.dropWhile_append_of_pos (by simpa using hn)]
      rfl
    have hskip : skipSpace (name ++ '=' :: value) = name ++ '=' :: value := by
      cases name with
      | nil => rfl
      | cons d name =>
        have hd : isSpace d = false := by
          have := hn d (by simp)
          simp_all [endsName]
        rw [List.cons_append, skipSpace, List.dropWhile_cons_of_neg (by simp [hd])]
    rw [← hs, hskip, hword] at he
    obtain rfl : value = text := (List.cons.inj he).2
    rcases hv with hv | ⟨-, hv⟩
    · exact hv ((skipBlanks_suffix value).subset (hb ▸ List.mem_cons_self))
    · exact hv (by rw [hb]; rfl)
  · have hvalue : '\n' :: rest <:+ value := by
      rcases List.suffix_or_suffix_of_suffix hs (List.suffix_append name ('=' :: value)) with hs' | hs'
      · exact (List.suffix_cons_iff.1 hs').resolve_left (by simp)
      · obtain ⟨behind, hb⟩ := (List.suffix_cons_iff.1 hs').resolve_left (by simp)
        obtain ⟨before, hw⟩ := hs
        rw [← hb, ← List.cons_append, ← List.append_assoc] at hw
        exact absurd rfl (hname '\n' (List.append_cancel_right hw ▸ by simp))
    rcases hv with hv | ⟨hv, -⟩
    · exact hv (((List.suffix_cons _ _).trans hvalue).subset ho.mem)
    · exact hv (hvalue.subset List.mem_cons_self)

/-- What stands behind an item of a text that is free of quotes is free of quotes. -/
theorem QuoteFree.next (h : QuoteFree text) (hn : Item.next quotes inSection text = some (item, rest)) :
    QuoteFree rest := by
  have hr := Item.next_eq_some_iff.1 hn
  refine h.of_suffix (Item.next_suffix hn) ?_
  rcases hr.boundary with rfl | hs | ⟨behind, rfl⟩
  · exact not_opensQuote_nil
  · exact h rest (.inr (hs.trans (skipSpace_suffix text)))
  · exact not_opensQuote_bracket behind

namespace Item

/-- A line that opens no quote has no value in quotes, and quotes could as well mean nothing. -/
theorem Reads.without_quotes (h : Reads quotes inSection line item rest) (hq : quotes = true → ¬OpensQuote line) :
    Reads false inSection line item rest ∧
      item.Every (IsHeaderName ·.toList) (IsWord ·.toList) (IsPlain quotes ·.toList) := by
  have hskip := h.skipSpace_eq
  have hevery := h.every
  cases h with
  | header hn => exact ⟨.header hn, hevery⟩
  | nameless hn => exact ⟨.nameless hn, trivial⟩
  | outside hs hc => exact ⟨.outside hs hc, trivial⟩
  | comment hs hc hb => exact ⟨.comment hs hc hb, trivial⟩
  | noEquals hs hc hb he => exact ⟨.noEquals hs hc hb he, trivial⟩
  | plain hs hc he hv =>
    exact ⟨.plain hs hc he (by simp), hevery.1, by simpa only [String.toList_ofList] using isPlain_takeWhile hv⟩
  | quoted hs hc he hq' hv hb => exact absurd ⟨_, _, _, _, hskip, hc, he, hv⟩ (hq hq')
  | unclosed hs hc he hq' hv hb => exact absurd ⟨_, _, _, _, hskip, hc, he, hv⟩ (hq hq')

/-- A text that is free of quotes is read as if quotes meant nothing. -/
theorem allFrom_of_quoteFree (h : quotes = true → QuoteFree text) :
    allFrom quotes inSection text = allFrom false inSection text := by
  fun_induction allFrom quotes inSection text with
  | case1 s text hn => rw [allFrom_of_next_none (next_nil (next_eq_none_iff.1 hn))]
  | case2 s text item rest hn ih =>
    have hopen : quotes = true → ¬OpensQuote (skipSpace text) := fun hq => (h hq).not_opensQuote
    have hrest : quotes = true → QuoteFree rest := by
      intro hq
      exact (h hq).next hn
    have hfalse := next_eq_some_iff.2 ((next_eq_some_iff.1 hn).without_quotes hopen).1
    rw [allFrom_of_next hfalse, ih hrest]

/-- Names are read as they must look, and values either without or between quotes. -/
theorem every_of_mem_allFrom (quotes inSection : Bool) (text : List Char) :
    ∀ item ∈ allFrom quotes inSection text, item.Every (IsHeaderName ·.toList) (IsWord ·.toList)
      fun value => IsPlain quotes value.toList ∨ quotes = true ∧ '"' ∉ value.toList :=
  forall_mem_allFrom (P := fun _ => True) (fun _ _ _ _ _ hn => ⟨(next_eq_some_iff.1 hn).every, trivial⟩) trivial

/-- All characters that the items of a text bring stand in the text. -/
theorem every_subset_of_mem_allFrom (quotes inSection : Bool) (text : List Char) :
    ∀ item ∈ allFrom quotes inSection text,
      item.Every (·.toList ⊆ text) (·.toList ⊆ text) (·.toList ⊆ text) := by
  refine forall_mem_allFrom (P := (· <:+ text)) ?_ (List.suffix_refl _)
  intro s t item rest ht hn
  have hline : skipSpace t ⊆ text := ((skipSpace_suffix t).trans ht).subset
  have hsubset : ∀ value : String, value.toList ⊆ skipSpace t → value.toList ⊆ text := by
    intro value hvalue
    exact List.Subset.trans hvalue hline
  exact ⟨(next_eq_some_iff.1 hn).every_subset.imp hsubset hsubset hsubset, (next_suffix hn).trans ht⟩

/-- Where no quote opens, all values are plain. -/
theorem every_of_quoteFree (h : quotes = true → QuoteFree text) :
    ∀ item ∈ allFrom quotes inSection text,
      item.Every (IsHeaderName ·.toList) (IsWord ·.toList) (IsPlain quotes ·.toList) := by
  refine forall_mem_allFrom (P := fun t => quotes = true → QuoteFree t) ?_ h
  intro s t item rest ht hn
  constructor
  · exact ((next_eq_some_iff.1 hn).without_quotes fun hq => (ht hq).not_opensQuote).2
  · intro hq
    exact (ht hq).next hn

end Item

end IniDoc.Text
