import IniDoc.Proofs.LineByLine
import IniDoc.Proofs.Passes
import IniDoc.Proofs.Unclosed

/-!
# What a pass comes to

Every iteration leaves less text and keeps the current section, so that the pass ends. It fails at most at a quote that
is never closed, at a place that lies in the text and between two characters, and it does what the scan does.

* `Text.place?`: the line and the offset of a place, if the place is in the text and between two characters.
* `Pass.Sound`: what every iteration keeps.
* `Combinators.Documented.iteration_cases`: all that an iteration can do.
* `Combinators.Documented.pass_eq`: the pass ends, and with what.
* `Document.pass_progresses`: all iterations of both loops, and the scan that they make.
-/

namespace IniDoc

open Text (Combinators Item byteCount lineFeeds skipSpace)

/-! ## Places in a text -/

namespace Text

/-- The text in front of a byte offset, unless the offset is past the end or inside a character. -/
def before? : List Char → Nat → Option (List Char)
  | [], offset => if offset = 0 then some [] else none
  | c :: text, offset =>
    if offset = 0 then some []
    else if c.utf8Size ≤ offset then (before? text (offset - c.utf8Size)).map (c :: ·)
    else none

/-- The line and the byte offset of the place from which on a text is `tail`. There is none if `tail` is longer than the
text, or if the text cannot be cut as many bytes from its end. -/
def place? (text tail : List Char) : Option (Nat × Nat) :=
  if byteCount tail ≤ byteCount text then
    let offset := byteCount text - byteCount tail
    (before? text offset).map fun before => (lineFeeds before + 1, offset)
  else none

theorem before?_append (text rest : List Char) : before? (text ++ rest) (byteCount text) = some text := by
  induction text with
  | nil => cases rest <;> rfl
  | cons c text ih =>
    have hc := c.utf8Size_pos
    rw [List.cons_append, byteCount_cons, before?, if_neg (by omega), if_pos (by omega), Nat.add_sub_cancel_left, ih]
    rfl

theorem place?_append (before tail : List Char) :
    place? (before ++ tail) tail = some (lineFeeds before + 1, byteCount before) := by
  have hsize : byteCount (before ++ tail) = byteCount before + byteCount tail := byteCount_append before tail
  unfold place?
  rw [if_pos (by omega), hsize, Nat.add_sub_cancel]
  simp only [before?_append, Option.map_some]

/-- No place is inside a character. -/
example : place? "é".toList "x".toList = none := by decide

end Text

open Text (place?)

/-! ## Iterations -/

/-- What every iteration keeps: the text that is left is the end of the text, and the state of the scan shows a draft,
so that the current section is there. -/
structure Pass.Sound (text : List Char) (s : Pass) : Prop where
  suffix : s.rest <:+ text
  shows : ∃ q, s.progress.Shows q

namespace Pass

/-- What a pass comes to on items: it fails at a quote that is never closed if that is an error. -/
def outcome (options : Options) (p : Progress) (items : List Item) : Except Failure Progress :=
  match options.strict, items.findSome? Item.unclosed? with
  | true, some tail => .error ⟨(p.addAll items).document, tail, .unclosedQuote⟩
  | _, _ => .ok (p.addAll items)

variable {options : Options} {p : Progress} {item : Item} {items : List Item} {s : Pass} {text rest : List Char}

theorem outcome_nil (options : Options) (p : Progress) : outcome options p [] = .ok p := by
  unfold outcome
  cases options.strict <;> rfl

theorem outcome_cons (hu : options.strict = true → item.unclosed? = none) (p : Progress) (items : List Item) :
    outcome options p (item :: items) = outcome options (p.add item) items := by
  unfold outcome
  cases hs : options.strict with
  | false => rfl
  | true =>
    rw [List.findSome?_cons, hu hs]
    rfl

theorem outcome_unclosed (hs : options.strict = true) (p : Progress) (tail : List Char) :
    outcome options p [.unclosed tail] = .error ⟨p.document, tail, .unclosedQuote⟩ := by
  unfold outcome
  rw [hs]
  rfl

theorem outcome_eq_error {failure : Failure} (h : outcome options p items = .error failure) :
    options.strict = true ∧ ∃ tail, items.findSome? Item.unclosed? = some tail ∧
      failure = ⟨(p.addAll items).document, tail, .unclosedQuote⟩ := by
  unfold outcome at h
  split at h
  · next tail hs hu =>
    cases h
    exact ⟨hs, tail, hu, rfl⟩
  · cases h

theorem scanChars_eq_outcome (d : Document) (options : Options) (text : List Char) :
    d.scanChars options text = match outcome options (.start d) (Item.all options.quotes text) with
      | .ok p => (p.document, .ok p.summary)
      | .error failure => (failure.document, .error (unclosedQuote text failure.tail)) := by
  unfold Document.scanChars outcome
  cases options.strict with
  | false => rfl
  | true => cases hu : (Item.all options.quotes text).findSome? Item.unclosed? <;> simp only [hu]

namespace Sound

theorem exists_section (hs : s.Sound text) :
    ∀ id ∈ s.progress.current, ∃ t, s.progress.document.section? id = some t := by
  intro id hid
  obtain ⟨q, hq⟩ := hs.shows
  obtain ⟨hnone, -⟩ | ⟨id', name, t, hid', -, ht, -⟩ := hq.current
  · rw [hnone] at hid
    cases hid
  · obtain rfl := Option.some.inj (hid'.symm.trans hid)
    exact ⟨t, ht⟩

theorem start {d : Document} (hd : d.WellFormed) (text : List Char) : Sound text ⟨.start d, text⟩ :=
  ⟨List.suffix_refl text, _, .start hd⟩

theorem add (hs : s.Sound text) (hr : rest <:+ s.rest) (item : Item) : Sound text ⟨s.progress.add item, rest⟩ := by
  obtain ⟨q, hq⟩ := hs.shows
  exact ⟨hr.trans hs.suffix, q.add item, hq.add item⟩

end Sound

end Pass

namespace Text.Combinators.Documented

variable {lib : Combinators} (h : lib.Documented) {options : Options} {s : Pass} {text : List Char}
include h

/-- All that an iteration can do up to where lines may have to be dropped. -/
theorem read_cases (hs : s.Sound text) (options : Options) :
    (skipSpace s.rest = [] ∧ lib.read options s = .ok .done) ∨
      ∃ item rest, Item.next options.quotes s.progress.current.isSome s.rest = some (item, rest) ∧
        (((options.strict = true → item.unclosed? = none) ∧
            lib.read options s = .ok (.next ⟨s.progress.add item, rest⟩)) ∨
          (∃ line, line <:+ skipSpace s.rest ∧ rest = Item.toHeader line ∧ item.unclosed? = none ∧
            lib.read options s = .ok (.toHeader ⟨s.progress.add item, line⟩)) ∨
          ∃ tail, item = .unclosed tail ∧ options.strict = true ∧
            lib.read options s = .error ⟨s.progress.document, tail, .unclosedQuote⟩) := by
  cases hn : Item.next options.quotes s.progress.current.isSome s.rest with
  | none =>
    have hspace := Item.next_eq_none_iff.1 hn
    exact .inl ⟨hspace, h.read_nil hspace⟩
  | some found =>
    obtain ⟨item, rest⟩ := found
    exact .inr ⟨item, rest, rfl, h.read_of_reads hs.exists_section (Item.reads_of_next hn)⟩

/-- All that an iteration can do: it returns where only spaces are left; else an item is read, and the next iteration
begins behind it, unless the item is a quote that is never closed and this is an error. -/
theorem iteration_cases (hs : s.Sound text) (options : Options) :
    (skipSpace s.rest = [] ∧ lib.iteration options s = .some (.ok (.inl s.progress))) ∨
      ∃ item rest, Item.next options.quotes s.progress.current.isSome s.rest = some (item, rest) ∧
        ((options.strict = true → item.unclosed? = none) ∧
            lib.iteration options s = .some (.ok (.inr ⟨s.progress.add item, rest⟩)) ∨
          ∃ tail, item = .unclosed tail ∧ options.strict = true ∧
            lib.iteration options s = .some (.error ⟨s.progress.document, tail, .unclosedQuote⟩)) := by
  obtain ⟨hspace, hread⟩ | ⟨item, rest, hn, hread⟩ := h.read_cases hs options
  · exact .inl ⟨hspace, by rw [iteration, hread]⟩
  · refine .inr ⟨item, rest, hn, ?_⟩
    obtain ⟨hu, hread⟩ | ⟨line, -, rfl, hu, hread⟩ | ⟨tail, hi, hstrict, hread⟩ := hread
    · exact .inl ⟨hu, by rw [iteration, hread]⟩
    · refine .inl ⟨fun _ => hu, ?_⟩
      rw [iteration, hread]
      simp only [h.dropLines_eq, Part.map_some]
    · exact .inr ⟨tail, hi, hstrict, by rw [iteration, hread]⟩

/-- An iteration returns, or goes on with less text, or fails at a place in the text. -/
theorem iteration_progresses (hs : s.Sound text) (options : Options) :
    lib.iteration options s = .some (.ok (.inl s.progress)) ∨
      (∃ s', lib.iteration options s = .some (.ok (.inr s')) ∧ s'.rest <:+ text ∧
        s'.rest.length < s.rest.length) ∨
      ∃ before tail, lib.iteration options s = .some (.error ⟨s.progress.document, tail, .unclosedQuote⟩) ∧
        options.quotes = true ∧ options.strict = true ∧ text = before ++ tail ∧
        place? text tail = some (lineFeeds before + 1, byteCount before) := by
  obtain ⟨-, hdone⟩ | ⟨item, rest, hn, ⟨-, hnext⟩ | ⟨tail, rfl, hstrict, hfail⟩⟩ := h.iteration_cases hs options
  · exact .inl hdone
  · exact .inr (.inl ⟨_, hnext, (Item.next_suffix hn).trans hs.suffix, Item.next_length_lt hn⟩)
  · obtain ⟨hquotes, -, front, -, -, hrest, -⟩ := Item.next_unclosed hn
    obtain ⟨start, hstart⟩ := hs.suffix
    have htext : text = (start ++ front) ++ tail := by rw [← hstart, hrest, List.append_assoc]
    exact .inr (.inr ⟨_, tail, hfail, hquotes, hstrict, htext, htext ▸ Text.place?_append _ tail⟩)

/-- The section of an entry is there. -/
theorem read_ne_lost (hs : s.Sound text) (s' : Pass) : lib.read options s ≠ .ok (.lost s') := by
  obtain ⟨-, hread⟩ | ⟨item, rest, -, ⟨-, hread⟩ | ⟨line, -, -, -, hread⟩ | ⟨tail, -, -, hread⟩⟩ :=
      h.read_cases hs options <;>
    simp [hread]

/-- An iteration that goes on leaves less text, which is an end of the text. -/
theorem sound_of_iteration (hs : s.Sound text) {s' : Pass} (hi : lib.iteration options s = .some (.ok (.inr s'))) :
    s'.Sound text ∧ s'.rest.length < s.rest.length := by
  obtain ⟨-, hdone⟩ | ⟨item, rest, hn, ⟨-, hnext⟩ | ⟨tail, -, -, hfail⟩⟩ := h.iteration_cases hs options
  · cases Part.some_injective (hi.symm.trans hdone)
  · cases Part.some_injective (hi.symm.trans hnext)
    exact ⟨hs.add (Item.next_suffix hn) item, Item.next_length_lt hn⟩
  · cases Part.some_injective (hi.symm.trans hfail)

theorem sound_of_begins {d : Document} (hd : d.WellFormed) (hs : lib.Begins options d text s) : s.Sound text := by
  induction hs with
  | start => exact .start hd text
  | next _ hi ih => exact (h.sound_of_iteration ih hi).1

/-- The texts with which lines are dropped are ends of the text. -/
theorem suffix_of_drops {d : Document} (hd : d.WellFormed) {line : List Char} (hl : lib.Drops options d text line) :
    line <:+ text := by
  induction hl with
  | @start s s' hb hread =>
    have hs := h.sound_of_begins hd hb
    obtain ⟨-, hdone⟩ | ⟨item, rest, -, ⟨-, hnext⟩ | ⟨line, hline, -, -, hto⟩ | ⟨tail, -, -, hfail⟩⟩ :=
      h.read_cases hs options
    · cases hread.symm.trans hdone
    · cases hread.symm.trans hnext
    · cases hread.symm.trans hto
      exact hline.trans ((skipSpace_suffix s.rest).trans hs.suffix)
    · cases hread.symm.trans hfail
  | @next line rest _ hl ih =>
    obtain hdone | ⟨hnext, hsuffix, -⟩ := h.dropLine_cases line
    · cases hl.symm.trans hdone
    · cases hl.symm.trans hnext
      exact hsuffix.trans ih

/-- Iterations one after another end, and come to what the items of the text that is left come to. -/
theorem loop_eq (hs : s.Sound text) : loop (lib.iteration options) s =
    .some (Pass.outcome options s.progress (Item.allFrom options.quotes s.progress.current.isSome s.rest)) := by
  induction hn : s.rest.length using Nat.strong_induction_on generalizing s with
  | h n ih =>
    obtain ⟨hspace, hi⟩ | ⟨item, rest, hnext, ⟨hu, hi⟩ | ⟨tail, rfl, hstrict, hi⟩⟩ := h.iteration_cases hs options
    · rw [loop_return hi, Item.allFrom_of_next_none (Item.next_nil hspace), Pass.outcome_nil]
    · obtain ⟨hs', hlt⟩ := h.sound_of_iteration hs hi
      obtain ⟨q, hq⟩ := hs.shows
      rw [loop_again hi, ih _ (hn ▸ hlt) hs' rfl, Item.allFrom_of_next hnext, Pass.outcome_cons hu,
        hq.opensSection_of_next hnext]
    · obtain ⟨-, rfl, -⟩ := Item.next_unclosed hnext
      rw [loop_fail hi, Item.allFrom_of_next hnext, Item.allFrom_of_next_none (Item.next_nil rfl),
        Pass.outcome_unclosed hstrict]

/-- A pass ends, and comes to what the items of the text come to. -/
theorem pass_eq {d : Document} (hd : d.WellFormed) (options : Options) (text : List Char) :
    lib.pass options d text = .some (Pass.outcome options (.start d) (Item.all options.quotes text)) :=
  h.loop_eq (.start hd text)

/-- A pass does what the scan does, and fails at a place in the text. -/
theorem pass_cases {d : Document} (hd : d.WellFormed) (options : Options) (text : List Char) :
    (∃ p, lib.pass options d text = .some (.ok p) ∧ d.scanChars options text = (p.document, .ok p.summary)) ∨
      ∃ d' tail line offset, lib.pass options d text = .some (.error ⟨d', tail, .unclosedQuote⟩) ∧
        options.quotes = true ∧ options.strict = true ∧ place? text tail = some (line, offset) ∧
        d.scanChars options text = (d', .error (.unclosedQuote line offset)) := by
  have hpass := h.pass_eq hd options text
  have hscan := Pass.scanChars_eq_outcome d options text
  cases ho : Pass.outcome options (.start d) (Item.all options.quotes text) with
  | ok p =>
    rw [ho] at hpass hscan
    exact .inl ⟨p, hpass, hscan⟩
  | error failure =>
    rw [ho] at hpass hscan
    obtain ⟨hstrict, tail, hu, rfl⟩ := Pass.outcome_eq_error ho
    obtain ⟨hquotes, before, -, -, -, htext, -⟩ := Item.exists_cut hu
    refine .inr ⟨_, tail, _, _, hpass, hquotes, hstrict, htext ▸ Text.place?_append before tail, ?_⟩
    rw [← unclosedQuote_append before tail, ← htext]
    exact hscan

end Text.Combinators.Documented

/-- Every iteration of a pass that goes on leaves less text, an end of the text, and so does every iteration that drops
lines; both loops end. No parser refuses a text, and the section of an entry is always there. A pass fails only at a
quote that is never closed, if quotes have a meaning and this is an error, and the place of the error is in the text and
between two characters. What the pass does is what the scan does. -/
theorem Document.pass_progresses (lib : Combinators) (h : lib.Documented) (id : Nat) (edits : List Edit)
    (options : Options) (text : String) :
    let d := (empty id).run edits
    (∀ s, lib.Begins options d text.toList s →
      s.rest <:+ text.toList ∧
      (∀ id ∈ s.progress.current, ∃ t, s.progress.document.section? id = some t) ∧
      (∀ s', lib.read options s ≠ .ok (.lost s')) ∧
      (lib.iteration options s = .some (.ok (.inl s.progress)) ∨
        (∃ s', lib.iteration options s = .some (.ok (.inr s')) ∧ s'.rest <:+ text.toList ∧
          s'.rest.length < s.rest.length) ∨
        ∃ before tail, lib.iteration options s = .some (.error ⟨s.progress.document, tail, .unclosedQuote⟩) ∧
          options.quotes = true ∧ options.strict = true ∧ text.toList = before ++ tail ∧
          place? text.toList tail = some (lineFeeds before + 1, byteCount before))) ∧
    (∀ line, lib.Drops options d text.toList line →
      line <:+ text.toList ∧
      (∃ header, lib.dropLines line = .some (.ok header)) ∧
      ((∃ header, lib.dropLine line = .ok (.inl header)) ∨
        ∃ rest, lib.dropLine line = .ok (.inr rest) ∧ rest <:+ text.toList ∧ rest.length < line.length)) ∧
    ((∃ p, lib.pass options d text.toList = .some (.ok p) ∧ d.scan options text = (p.document, .ok p.summary)) ∨
      ∃ d' tail line offset, lib.pass options d text.toList = .some (.error ⟨d', tail, .unclosedQuote⟩) ∧
        options.quotes = true ∧ options.strict = true ∧ place? text.toList tail = some (line, offset) ∧
        d.scan options text = (d', .error (.unclosedQuote line offset))) := by
  intro d
  have hd : d.WellFormed := wellFormed_run (wellFormed_empty id) edits
  refine ⟨?_, ?_, h.pass_cases hd options text.toList⟩
  · intro s hb
    have hs := h.sound_of_begins hd hb
    exact ⟨hs.suffix, hs.exists_section, h.read_ne_lost hs, h.iteration_progresses hs options⟩
  · intro line hl
    have hsuffix := h.suffix_of_drops hd hl
    refine ⟨hsuffix, ⟨_, h.dropLines_eq line⟩, ?_⟩
    obtain hdone | ⟨hnext, hrest, hlt⟩ := h.dropLine_cases line
    · exact .inl ⟨_, hdone⟩
    · exact .inr ⟨_, hnext, hrest.trans hsuffix, hlt⟩

/-- Both loops go on over lines that are dropped, and the quote that ends the pass stands behind a character of two
bytes. -/
theorem Document.pass_progresses_to_open_quote :
    let d := (empty 0).run [.addSection "b"]
    let options : Options := ⟨true, true, .utf8⟩
    let text := "junk\n\t[]\nlost\n[b]\n= 1\nk\nö = \"x"
    let lib := Combinators.plain
    lib.Documented ∧ lib.Begins options d text.toList ⟨.start d, text.toList⟩ ∧
      lib.Drops options d text.toList ('j' :: text.toList.tail) ∧
      (∃ header, lib.dropLines ('j' :: text.toList.tail) = .some (.ok header)) ∧
      ∃ d' tail, lib.pass options d text.toList = .some (.error ⟨d', tail, .unclosedQuote⟩) ∧
        place? text.toList tail = some (7, 29) ∧ d.scan options text = (d', .error (.unclosedQuote 7 29)) := by
  intro d options text lib
  have hscan : (d.scan options text).2 = .error (.unclosedQuote 7 29) := by decide +kernel
  have hbegins : lib.Begins options d text.toList ⟨.start d, text.toList⟩ := .start
  have hline : skipSpace text.toList = 'j' :: text.toList.tail := by decide +kernel
  have hdrops : lib.Drops options d text.toList ('j' :: text.toList.tail) :=
    .start hbegins (Combinators.documented_plain.read_outside hline (by decide) rfl)
  obtain ⟨-, hdrop, hpass⟩ := Document.pass_progresses lib Combinators.documented_plain 0 [.addSection "b"] options text
  obtain ⟨-, hends, -⟩ := hdrop _ hdrops
  refine ⟨Combinators.documented_plain, hbegins, hdrops, hends, ?_⟩
  obtain ⟨p, -, hp⟩ | ⟨d', tail, line, offset, hp, -, -, hplace, heq⟩ := hpass
  · cases hscan.symm.trans (congrArg Prod.snd hp)
  · cases hscan.symm.trans (congrArg Prod.snd heq)
    exact ⟨d', tail, hp, hplace, heq⟩

end IniDoc
