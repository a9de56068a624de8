import Mathlib.Data.PFun
import IniDoc.Document.Scan
import IniDoc.Proofs.Readers

/-!
# A scan as one pass over the text

A scan can be run as a loop that takes one item off the text in every iteration, with a loop inside it that drops the
lines up to the next header. Nothing in the loops themselves says that they end, that no parser refuses a text, or that
the current section is there. Each iteration reads what an item is read from.

* `loop`: iterations until one returns or fails.
* `Combinators.dropLine`, `Combinators.iteration`: one iteration of either loop.
* `Combinators.Begins`, `Combinators.Drops`: where the iterations begin.
* `Combinators.Documented.dropLines_eq`: the loop that drops lines ends.
* `Combinators.Documented.read_of_reads`: what an iteration reads, one case for each way to read an item.
-/

namespace IniDoc

open Text (Combinators Item Refusal byteCount skipBlanks skipSpace)

/-! ## Loops -/

/-- Repeats an iteration until one returns something or fails. The loop has no value if no iteration ever does, or if
one has no value itself. -/
def loop {σ α ε : Type} (iteration : σ → Part (Except ε (α ⊕ σ))) : σ → Part (Except ε α) :=
  PFun.fix fun s => (iteration s).map fun
    | .error e => .inl (.error e)
    | .ok (.inl a) => .inl (.ok a)
    | .ok (.inr next) => .inr next

section Loop

variable {σ α ε : Type} {iteration : σ → Part (Except ε (α ⊕ σ))} {s next : σ} {a : α} {e : ε}

theorem loop_fail (h : iteration s = .some (.error e)) : loop iteration s = .some (.error e) :=
  Part.eq_some_iff.2 (PFun.fix_stop (by simp [h]))

theorem loop_return (h : iteration s = .some (.ok (.inl a))) : loop iteration s = .some (.ok a) :=
  Part.eq_some_iff.2 (PFun.fix_stop (by simp [h]))

theorem loop_again (h : iteration s = .some (.ok (.inr next))) : loop iteration s = loop iteration next :=
  PFun.fix_fwd_eq (by simp [h])

end Loop

/-! ## The iterations of a scan -/

/-- A pass between two iterations: what has been done so far, and the text that is left. -/
structure Pass where
  progress : Progress
  rest : List Char

namespace Pass

/-- What is wrong with a text. -/
inductive Cause where
  | unclosedQuote
  /-- A parser refuses the text. -/
  | refused (refusal : Refusal)

/-- A failed pass: the document so far, and the place of the error, from which on the text is `tail`. -/
structure Failure where
  document : Document
  tail : List Char
  cause : Cause

/-- What an iteration goes on with behind what it has read. -/
inductive Move where
  /-- Nothing is left to read; the pass returns. -/
  | done
  /-- The next iteration. -/
  | next (s : Pass)
  /-- The next iteration, with an entry dropped as its section is not there. -/
  | lost (s : Pass)
  /-- The next header, where the next iteration begins. -/
  | toHeader (s : Pass)

/-- What a parser makes of a text. If it refuses the text, the pass fails there. -/
def attempt {α : Type} (d : Document) (parser : List Char → Except Refusal α) (text : List Char) :
    Except Failure α :=
  (parser text).mapError fun refusal => ⟨d, text, .refused refusal⟩

/-- Adds an entry to the section with a handle. -/
def enter (p : Progress) (id : SectionId) (name data : String) (rest : List Char) : Move :=
  match p.document.section? id with
  | none => .lost ⟨p.skip, rest⟩
  | some s =>
    match s.add name data with
    | .ok (_, changed) =>
      let summary := { p.summary with keys := p.summary.keys + 1 }
      .next ⟨{ p with document := p.document.putSection changed, summary }, rest⟩
    | .error _ => .next ⟨p.skip, rest⟩

end Pass

open Pass (attempt)

namespace Text.Combinators

variable (lib : Combinators)

/-- One iteration of the loop that drops lines: it returns where nothing or a bracket stands behind the blanks. -/
def dropLine (text : List Char) : Except Refusal (List Char ⊕ List Char) := do
  let (line, _) ← lib.blanks text
  if line.isEmpty || line.head? == some '[' then return .inl line
  else
    let (rest, _) ← lib.restOfLine line
    return .inr rest

/-- Drops lines up to the next header. -/
def dropLines : List Char → Part (Except Refusal (List Char)) := loop fun text => .some (lib.dropLine text)

/-- Reads a header from behind its bracket. -/
def readHeader (p : Progress) (text : List Char) : Except Pass.Failure Pass.Move := do
  let (rest, name) ← attempt p.document lib.header text
  match p.document.addSection (String.ofList name) with
  | .ok (id, document) =>
    let summary := { p.summary with sections := p.summary.sections + 1 }
    return .next ⟨⟨document, some id, summary⟩, rest⟩
  | .error _ => return .toHeader ⟨{ p with current := none }.skip, rest⟩

/-- Reads a line of the section with a handle. -/
def readLine (options : Options) (p : Progress) (id : SectionId) (line : List Char) :
    Except Pass.Failure Pass.Move := do
  match ← attempt p.document lib.word line with
  | (rest, .comment) => return .next ⟨p, rest⟩
  | (rest, .name name) =>
    match ← attempt p.document (lib.value options.quotes) rest with
    | (rest, .missing) => return .next ⟨p.skip, rest⟩
    | (rest, .unclosed tail) =>
      if options.strict then throw ⟨p.document, tail, .unclosedQuote⟩
      else
        let summary := { p.skip.summary with abandoned := byteCount tail }
        return .next ⟨{ p.skip with summary }, rest⟩
    | (rest, .data data) => return Pass.enter p id (String.ofList name) (String.ofList data) rest

/-- An iteration of a pass, up to where lines may have to be dropped. -/
def read (options : Options) (s : Pass) : Except Pass.Failure Pass.Move := do
  let (text, _) ← attempt s.progress.document lib.spaces s.rest
  match text with
  | [] => return .done
  | '[' :: text => lib.readHeader s.progress text
  | line =>
    match s.progress.current with
    | none => return .toHeader ⟨s.progress, line⟩
    | some id => lib.readLine options s.progress id line

/-- One iteration of a pass. -/
def iteration (options : Options) (s : Pass) : Part (Except Pass.Failure (Progress ⊕ Pass)) :=
  match lib.read options s with
  | .error failure => .some (.error failure)
  | .ok .done => .some (.ok (.inl s.progress))
  | .ok (.next s') | .ok (.lost s') => .some (.ok (.inr s'))
  | .ok (.toHeader s') => (lib.dropLines s'.rest).map fun
    | .ok rest => .ok (.inr ⟨s'.progress, rest⟩)
    | .error refusal => .error ⟨s'.progress.document, s'.rest, .refused refusal⟩

/-- Adds a text to a document in one pass. -/
def pass (options : Options) (d : Document) (text : List Char) : Part (Except Pass.Failure Progress) :=
  loop (lib.iteration options) ⟨.start d, text⟩

/-- The states in which the iterations of a pass begin. -/
inductive Begins (options : Options) (d : Document) (text : List Char) : Pass → Prop
  | start : Begins options d text ⟨.start d, text⟩
  | next {s s' : Pass} (h : Begins options d text s) (hs : lib.iteration options s = .some (.ok (.inr s'))) :
      Begins options d text s'

/-- The texts with which the iterations begin that drop lines. -/
inductive Drops (options : Options) (d : Document) (text : List Char) : List Char → Prop
  | start {s s' : Pass} (h : lib.Begins options d text s) (hs : lib.read options s = .ok (.toHeader s')) :
      Drops options d text s'.rest
  | next {line rest : List Char} (h : Drops options d text line) (hl : lib.dropLine line = .ok (.inr rest)) :
      Drops options d text rest

/-! ## Dropping lines -/

namespace Documented

variable {lib : Combinators} (h : lib.Documented) {text rest : List Char} {c : Char}
include h

theorem dropLine_nil (hb : skipBlanks text = []) : lib.dropLine text = .ok (.inl []) := by
  unfold dropLine
  simp only [h.blanks_eq, hb, bind, Except.bind]
  rfl

theorem dropLine_bracket (hb : skipBlanks text = '[' :: rest) : lib.dropLine text = .ok (.inl ('[' :: rest)) := by
  unfold dropLine
  simp only [h.blanks_eq, hb, bind, Except.bind]
  rfl

theorem dropLine_other (hb : skipBlanks text = c :: rest) (hc : c ≠ '[') :
    lib.dropLine text = .ok (.inr (afterLine text)) := by
  have hline : (lib.dropLine text) = .ok (.inr (afterLine (c :: rest))) := by
    unfold dropLine
    simp only [h.blanks_eq, hb, h.restOfLine_eq, bind, Except.bind]
    rw [if_neg (by simpa using hc)]
    rfl
  rw [hline, ← hb, afterLine_skipBlanks]

/-- Dropping lines ends, and leads to the next header. -/
theorem dropLines_eq (text : List Char) : lib.dropLines text = .some (.ok (Item.toHeader text)) := by
  fun_induction Item.toHeader text with
  | case1 text hb => exact loop_return (congrArg Part.some (h.dropLine_nil hb))
  | case2 text c rest hb hc =>
    obtain rfl : c = '[' := beq_iff_eq.1 hc
    exact loop_return (congrArg Part.some (h.dropLine_bracket hb))
  | case3 text c rest hb hc ih =>
    have hne : c ≠ '[' := by simpa using hc
    exact (loop_again (congrArg Part.some (h.dropLine_other hb hne))).trans ih

/-- An iteration that goes on drops a line. -/
theorem dropLine_cases (text : List Char) :
    lib.dropLine text = .ok (.inl (Item.toHeader text)) ∨
      lib.dropLine text = .ok (.inr (afterLine text)) ∧ afterLine text <:+ text ∧
        (afterLine text).length < text.length := by
  cases hb : skipBlanks text with
  | nil => exact .inl (by rw [h.dropLine_nil hb, Item.toHeader_nil hb])
  | cons c rest =>
    by_cases hc : c = '['
    · subst hc
      exact .inl (by rw [h.dropLine_bracket hb, Item.toHeader_bracket hb])
    · have hne : text ≠ [] := by
        rintro rfl
        cases hb
      exact .inr ⟨h.dropLine_other hb hc, afterLine_suffix text, afterLine_length_lt hne⟩

end Documented

end Text.Combinators

/-! ## Reading -/

namespace Pass

theorem attempt_eq {α : Type} {d : Document} {parser : List Char → Except Refusal α} {text : List Char} {a : α}
    (h : parser text = .ok a) : attempt d parser text = .ok a := by
  rw [attempt, h]
  rfl

theorem enter_eq {p : Progress} {id : SectionId} {s : Section} (hc : p.current = some id)
    (hs : p.document.section? id = some s) (name data : String) (rest : List Char) :
    enter p id name data rest = .next ⟨p.addEntry name data, rest⟩ := by
  simp only [enter, Progress.addEntry, Document.updateSection, hc, hs, Option.bind_some, Option.map_some]
  cases s.add name data with
  | error e => rfl
  | ok r => rfl

end Pass

namespace Text.Combinators.Documented

variable {lib : Combinators} (h : lib.Documented) {options : Options} {p : Progress} {s : Pass} {c : Char}
  {text line rest : List Char} {item : Item}
include h

theorem readHeader_named (p : Progress) (hn : Item.headerName text ≠ []) :
    lib.readHeader p text =
      .ok (.next ⟨p.addHeader (String.ofList (Item.headerName text)), Item.behindHeader text⟩) := by
  have hname : (String.ofList (Item.headerName text)).isEmpty ≠ true := by simpa using hn
  unfold readHeader Progress.addHeader Document.addSection
  simp only [Pass.attempt_eq (h.header_eq text), if_neg hname, bind, Except.bind]
  cases p.document.sections.find? (String.ofList (Item.headerName text)) with
  | none => rfl
  | some i => rfl

theorem readHeader_nameless (p : Progress) (hn : Item.headerName text = []) :
    lib.readHeader p text = .ok (.toHeader ⟨p.add .namelessHeader, Item.behindHeader text⟩) := by
  unfold readHeader
  simp only [Pass.attempt_eq (h.header_eq text), hn, bind, Except.bind]
  rfl

theorem read_nil (hs : skipSpace s.rest = []) : lib.read options s = .ok .done := by
  unfold read
  simp only [Pass.attempt_eq (h.spaces_eq s.rest), hs, bind, Except.bind]
  rfl

theorem read_bracket (hs : skipSpace s.rest = '[' :: text) :
    lib.read options s = lib.readHeader s.progress text := by
  unfold read
  simp only [Pass.attempt_eq (h.spaces_eq s.rest), hs, bind, Except.bind]

theorem read_outside (hs : skipSpace s.rest = c :: text) (hc : c ≠ '[') (hp : s.progress.current = none) :
    lib.read options s = .ok (.toHeader ⟨s.progress, c :: text⟩) := by
  unfold read
  simp only [Pass.attempt_eq (h.spaces_eq s.rest), hs, hp, bind, Except.bind]
  split
  · next he => cases he
  · next he => exact absurd (List.cons.inj he).1 hc
  · rfl

theorem read_line (hs : skipSpace s.rest = c :: text) (hc : c ≠ '[') {id : SectionId}
    (hp : s.progress.current = some id) :
    lib.read options s = lib.readLine options s.progress id (c :: text) := by
  unfold read
  simp only [Pass.attempt_eq (h.spaces_eq s.rest), hs, hp, bind, Except.bind]
  split
  · next he => cases he
  · next he => exact absurd (List.cons.inj he).1 hc
  · rfl

theorem readLine_comment (id : SectionId) (hb : Item.behindWord line = ';' :: rest) :
    lib.readLine options p id line = .ok (.next ⟨p, afterLine rest⟩) := by
  unfold readLine
  simp only [Pass.attempt_eq (h.word_comment hb), bind, Except.bind]
  rfl

/-- A line with a name goes on with what is read behind the name. -/
theorem readLine_name (id : SectionId) (hb : (Item.behindWord line).head? ≠ some ';') {value : Value}
    (hv : lib.value options.quotes (Item.behindWord line) = .ok (rest, value)) :
    lib.readLine options p id line = match value with
      | .missing => .ok (.next ⟨p.skip, rest⟩)
      | .unclosed tail =>
        if options.strict then .error ⟨p.document, tail, .unclosedQuote⟩
        else .ok (.next ⟨p.add (.unclosed tail), rest⟩)
      | .data data => .ok (Pass.enter p id (String.ofList (Item.word line)) (String.ofList data) rest) := by
  unfold readLine
  simp only [Pass.attempt_eq (h.word_name hb), Pass.attempt_eq hv, bind, Except.bind]
  cases value <;> rfl

/-- An item is read and reading goes on behind it, or at the header that ends the item; a quote that is never closed may
be an error. -/
theorem read_of_reads (hp : ∀ id ∈ s.progress.current, ∃ t, s.progress.document.section? id = some t)
    (hr : Item.Reads options.quotes s.progress.current.isSome (skipSpace s.rest) item rest) :
    ((options.strict = true → item.unclosed? = none) ∧
        lib.read options s = .ok (.next ⟨s.progress.add item, rest⟩)) ∨
      (∃ text, text <:+ skipSpace s.rest ∧ rest = Item.toHeader text ∧ item.unclosed? = none ∧
        lib.read options s = .ok (.toHeader ⟨s.progress.add item, text⟩)) ∨
      ∃ tail, item = .unclosed tail ∧ options.strict = true ∧
        lib.read options s = .error ⟨s.progress.document, tail, .unclosedQuote⟩ := by
  generalize hl : skipSpace s.rest = line at hr
  generalize hcurrent : s.progress.current.isSome = inSection at hr
  have hentry : ∀ {c text value}, c ≠ '[' → skipSpace s.rest = c :: text → inSection = true →
      skipBlanks (Item.behindWord (c :: text)) = '=' :: value → ∀ {data rest},
      lib.value options.quotes (Item.behindWord (c :: text)) = .ok (rest, .data data) →
      lib.read options s = .ok (.next ⟨s.progress.addEntry (String.ofList (Item.word (c :: text)))
        (String.ofList data), rest⟩) := by
    intro c text value hc hline hin he data rest hv
    obtain ⟨id, hid⟩ := Option.isSome_iff_exists.1 (hcurrent.trans hin)
    obtain ⟨t, ht⟩ := hp id hid
    rw [h.read_line hline hc hid, h.readLine_name id (head?_ne_of_equals he) hv]
    exact congrArg Except.ok (Pass.enter_eq hid ht _ _ rest)
  cases hr with
  | header hn => exact .inl ⟨fun _ => rfl, (h.read_bracket hl).trans (h.readHeader_named _ hn)⟩
  | @nameless _ text hn =>
    have hread : lib.read options s = _ := (h.read_bracket hl).trans (h.readHeader_nameless s.progress hn)
    exact .inr (.inl ⟨_, (Item.behindHeader_suffix text).trans (List.suffix_cons _ _), rfl, rfl, hread⟩)
  | outside hsp hc =>
    have hnone : s.progress.current = none := by simpa using hcurrent
    exact .inr (.inl ⟨_, List.suffix_refl _, rfl, rfl, h.read_outside hl hc hnone⟩)
  | comment hsp hc hb =>
    obtain ⟨id, hid⟩ := Option.isSome_iff_exists.1 hcurrent
    exact .inl ⟨fun _ => rfl, (h.read_line hl hc hid).trans (h.readLine_comment id hb)⟩
  | noEquals hsp hc hb he =>
    obtain ⟨id, hid⟩ := Option.isSome_iff_exists.1 hcurrent
    exact .inl ⟨fun _ => rfl, (h.read_line hl hc hid).trans (h.readLine_name id hb (h.value_missing he))⟩
  | plain hsp hc he hq => exact .inl ⟨fun _ => rfl, hentry hc hl rfl he (h.value_plain he hq)⟩
  | quoted hsp hc he hq hv hb =>
    exact .inl ⟨fun _ => rfl, hentry hc hl rfl he (hq ▸ h.value_quoted he hv hb)⟩
  | unclosed hsp hc he hq hv hb =>
    obtain ⟨id, hid⟩ := Option.isSome_iff_exists.1 hcurrent
    have hread := (h.read_line hl hc hid).trans
      (h.readLine_name id (head?_ne_of_equals he) (hq ▸ h.value_unclosed he hv hb))
    by_cases hstrict : options.strict = true
    · exact .inr (.inr ⟨_, rfl, hstrict, by simpa [hstrict] using hread⟩)
    · exact .inl ⟨fun hs => absurd hs hstrict, by simpa [hstrict] using hread⟩

end Text.Combinators.Documented

end IniDoc
