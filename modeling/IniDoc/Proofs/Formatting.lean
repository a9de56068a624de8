import IniDoc.Proofs.RoundTrip

/-!
# Formatting twice

Reading bytes and writing them again brings them into the layout of documents. No quote opens in what is written, even
if the bytes had values in quotes, so reading it again gives a canonical document, whose bytes stay as they are.

* `Document.reformatBytes`: reading and writing.
* `Document.reformatBytes_stabilizes`: it fails at an unclosed quote only, and what was written twice stays.
-/

namespace IniDoc

open Text

namespace Document

/-- Reads a document from bytes and writes its bytes. -/
def reformatBytes (id : Nat) (options : Options) (bytes : Bytes) : Except Error Bytes :=
  (ofBytes id options bytes).bind (·.toBytes options.encoding)

variable {id : Nat} {options : Options} {bytes bytes₁ : Bytes} {e : Error}

/-- Reading bytes fails at an unclosed quote only. -/
theorem ofBytes_eq_error (h : ofBytes id options bytes = .error e) :
    options.quotes = true ∧ options.strict = true ∧ ∃ tail,
      .unclosed tail ∈ Item.all options.quotes (options.encoding.decodeChars bytes) ∧
        e = unclosedQuote (options.encoding.decodeChars bytes) tail := by
  rw [ofBytes_eq] at h
  simp only [scanChars] at h
  split at h
  · next tail hs hu =>
    obtain ⟨item, hm, hi⟩ := List.exists_of_findSome?_eq_some hu
    obtain rfl := Item.unclosed?_eq_some_iff.1 hi
    have hq : options.quotes = true := by
      cases hq : options.quotes with
      | true => rfl
      | false =>
        rw [hq, Item.all, Item.findSome?_unclosed?_eq_none] at hu
        cases hu
    exact ⟨hq, hs, tail, hm, (Except.error.inj h).symm⟩
  · cases h

/-- Bytes that can be read can be written, and what is written stands for the text of what was read. -/
theorem exists_toBytes_of_ofBytes {d : Document} (h : ofBytes id options bytes = .ok d) :
    ∃ bytes₁, d.toBytes options.encoding = .ok bytes₁ ∧
      options.encoding.decodeChars bytes₁ = Outline.text d.contents := by
  obtain rfl := eq_of_ofBytes h
  exact exists_toBytes (keeps_ofText id options (options.encoding.keeps_decodeChars bytes))

theorem reformatBytes_eq {d : Document} (h : ofBytes id options bytes = .ok d) :
    reformatBytes id options bytes = d.toBytes options.encoding := by
  rw [reformatBytes, h]
  rfl

/-- A document that can come back from its bytes does not change them when they are written anew. -/
theorem reformatBytes_of_canonical {d : Document} (hd : d.WellFormed) (id : Nat)
    (h : Outline.Canonical options.encoding options.quotes d.contents) :
    ∃ bytes, d.toBytes options.encoding = .ok bytes ∧ reformatBytes id options bytes = .ok bytes := by
  obtain ⟨bytes, d', hb, ho, hc⟩ := exists_ofBytes_of_canonical hd id h
  exact ⟨bytes, hb, by rw [reformatBytes_eq ho, toBytes_congr hc, hb]⟩

/-- Writing what was read fails at an unclosed quote only. Reading and writing it once more never fails, and then it
stays as it is; where quotes mean nothing, it stays as it is the first time already. -/
theorem reformatBytes_stabilizes (id id₁ id₂ : Nat) (options : Options) (bytes : Bytes) :
    (∀ e, reformatBytes id options bytes = .error e → options.quotes = true ∧ options.strict = true ∧ ∃ tail,
      .unclosed tail ∈ Item.all options.quotes (options.encoding.decodeChars bytes) ∧
        e = unclosedQuote (options.encoding.decodeChars bytes) tail) ∧
    ∀ bytes₁, reformatBytes id options bytes = .ok bytes₁ → ∃ bytes₂,
      reformatBytes id₁ options bytes₁ = .ok bytes₂ ∧ reformatBytes id₂ options bytes₂ = .ok bytes₂ ∧
        (options.quotes = false → bytes₁ = bytes₂ ∧ ∃ d d₁, ofBytes id options bytes = .ok d ∧
          ofBytes id₁ options bytes₁ = .ok d₁ ∧ d₁.contents = d.contents) := by
  cases ho : ofBytes id options bytes with
  | error e =>
    have hreformat : reformatBytes id options bytes = .error e := by
      rw [reformatBytes, ho]
      rfl
    rw [hreformat]
    constructor
    · intro e' he
      obtain rfl := Except.error.inj he
      exact ofBytes_eq_error ho
    · intro bytes₁ h
      cases h
  | ok d =>
    obtain ⟨bytes₁, hb, hchars⟩ := exists_toBytes_of_ofBytes ho
    rw [reformatBytes_eq ho, hb]
    constructor
    · intro e h
      cases h
    · rintro _ ⟨⟩
      have hdoc := eq_of_ofBytes ho
      have hd : d.WellFormed := hdoc ▸ wellFormed_ofText id options _
      have hkeeps := options.encoding.keeps_decodeChars bytes₁
      have hfree : options.quotes = true → QuoteFree (Outline.text d.contents) :=
        hdoc ▸ quoteFree_text_ofText id options _
      rw [← hchars] at hfree
      have ho₁ := ofBytes_of_quoteFree id₁ hfree
      obtain ⟨bytes₂, hb₂, hsame⟩ :=
        reformatBytes_of_canonical (wellFormed_ofText id₁ options _) id₂ (canonical_ofText id₁ hfree hkeeps)
      refine ⟨bytes₂, (reformatBytes_eq ho₁).trans hb₂, hsame, ?_⟩
      intro hq
      -- Where quotes mean nothing, what was read first is readable already.
      have hreadable : Outline.Readable options.quotes d.contents :=
        hdoc ▸ (canonical_ofText id (by simp [hq]) (options.encoding.keeps_decodeChars bytes)).1
      have hc : (ofText id₁ options (options.encoding.decodeChars bytes₁)).contents = d.contents := by
        rw [hchars]
        exact contents_ofText_text id₁ (wellFormed_contents hd) hreadable
      have hbytes : bytes₁ = bytes₂ := by
        rw [toBytes_congr hc, hb] at hb₂
        exact Except.ok.inj hb₂
      exact ⟨hbytes, _, _, rfl, ho₁, hc⟩

end Document

end IniDoc
