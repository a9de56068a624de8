import Mathlib.Data.List.Forall2
import IniDoc.Proofs.Sizes

/-!
# Bytes and texts

What bytes are well-formed UTF-8, and what is read where they are not: one replacement character for each longest part
that could still have become a character.

* `Utf8.rows`, `Utf8.Sequence`, `Utf8.WellFormed`: the bytes of characters, by the ranges of their bytes.
* `Utf8.Subpart`, `Utf8.Lossy`: what is replaced, and what bytes read as.
* `Utf8.sequence_cons_iff`: what the decoder knows of a first byte is what the ranges say.
* `Utf8.lossy_iff`, `Utf8.encode_decode_iff`: what the decoder reads, and which bytes it gives back.
* `Encoding.round_trips`: writing behind a buffer, counting, reading back and writing again, in both encodings.
-/

namespace IniDoc.Text.Utf8

/-! ## Well-formed bytes -/

/-- The least and the greatest byte that continues a character. -/
def continuation : Nat × Nat := (0x80, 0xBF)

/-- The bytes of a character, each by the least and the greatest value it can have. -/
def rows : List (List (Nat × Nat)) :=
  [[(0x00, 0x7F)],
    [(0xC2, 0xDF), continuation],
    [(0xE0, 0xE0), (0xA0, 0xBF), continuation],
    [(0xE1, 0xEC), continuation, continuation],
    [(0xED, 0xED), (0x80, 0x9F), continuation],
    [(0xEE, 0xEF), continuation, continuation],
    [(0xF0, 0xF0), (0x90, 0xBF), continuation, continuation],
    [(0xF1, 0xF3), continuation, continuation, continuation],
    [(0xF4, 0xF4), (0x80, 0x8F), continuation, continuation]]

/-- Bytes that are in the ranges of a row, one by one. -/
def Fits (row : List (Nat × Nat)) (bytes : Bytes) : Prop :=
  List.Forall₂ (fun range byte => range.1 ≤ byte.toNat ∧ byte.toNat ≤ range.2) row bytes

/-- The bytes of one character. -/
def Sequence (bytes : Bytes) : Prop := ∃ row ∈ rows, Fits row bytes

/-- The bytes of one character after another. -/
inductive WellFormed : Bytes → Prop
  | nil : WellFormed []
  | append {s rest : Bytes} (hs : Sequence s) (hrest : WellFormed rest) : WellFormed (s ++ rest)

/-! ## Ill-formed bytes -/

/-- Bytes that more bytes can make a character of. -/
def Opening (part : Bytes) : Prop := ∃ more, more ≠ [] ∧ Sequence (part ++ more)

/-- What is replaced in front of the rest: where no character starts, the longest part that could have become one, or
a single byte if none could. -/
structure Subpart (part rest : Bytes) : Prop where
  ne_nil : part ≠ []
  broken : ∀ s, s <+: part ++ rest → ¬Sequence s
  opening : part.length = 1 ∨ Opening part
  longest : ∀ longer, longer <+: part ++ rest → Opening longer → longer.length ≤ part.length

/-- What bytes read as: characters, and a replacement for every part that is none. -/
inductive Lossy : Bytes → List Char → Prop
  | nil : Lossy [] []
  | character (c : Char) {rest : Bytes} {text : List Char} (h : Lossy rest text) :
      Lossy (String.utf8EncodeChar c ++ rest) (c :: text)
  | replaced {part rest : Bytes} {text : List Char} (hpart : Subpart part rest) (h : Lossy rest text) :
      Lossy (part ++ rest) (replacement :: text)

variable {s part part' rest rest' bytes : Bytes} {byte : UInt8} {p : Pending} {text : List Char}

/-! ## The decoder and the ranges -/

theorem fits_nil_iff : Fits [] bytes ↔ bytes = [] := List.forall₂_nil_left_iff

theorem fits_cons_cons_iff {range : Nat × Nat} {row : List (Nat × Nat)} :
    Fits (range :: row) (byte :: bytes) ↔ (range.1 ≤ byte.toNat ∧ byte.toNat ≤ range.2) ∧ Fits row bytes :=
  List.forall₂_cons

theorem not_fits_cons_nil (range : Nat × Nat) (row : List (Nat × Nat)) : ¬Fits (range :: row) [] := nofun

theorem not_sequence_nil : ¬Sequence [] := by
  rintro ⟨row, hrow, hfits⟩
  have hnil := List.forall₂_nil_right_iff.1 hfits
  subst hnil
  revert hrow
  decide

/-- The ranges of the bytes that an unfinished character is still owed. -/
def Pending.row (p : Pending) : List (Nat × Nat) := (p.low, p.high) :: List.replicate (p.owed - 1) continuation

/-- What the decoder makes of a first byte is what the ranges say about it. -/
theorem sequence_cons_iff (byte : UInt8) (rest : Bytes) :
    Sequence (byte :: rest) ↔
      match lead byte.toNat with
      | .ascii => rest = []
      | .opening p => Fits p.row rest
      | .invalid => False := by
  have hrows : Sequence (byte :: rest) ↔
      (byte.toNat ≤ 0x7F ∧ rest = []) ∨
      ((0xC2 ≤ byte.toNat ∧ byte.toNat ≤ 0xDF) ∧ Fits [continuation] rest) ∨
      ((0xE0 ≤ byte.toNat ∧ byte.toNat ≤ 0xE0) ∧ Fits [(0xA0, 0xBF), continuation] rest) ∨
      ((0xE1 ≤ byte.toNat ∧ byte.toNat ≤ 0xEC) ∧ Fits [continuation, continuation] rest) ∨
      ((0xED ≤ byte.toNat ∧ byte.toNat ≤ 0xED) ∧ Fits [(0x80, 0x9F), continuation] rest) ∨
      ((0xEE ≤ byte.toNat ∧ byte.toNat ≤ 0xEF) ∧ Fits [continuation, continuation] rest) ∨
      ((0xF0 ≤ byte.toNat ∧ byte.toNat ≤ 0xF0) ∧ Fits [(0x90, 0xBF), continuation, continuation] rest) ∨
      ((0xF1 ≤ byte.toNat ∧ byte.toNat ≤ 0xF3) ∧ Fits [continuation, continuation, continuation] rest) ∨
      ((0xF4 ≤ byte.toNat ∧ byte.toNat ≤ 0xF4) ∧ Fits [(0x80, 0x8F), continuation, continuation] rest) := by
    simp [Sequence, rows, fits_cons_cons_iff, fits_nil_iff]
  rw [hrows]
  have hlt := byte.toNat_lt
  unfold lead Pending.row
  simp only [continuation]
  grind

/-! ## Sequences are the bytes of characters -/

theorem toNat_ofNat {n : Nat} (hn : n < 256) : (UInt8.ofNat n).toNat = n := UInt8.toNat_ofNat_of_lt' hn

theorem fits_ofNat {low high n : Nat} {row : List (Nat × Nat)} (hn : n < 256) (hl : low ≤ n) (hh : n ≤ high)
    (h : Fits row bytes) : Fits ((low, high) :: row) (UInt8.ofNat n :: bytes) := by
  rw [fits_cons_cons_iff, toNat_ofNat hn]
  exact ⟨⟨hl, hh⟩, h⟩

theorem sequence_codeBytes {v : Nat} (hmax : v ≤ 0x10FFFF) (hs : v < 0xD800 ∨ 0xDFFF < v) : Sequence (codeBytes v) := by
  have hlast : Fits [continuation] [UInt8.ofNat (v % 64 + 0x80)] :=
    fits_ofNat (by omega) (by omega) (by omega) .nil
  have hthird : Fits [continuation, continuation] [UInt8.ofNat (v / 64 % 64 + 0x80), UInt8.ofNat (v % 64 + 0x80)] :=
    fits_ofNat (by omega) (by omega) (by omega) hlast
  unfold codeBytes
  split
  · have hlead : lead v = .ascii := if_pos (by omega)
    rw [sequence_cons_iff, toNat_ofNat (by omega), hlead]
  split
  · rw [sequence_cons_iff, toNat_ofNat (by omega), lead_two (by omega) (by omega)]
    exact hlast
  split
  · obtain ⟨low, high, hlead, hlow, hhigh⟩ := lead_three (by omega) (by omega) hs
    rw [sequence_cons_iff, toNat_ofNat (by omega), hlead]
    exact fits_ofNat (by omega) hlow hhigh hlast
  · obtain ⟨low, high, hlead, hlow, hhigh⟩ := lead_four (by omega) hmax
    rw [sequence_cons_iff, toNat_ofNat (by omega), hlead]
    exact fits_ofNat (by omega) hlow hhigh hthird

theorem sequence_utf8EncodeChar (c : Char) : Sequence (String.utf8EncodeChar c) := by
  obtain ⟨hmax, hs⟩ := code_le c
  exact sequence_codeBytes hmax hs

/-- Bytes that are those of the code point of a character. -/
def IsCodeBytes (bytes : Bytes) : Prop := ∃ v, v ≤ 0x10FFFF ∧ (v < 0xD800 ∨ 0xDFFF < v) ∧ codeBytes v = bytes

theorem isCodeBytes_one {a : UInt8} (ha : a.toNat ≤ 0x7F) : IsCodeBytes [a] := by
  refine ⟨a.toNat, by omega, by omega, ?_⟩
  rw [codeBytes, if_pos ha, UInt8.ofNat_toNat]

theorem isCodeBytes_two {a b : UInt8} (ha : 0xC2 ≤ a.toNat ∧ a.toNat ≤ 0xDF) (hb : 0x80 ≤ b.toNat ∧ b.toNat ≤ 0xBF) :
    IsCodeBytes [a, b] := by
  refine ⟨(a.toNat - 0xC0) * 64 + (b.toNat - 0x80), by omega, by omega, ?_⟩
  generalize hv : (a.toNat - 0xC0) * 64 + (b.toNat - 0x80) = v
  have hfirst : v / 64 % 32 + 0xC0 = a.toNat := by omega
  have hlast : v % 64 + 0x80 = b.toNat := by omega
  rw [codeBytes, if_neg (by omega), if_pos (by omega), hfirst, hlast, UInt8.ofNat_toNat, UInt8.ofNat_toNat]

theorem isCodeBytes_three {a b c : UInt8} (ha : 0xE0 ≤ a.toNat ∧ a.toNat ≤ 0xEF)
    (hb : 0x80 ≤ b.toNat ∧ b.toNat ≤ 0xBF) (hc : 0x80 ≤ c.toNat ∧ c.toNat ≤ 0xBF)
    (hlong : 0xE0 < a.toNat ∨ 0xA0 ≤ b.toNat) (hs : a.toNat ≠ 0xED ∨ b.toNat ≤ 0x9F) : IsCodeBytes [a, b, c] := by
  refine ⟨(a.toNat - 0xE0) * 4096 + (b.toNat - 0x80) * 64 + (c.toNat - 0x80), by omega, by omega, ?_⟩
  generalize hv : (a.toNat - 0xE0) * 4096 + (b.toNat - 0x80) * 64 + (c.toNat - 0x80) = v
  have hfirst : v / 4096 % 16 + 0xE0 = a.toNat := by omega
  have hsecond : v / 64 % 64 + 0x80 = b.toNat := by omega
  have hlast : v % 64 + 0x80 = c.toNat := by omega
  rw [codeBytes, if_neg (by omega), if_neg (by omega), if_pos (by omega), hfirst, hsecond, hlast, UInt8.ofNat_toNat,
    UInt8.ofNat_toNat, UInt8.ofNat_toNat]

theorem isCodeBytes_four {a b c d : UInt8} (ha : 0xF0 ≤ a.toNat ∧ a.toNat ≤ 0xF4)
    (hb : 0x80 ≤ b.toNat ∧ b.toNat ≤ 0xBF) (hc : 0x80 ≤ c.toNat ∧ c.toNat ≤ 0xBF)
    (hd : 0x80 ≤ d.toNat ∧ d.toNat ≤ 0xBF) (hlong : 0xF0 < a.toNat ∨ 0x90 ≤ b.toNat)
    (hmax : a.toNat < 0xF4 ∨ b.toNat ≤ 0x8F) : IsCodeBytes [a, b, c, d] := by
  refine ⟨(a.toNat - 0xF0) * 262144 + (b.toNat - 0x80) * 4096 + (c.toNat - 0x80) * 64 + (d.toNat - 0x80),
    by omega, by omega, ?_⟩
  generalize hv : (a.toNat - 0xF0) * 262144 + (b.toNat - 0x80) * 4096 + (c.toNat - 0x80) * 64 + (d.toNat - 0x80) = v
  have hfirst : v / 262144 % 8 + 0xF0 = a.toNat := by omega
  have hsecond : v / 4096 % 64 + 0x80 = b.toNat := by omega
  have hthird : v / 64 % 64 + 0x80 = c.toNat := by omega
  have hlast : v % 64 + 0x80 = d.toNat := by omega
  rw [codeBytes, if_neg (by omega), if_neg (by omega), if_neg (by omega), hfirst, hsecond, hthird, hlast,
    UInt8.ofNat_toNat, UInt8.ofNat_toNat, UInt8.ofNat_toNat, UInt8.ofNat_toNat]

/-- Bytes in the ranges of a row are neither an overlong form nor a surrogate nor beyond the last code point. -/
theorem isCodeBytes_of_sequence (h : Sequence s) : IsCodeBytes s := by
  obtain ⟨row, hrow, hfits⟩ := h
  simp only [rows, List.mem_cons, List.not_mem_nil, or_false] at hrow
  rcases hrow with rfl | rfl | rfl | rfl | rfl | rfl | rfl | rfl | rfl
  · obtain _ | ⟨ha, _ | _⟩ := hfits
    exact isCodeBytes_one ha.2
  · obtain _ | ⟨ha, _ | ⟨hb, _ | _⟩⟩ := hfits
    exact isCodeBytes_two ha hb
  · obtain _ | ⟨ha, _ | ⟨hb, _ | ⟨hc, _ | _⟩⟩⟩ := hfits
    exact isCodeBytes_three (by omega) (by omega) hc (by omega) (by omega)
  · obtain _ | ⟨ha, _ | ⟨hb, _ | ⟨hc, _ | _⟩⟩⟩ := hfits
    exact isCodeBytes_three (by omega) hb hc (by omega) (by omega)
  · obtain _ | ⟨ha, _ | ⟨hb, _ | ⟨hc, _ | _⟩⟩⟩ := hfits
    exact isCodeBytes_three (by omega) (by omega) hc (by omega) (by omega)
  · obtain _ | ⟨ha, _ | ⟨hb, _ | ⟨hc, _ | _⟩⟩⟩ := hfits
    exact isCodeBytes_three (by omega) hb hc (by omega) (by omega)
  · obtain _ | ⟨ha, _ | ⟨hb, _ | ⟨hc, _ | ⟨hd, _ | _⟩⟩⟩⟩ := hfits
    exact isCodeBytes_four (by omega) (by omega) hc hd (by omega) (by omega)
  · obtain _ | ⟨ha, _ | ⟨hb, _ | ⟨hc, _ | ⟨hd, _ | _⟩⟩⟩⟩ := hfits
    exact isCodeBytes_four (by omega) hb hc hd (by omega) (by omega)
  · obtain _ | ⟨ha, _ | ⟨hb, _ | ⟨hc, _ | ⟨hd, _ | _⟩⟩⟩⟩ := hfits
    exact isCodeBytes_four (by omega) (by omega) hc hd (by omega) (by omega)

/-- The bytes of one character are those that the ranges allow. -/
theorem sequence_iff : Sequence s ↔ ∃ c, s = String.utf8EncodeChar c := by
  constructor
  · intro h
    obtain ⟨v, hmax, hs, rfl⟩ := isCodeBytes_of_sequence h
    have hvalid : v.isValidChar := by
      unfold Nat.isValidChar
      omega
    have hcode : (Char.ofNat v).toNat = v := by
      rw [Char.ofNat, dif_pos hvalid]
      rfl
    exact ⟨Char.ofNat v, by rw [utf8EncodeChar_eq, hcode]⟩
  · rintro ⟨c, rfl⟩
    exact sequence_utf8EncodeChar c

/-! ## What the decoder reads -/

/-- An unfinished character that some bytes complete. -/
structure Pending.Able (p : Pending) : Prop where
  owed : 0 < p.owed
  low_le : p.low ≤ p.high
  high_lt : p.high < 256

theorem able_of_lead {byte : Nat} (h : lead byte = .opening p) : p.Able := by
  unfold lead at h
  constructor <;> grind

theorem Pending.Able.exists_fits (hp : p.Able) : ∃ more, more ≠ [] ∧ Fits p.row more := by
  have htail (n : Nat) : Fits (List.replicate n continuation) (List.replicate n 0x80) := by
    induction n with
    | zero => exact .nil
    | succ n ih => exact .cons (by decide) ih
  exact ⟨_, List.cons_ne_nil _ _, fits_ofNat (Nat.lt_of_le_of_lt hp.low_le hp.high_lt) (Nat.le_refl _) hp.low_le
    (htail _)⟩

/-- What a byte does behind an unfinished character: it is out of range, it is the last one, or more are owed. -/
theorem Pending.Able.byte_cases (hp : p.Able) (byte : UInt8) :
    ((∀ bytes, decodeFrom (some p) (byte :: bytes) = replacement :: decodeFrom none (byte :: bytes)) ∧
      ∀ bytes, ¬Fits p.row (byte :: bytes)) ∨
    (∀ bytes, Fits p.row (byte :: bytes) ↔ bytes = []) ∨
    ∃ q : Pending, q.Able ∧ (∀ bytes, decodeFrom (some p) (byte :: bytes) = decodeFrom (some q) bytes) ∧
      ∀ bytes, Fits p.row (byte :: bytes) ↔ Fits q.row bytes := by
  by_cases hrange : p.low ≤ byte.toNat ∧ byte.toNat ≤ p.high
  · obtain ⟨bits, owed, low, high⟩ := p
    obtain _ | _ | owed := owed
    · exact absurd hp.owed (Nat.lt_irrefl 0)
    · refine .inr (.inl fun bytes => ?_)
      rw [Pending.row, fits_cons_cons_iff, and_iff_right hrange]
      exact fits_nil_iff
    · refine .inr (.inr ⟨⟨bits * 64 + (byte.toNat - 0x80), owed + 1, 0x80, 0xBF⟩, ?_, fun bytes => ?_,
        fun bytes => ?_⟩)
      · exact ⟨Nat.succ_pos owed, (by decide : 0x80 ≤ 0xBF), (by decide : 0xBF < 0x100)⟩
      · simp [decodeFrom, step, hrange]
      · rw [Pending.row, fits_cons_cons_iff, and_iff_right hrange]
        rfl
  · refine .inl ⟨fun bytes => ?_, fun bytes h => hrange (fits_cons_cons_iff.1 h).1⟩
    rw [decodeFrom, step]
    simp only [hrange, if_false]
    rfl

/-- Bytes that more bytes can bring into a language. -/
def Begins (L : Bytes → Prop) (part : Bytes) : Prop := ∃ more, more ≠ [] ∧ L (part ++ more)

/-- The longest part in front of the rest that can begin something of a language, where nothing of it stands. -/
structure Cut (L : Bytes → Prop) (part rest : Bytes) : Prop where
  broken : ∀ s, s <+: part ++ rest → ¬L s
  begins : Begins L part
  longest : ∀ longer, longer <+: part ++ rest → Begins L longer → longer.length ≤ part.length

/-- A byte in front, when the language behind it is known. -/
theorem Cut.cons {L M : Bytes → Prop} (hnil : ¬L []) (hL : ∀ bytes, L (byte :: bytes) ↔ M bytes)
    (h : Cut M part rest) : Cut L (byte :: part) rest where
  broken s hs hmem := by
    rcases List.prefix_cons_iff.1 hs with rfl | ⟨t, rfl, ht⟩
    · exact hnil hmem
    · exact h.broken t ht ((hL t).1 hmem)
  begins := by
    obtain ⟨more, hmore, hmem⟩ := h.begins
    exact ⟨more, hmore, (hL _).2 hmem⟩
  longest longer hlonger hbegins := by
    rcases List.prefix_cons_iff.1 hlonger with rfl | ⟨t, rfl, ht⟩
    · exact Nat.zero_le _
    · obtain ⟨more, hmore, hmem⟩ := hbegins
      exact Nat.succ_le_succ (h.longest t ht ⟨more, hmore, (hL _).1 hmem⟩)

section NothingStarts

variable {L : Bytes → Prop} (hout : ∀ t, ¬L (byte :: t))

include hout

theorem notMem_of_prefix (hnil : ¬L []) (hs : s <+: byte :: bytes) : ¬L s := by
  rcases List.prefix_cons_iff.1 hs with rfl | ⟨t, rfl, -⟩
  · exact hnil
  · exact hout t

theorem eq_nil_of_begins (hs : s <+: byte :: bytes) (hbegins : Begins L s) : s = [] := by
  rcases List.prefix_cons_iff.1 hs with rfl | ⟨t, rfl, -⟩
  · rfl
  · obtain ⟨more, -, hmem⟩ := hbegins
    exact absurd hmem (hout _)

end NothingStarts

/-- Behind an unfinished character either come the bytes that it is owed, or the decoder replaces it together with those
of the next bytes that could still have belonged to it. -/
theorem Pending.Able.cases_decodeFrom (hp : p.Able) (bytes : Bytes) :
    (∃ whole rest, bytes = whole ++ rest ∧ Fits p.row whole) ∨
      ∃ part rest, bytes = part ++ rest ∧ Cut (Fits p.row) part rest ∧
        decodeFrom (some p) bytes = replacement :: decodeFrom none rest := by
  have hnil : ¬Fits p.row [] := not_fits_cons_nil _ _
  -- The induction follows the decoder: a byte in range leaves an unfinished character that is owed one byte less.
  induction bytes generalizing p with
  | nil =>
    refine .inr ⟨[], [], rfl, ⟨fun s hs => ?_, hp.exists_fits, fun longer hlonger _ => hlonger.length_le⟩, rfl⟩
    rw [List.prefix_nil.1 hs]
    exact hnil
  | cons byte bytes ih =>
    rcases hp.byte_cases byte with ⟨hread, hout⟩ | hlast | ⟨q, hq, hread, hnext⟩
    · refine .inr ⟨[], byte :: bytes, rfl, ⟨?_, hp.exists_fits, ?_⟩, hread bytes⟩
      · intro s hs
        exact notMem_of_prefix hout hnil hs
      · intro longer hlonger hbegins
        rw [eq_nil_of_begins hout hlonger hbegins]
    · exact .inl ⟨[byte], bytes, rfl, (hlast []).2 rfl⟩
    · rcases ih hq (not_fits_cons_nil _ _) with ⟨whole, rest, rfl, hwhole⟩ | ⟨part, rest, rfl, hcut, hrest⟩
      · exact .inl ⟨byte :: whole, rest, rfl, (hnext whole).2 hwhole⟩
      · exact .inr ⟨byte :: part, rest, rfl, hcut.cons hnil hnext, (hread _).trans hrest⟩

/-- Where bytes are left, either a character starts, or the decoder replaces what cannot become one. -/
theorem cases_decode (h : bytes ≠ []) :
    (∃ c rest, bytes = String.utf8EncodeChar c ++ rest) ∨
      ∃ part rest, bytes = part ++ rest ∧ Subpart part rest ∧ decode bytes = replacement :: decode rest := by
  obtain ⟨byte, bytes, rfl⟩ := List.exists_cons_of_ne_nil h
  have hseq := sequence_cons_iff byte
  have hread : decode (byte :: bytes) = (start byte.toNat).1 ++ decodeFrom (start byte.toNat).2 bytes := rfl
  cases hlead : lead byte.toNat with
  | ascii =>
    obtain ⟨c, hc⟩ := sequence_iff.1 ((hseq []).2 (by rw [hlead]))
    exact .inl ⟨c, bytes, by rw [← hc]; rfl⟩
  | invalid =>
    simp only [hlead, iff_false] at hseq
    refine .inr ⟨[byte], bytes, rfl, ⟨List.cons_ne_nil _ _, ?_, .inl rfl, ?_⟩, ?_⟩
    · intro s hs
      exact notMem_of_prefix hseq not_sequence_nil hs
    · intro longer hlonger hbegins
      rw [eq_nil_of_begins hseq hlonger hbegins]
      exact Nat.zero_le _
    · rw [hread, start, hlead]
      rfl
  | opening p =>
    simp only [hlead] at hseq
    rcases (able_of_lead hlead).cases_decodeFrom bytes with ⟨whole, rest, rfl, hwhole⟩ | ⟨part, rest, rfl, hcut, hrest⟩
    · obtain ⟨c, hc⟩ := sequence_iff.1 ((hseq whole).2 hwhole)
      exact .inl ⟨c, rest, by rw [← hc]; rfl⟩
    · obtain ⟨hbroken, hbegins, hlongest⟩ := hcut.cons not_sequence_nil hseq
      refine .inr ⟨byte :: part, rest, rfl, ⟨List.cons_ne_nil _ _, hbroken, .inr hbegins, hlongest⟩, ?_⟩
      rw [hread, start, hlead]
      exact hrest

/-- What is replaced is determined. -/
theorem Subpart.unique (h : Subpart part rest) (h' : Subpart part' rest') (heq : part ++ rest = part' ++ rest') :
    part = part' ∧ rest = rest' := by
  refine List.append_inj heq (Nat.le_antisymm ?_ ?_)
  · rcases h.opening with hone | hopening
    · rw [hone]
      exact List.length_pos_iff.2 h'.ne_nil
    · exact h'.longest part (heq ▸ List.prefix_append part rest) hopening
  · rcases h'.opening with hone | hopening
    · rw [hone]
      exact List.length_pos_iff.2 h.ne_nil
    · exact h.longest part' (heq ▸ List.prefix_append part' rest') hopening

theorem decode_of_lossy (h : Lossy bytes text) : decode bytes = text := by
  induction h with
  | nil => rfl
  | character c _ ih => exact (decodeFrom_utf8EncodeChar c _).trans (congrArg _ ih)
  | @replaced part rest text hpart _ ih =>
    have hne : part ++ rest ≠ [] := fun hnil => hpart.ne_nil (List.append_eq_nil_iff.1 hnil).1
    rcases cases_decode hne with ⟨c, rest', heq⟩ | ⟨part', rest', heq, hpart', hread⟩
    · exact absurd (sequence_utf8EncodeChar c) (hpart.broken _ (heq ▸ List.prefix_append _ rest'))
    · rw [hread, ← (hpart.unique hpart' heq).2, ih]

theorem length_lt_append (h : part ≠ []) (rest : Bytes) : rest.length < (part ++ rest).length := by
  rw [List.length_append]
  exact Nat.lt_add_of_pos_left (List.length_pos_iff.2 h)

theorem lossy_decode (bytes : Bytes) : Lossy bytes (decode bytes) := by
  -- No part that is read is empty, whether it is a character or replaced.
  induction hn : bytes.length using Nat.strong_induction_on generalizing bytes with
  | h n ih =>
    subst hn
    by_cases hnil : bytes = []
    · rw [hnil]
      exact .nil
    rcases cases_decode hnil with ⟨c, rest, rfl⟩ | ⟨part, rest, rfl, hpart, hread⟩
    · have hread : decode (String.utf8EncodeChar c ++ rest) = c :: decode rest := decodeFrom_utf8EncodeChar c rest
      rw [hread]
      have hne : String.utf8EncodeChar c ≠ [] := fun heq => not_sequence_nil (heq ▸ sequence_utf8EncodeChar c)
      exact .character c (ih _ (length_lt_append hne rest) rest rfl)
    · rw [hread]
      exact .replaced hpart (ih _ (length_lt_append hpart.ne_nil rest) rest rfl)

/-- The decoder reads what bytes read as. -/
theorem lossy_iff : Lossy bytes text ↔ decode bytes = text := by
  constructor
  · exact decode_of_lossy
  · rintro rfl
    exact lossy_decode bytes

theorem wellFormed_encode (text : List Char) : WellFormed (encode text) := by
  induction text with
  | nil => exact .nil
  | cons c text ih => exact .append (sequence_utf8EncodeChar c) ih

/-- Bytes are given back if and only if they are well formed. -/
theorem encode_decode_iff : encode (decode bytes) = bytes ↔ WellFormed bytes := by
  constructor
  · intro h
    exact h ▸ wellFormed_encode (decode bytes)
  · intro h
    induction h with
    | nil => rfl
    | @append s rest hs _ ih =>
      obtain ⟨c, rfl⟩ := sequence_iff.1 hs
      have hread : decode (String.utf8EncodeChar c ++ rest) = c :: decode rest := decodeFrom_utf8EncodeChar c rest
      rw [hread]
      exact congrArg (String.utf8EncodeChar c ++ ·) ih

instance (bytes : Bytes) : Decidable (WellFormed bytes) := decidable_of_iff _ encode_decode_iff

end IniDoc.Text.Utf8

namespace IniDoc.Text.Encoding

open Utf8 (Lossy WellFormed)

variable {encoding : Encoding} {bytes : Bytes}

theorem toList_decode (encoding : Encoding) (h : 0 ∉ bytes) :
    (encoding.decode bytes).toList =
      match encoding with
      | latin1 => bytes.map fun byte => Char.ofNat byte.toNat
      | utf8 => Utf8.decode bytes := by
  have hall : beforeZero bytes = bytes := beforeZero_eq fun byte hb heq => h (heq ▸ hb)
  rw [decode, String.toList_ofList]
  cases encoding <;> rw [decodeChars, hall]

theorem latin1Byte_ofNat (byte : UInt8) : latin1Byte (Char.ofNat byte.toNat) = .ok byte := by
  have hlt := byte.toNat_lt
  have hcode : (Char.ofNat byte.toNat).toNat = byte.toNat := by
    rw [Char.ofNat, dif_pos (.inl (by omega))]
    rfl
  rw [latin1Byte, hcode, if_pos hlt, UInt8.ofNat_toNat]

theorem mapM_latin1Byte_ofNat (bytes : Bytes) :
    (bytes.map fun byte => Char.ofNat byte.toNat).mapM latin1Byte = .ok bytes := by
  induction bytes with
  | nil => rfl
  | cons byte bytes ih =>
    rw [List.map_cons, List.mapM_cons, latin1Byte_ofNat, ih]
    rfl

/-- Decoded bytes can be encoded again. They are given back in Latin-1, and where they are well-formed UTF-8. -/
theorem exists_encode_decode (encoding : Encoding) (h : 0 ∉ bytes) :
    ∃ again, encoding.encode (encoding.decode bytes) = .ok again ∧
      (again = bytes ↔ encoding = .latin1 ∨ WellFormed bytes) := by
  have hchars := toList_decode encoding h
  cases encoding with
  | latin1 =>
    refine ⟨bytes, ?_, by simp⟩
    rw [encode_latin1, hchars]
    exact mapM_latin1Byte_ofNat bytes
  | utf8 =>
    refine ⟨Utf8.encode (Utf8.decode bytes), ?_, ?_⟩
    · rw [encode_utf8, hchars]
    · simp [Utf8.encode_decode_iff]

/-- Text and bytes in both encodings. A text is written and counted unless it has a character that the encoding lacks;
then the first one is reported, and the buffer is what it was. Without a zero character, what is written reads as the
text. Bytes without a zero byte always read as a text that can be written again: as the same bytes in Latin-1, and in
UTF-8 if and only if they are well formed. What is read in UTF-8 is the characters, with one replacement for every
longest part that is none. -/
theorem round_trips (encoding : Encoding) :
    (∀ (buffer : Array UInt8) (text : String),
      (∀ c, text.toList.find? encoding.lacks = some c →
        encoding.encodedLength text = .error (.unencodable c) ∧
        encoding.encodeOnto buffer text = (.error (.unencodable c), buffer)) ∧
      (text.toList.find? encoding.lacks = none →
        ∃ bytes, encoding.encode text = .ok bytes ∧ encoding.encodedLength text = .ok bytes.length ∧
          encoding.encodeOnto buffer text = (.ok (), buffer ++ bytes) ∧
          ('\x00' ∉ text.toList → encoding.decode bytes = text))) ∧
    ∀ bytes : Bytes, 0 ∉ bytes →
      (∃ again, encoding.encode (encoding.decode bytes) = .ok again ∧
        (again = bytes ↔ encoding = .latin1 ∨ WellFormed bytes)) ∧
      ∀ text, encoding = .utf8 → (Lossy bytes text ↔ (encoding.decode bytes).toList = text) := by
  refine ⟨fun buffer text => ⟨fun c hc => ?_, fun hnone => ?_⟩, fun bytes h => ⟨exists_encode_decode encoding h, ?_⟩⟩
  · rw [encodedLength_eq_checked, encodeOnto_eq, encode_eq_checked, checked, checked, hc]
    exact ⟨rfl, rfl⟩
  · have hbytes : encoding.encode text = .ok (encoding.bytes text.toList) := by
      rw [encode_eq_checked, checked, hnone]
    refine ⟨_, hbytes, ?_, ?_, fun hnul => ?_⟩
    · rw [encodedLength_eq_checked, checked, hnone]
      rfl
    · rw [encodeOnto_eq, hbytes]
    · have hkeeps : encoding.Keeps text.toList := by
        intro c hc
        refine ⟨fun heq => hnul (heq ▸ hc), ?_⟩
        rintro rfl
        have hhas := List.find?_eq_none.1 hnone c hc
        rw [lacks, decide_eq_true_eq] at hhas
        omega
      obtain ⟨bytes, hencode, hdecode⟩ := exists_encode hkeeps
      cases hbytes.symm.trans hencode
      rw [decode, hdecode, String.ofList_toList]
  · rintro text rfl
    rw [Utf8.lossy_iff, toList_decode utf8 h]

/-- A sequence that breaks off is replaced as a whole, a byte that starts nothing for itself, and neither is given
back. -/
theorem round_trips_truncated :
    let bytes : Bytes := [0x61, 0xE2, 0x82, 0xFF]
    Lossy bytes ['a', '\uFFFD', '\uFFFD'] ∧ ¬WellFormed bytes ∧
      ∃ again, encode utf8 (decode utf8 bytes) = .ok again ∧ again ≠ bytes ∧
        encodeOnto latin1 #[0x78] "é€" = (.error (.unencodable '€'), #[0x78]) := by
  intro bytes
  obtain ⟨hwritten, hread⟩ := round_trips utf8
  obtain ⟨⟨again, hagain, hback⟩, hlossy⟩ := hread bytes (by decide)
  have hbad : ¬WellFormed bytes := by decide +kernel
  refine ⟨(hlossy _ rfl).2 (by decide +kernel), hbad, again, hagain, by simpa [hbad] using hback, ?_⟩
  exact (((round_trips latin1).1 #[0x78] "é€").1 '€' (by decide +kernel)).2

end IniDoc.Text.Encoding
