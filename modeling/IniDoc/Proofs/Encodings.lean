import Mathlib.Data.List.TakeWhile
import IniDoc.Text.Encoding

/-!
# Encodings and back

Which texts an encoding keeps: those that decoding gives back after encoding.

* `Encoding.encodeOnto_eq`: either all bytes of a text are written behind what is in a buffer, or nothing is.
* `Encoding.Keeps`: no character is the zero character, and each is one of the encoding's.
* `Encoding.exists_encode`: a text that is kept can be encoded, and decoding gives it back.
* `Encoding.keeps_decodeChars`: every text that was decoded is kept.
-/

namespace IniDoc.Text

theorem toNat_pos {c : Char} (h : c ≠ '\x00') : 0 < c.toNat := by
  by_contra hz
  have hzero : c.toNat = 0 := by omega
  exact h (by rw [← Char.ofNat_toNat c, hzero])

namespace Utf8

/-! ## Decoding what was encoded -/

variable {byte v : Nat} {p : Pending}

theorem decodeFrom_ascii (hb : byte < 0x80) (rest : Bytes) :
    decodeFrom none (UInt8.ofNat byte :: rest) = Char.ofNat byte :: decodeFrom none rest := by
  have hn : (UInt8.ofNat byte).toNat = byte := UInt8.toNat_ofNat_of_lt' (Nat.lt_trans hb (by decide))
  simp [decodeFrom, step, start, lead, hn, hb]

theorem decodeFrom_opening (hb : byte < 256) (h : lead byte = .opening p) (rest : Bytes) :
    decodeFrom none (UInt8.ofNat byte :: rest) = decodeFrom (some p) rest := by
  have hn : (UInt8.ofNat byte).toNat = byte := UInt8.toNat_ofNat_of_lt' hb
  simp [decodeFrom, step, start, hn, h]

theorem decodeFrom_next {bits owed low high : Nat} (hb : byte < 256) (hl : low ≤ byte) (hh : byte ≤ high)
    (rest : Bytes) :
    decodeFrom (some ⟨bits, owed + 2, low, high⟩) (UInt8.ofNat byte :: rest) =
      decodeFrom (some ⟨bits * 64 + (byte - 0x80), owed + 1, 0x80, 0xBF⟩) rest := by
  have hn : (UInt8.ofNat byte).toNat = byte := UInt8.toNat_ofNat_of_lt' hb
  simp [decodeFrom, step, hn, hl, hh]

theorem decodeFrom_last {bits low high : Nat} (hb : byte < 256) (hl : low ≤ byte) (hh : byte ≤ high) (rest : Bytes) :
    decodeFrom (some ⟨bits, 1, low, high⟩) (UInt8.ofNat byte :: rest) =
      Char.ofNat (bits * 64 + (byte - 0x80)) :: decodeFrom none rest := by
  have hn : (UInt8.ofNat byte).toNat = byte := UInt8.toNat_ofNat_of_lt' hb
  simp [decodeFrom, step, hn, hl, hh]

/-- The first byte of two. -/
theorem lead_two (hl : 0x80 ≤ v) (hh : v ≤ 0x7FF) : lead (v / 64 % 32 + 0xC0) = .opening ⟨v / 64, 1, 0x80, 0xBF⟩ := by
  have hbits : v / 64 % 32 + 0xC0 - 0xC0 = v / 64 := by omega
  rw [lead, if_neg (by omega), if_neg (by omega), if_pos (by omega), hbits]

/-- The first byte of three. The second one is in the range that it asks for, as the code point is no surrogate. -/
theorem lead_three (hl : 0x800 ≤ v) (hh : v ≤ 0xFFFF) (hs : v < 0xD800 ∨ 0xDFFF < v) :
    ∃ low high, lead (v / 4096 % 16 + 0xE0) = .opening ⟨v / 4096, 2, low, high⟩ ∧
      low ≤ v / 64 % 64 + 0x80 ∧ v / 64 % 64 + 0x80 ≤ high := by
  have hbits : v / 4096 % 16 + 0xE0 - 0xE0 = v / 4096 := by omega
  rw [lead, if_neg (by omega), if_neg (by omega), if_neg (by omega)]
  by_cases h0 : v / 4096 = 0
  · rw [if_pos (by omega), h0]
    exact ⟨_, _, rfl, by omega, by omega⟩
  · rw [if_neg (by omega)]
    by_cases hd : v / 4096 = 0xD
    · rw [if_pos (by omega), hd]
      exact ⟨_, _, rfl, by omega, by omega⟩
    · rw [if_neg (by omega), if_pos (by omega), hbits]
      exact ⟨_, _, rfl, by omega, by omega⟩

/-- The first byte of four. -/
theorem lead_four (hl : 0x10000 ≤ v) (hh : v ≤ 0x10FFFF) :
    ∃ low high, lead (v / 262144 % 8 + 0xF0) = .opening ⟨v / 262144, 3, low, high⟩ ∧
      low ≤ v / 4096 % 64 + 0x80 ∧ v / 4096 % 64 + 0x80 ≤ high := by
  have hbits : v / 262144 % 8 + 0xF0 - 0xF0 = v / 262144 := by omega
  rw [lead, if_neg (by omega), if_neg (by omega), if_neg (by omega), if_neg (by omega), if_neg (by omega),
    if_neg (by omega)]
  by_cases h0 : v / 262144 = 0
  · rw [if_pos (by omega), h0]
    exact ⟨_, _, rfl, by omega, by omega⟩
  · rw [if_neg (by omega)]
    by_cases h4 : v / 262144 = 4
    · rw [if_neg (by omega), if_pos (by omega), h4]
      exact ⟨_, _, rfl, by omega, by omega⟩
    · rw [if_pos (by omega), hbits]
      exact ⟨_, _, rfl, by omega, by omega⟩

/-- The bytes of a code point. -/
def codeBytes (v : Nat) : Bytes :=
  if v ≤ 0x7F then [UInt8.ofNat v]
  else if v ≤ 0x7FF then [UInt8.ofNat (v / 64 % 32 + 0xC0), UInt8.ofNat (v % 64 + 0x80)]
  else if v ≤ 0xFFFF then
    [UInt8.ofNat (v / 4096 % 16 + 0xE0), UInt8.ofNat (v / 64 % 64 + 0x80), UInt8.ofNat (v % 64 + 0x80)]
  else [UInt8.ofNat (v / 262144 % 8 + 0xF0), UInt8.ofNat (v / 4096 % 64 + 0x80), UInt8.ofNat (v / 64 % 64 + 0x80),
    UInt8.ofNat (v % 64 + 0x80)]

theorem utf8EncodeChar_eq (c : Char) : String.utf8EncodeChar c = codeBytes c.toNat := rfl

theorem decodeFrom_codeBytes (hmax : v ≤ 0x10FFFF) (hs : v < 0xD800 ∨ 0xDFFF < v) (rest : Bytes) :
    decodeFrom none (codeBytes v ++ rest) = Char.ofNat v :: decodeFrom none rest := by
  unfold codeBytes
  split
  · exact decodeFrom_ascii (by omega) rest
  split
  · have hv : v / 64 * 64 + (v % 64 + 0x80 - 0x80) = v := by omega
    rw [List.cons_append, List.singleton_append, decodeFrom_opening (by omega) (lead_two (by omega) (by omega)),
      decodeFrom_last (by omega) (by omega) (by omega), hv]
  split
  · obtain ⟨low, high, hlead, hlow, hhigh⟩ := lead_three (v := v) (by omega) (by omega) hs
    have hv : (v / 4096 * 64 + (v / 64 % 64 + 0x80 - 0x80)) * 64 + (v % 64 + 0x80 - 0x80) = v := by omega
    rw [List.cons_append, List.cons_append, List.singleton_append, decodeFrom_opening (by omega) hlead,
      decodeFrom_next (by omega) hlow hhigh, decodeFrom_last (by omega) (by omega) (by omega), hv]
  · obtain ⟨low, high, hlead, hlow, hhigh⟩ := lead_four (v := v) (by omega) hmax
    have hv : ((v / 262144 * 64 + (v / 4096 % 64 + 0x80 - 0x80)) * 64 + (v / 64 % 64 + 0x80 - 0x80)) * 64 +
        (v % 64 + 0x80 - 0x80) = v := by omega
    rw [List.cons_append, List.cons_append, List.cons_append, List.singleton_append,
      decodeFrom_opening (by omega) hlead, decodeFrom_next (by omega) hlow hhigh,
      decodeFrom_next (by omega) (by omega) (by omega), decodeFrom_last (by omega) (by omega) (by omega), hv]

/-- The code point of a character is no surrogate and not beyond the last one. -/
theorem code_le (c : Char) : c.toNat ≤ 0x10FFFF ∧ (c.toNat < 0xD800 ∨ 0xDFFF < c.toNat) := by
  have hvalid : c.toNat < 0xD800 ∨ 0xDFFF < c.toNat ∧ c.toNat < 0x110000 := c.valid
  omega

/-- The bytes of a character read as the character. -/
theorem decodeFrom_utf8EncodeChar (c : Char) (rest : Bytes) :
    decodeFrom none (String.utf8EncodeChar c ++ rest) = c :: decodeFrom none rest := by
  obtain ⟨hmax, hs⟩ := code_le c
  rw [utf8EncodeChar_eq, decodeFrom_codeBytes hmax hs, Char.ofNat_toNat]

theorem decode_encode (text : List Char) : decode (encode text) = text := by
  induction text with
  | nil => rfl
  | cons c text ih => exact (decodeFrom_utf8EncodeChar c (encode text)).trans (congrArg _ ih)

theorem ofNat_ne_zero {byte : Nat} (hp : 0 < byte) (hb : byte < 256) : UInt8.ofNat byte ≠ 0 := by
  intro h
  have hzero : (UInt8.ofNat byte).toNat = 0 := congrArg UInt8.toNat h
  rw [UInt8.toNat_ofNat_of_lt' hb] at hzero
  omega

theorem ne_zero_of_mem_codeBytes (hv : 0 < v) (hmax : v ≤ 0x10FFFF) : ∀ byte ∈ codeBytes v, byte ≠ 0 := by
  unfold codeBytes
  split
  · simpa using ofNat_ne_zero hv (by omega)
  have hlast : UInt8.ofNat (v % 64 + 0x80) ≠ 0 := ofNat_ne_zero (by omega) (by omega)
  have hthird : UInt8.ofNat (v / 64 % 64 + 0x80) ≠ 0 := ofNat_ne_zero (by omega) (by omega)
  have hsecond : UInt8.ofNat (v / 4096 % 64 + 0x80) ≠ 0 := ofNat_ne_zero (by omega) (by omega)
  split
  · have hfirst : UInt8.ofNat (v / 64 % 32 + 0xC0) ≠ 0 := ofNat_ne_zero (by omega) (by omega)
    simp only [List.forall_mem_cons]
    exact ⟨hfirst, hlast, by simp⟩
  split
  · have hfirst : UInt8.ofNat (v / 4096 % 16 + 0xE0) ≠ 0 := ofNat_ne_zero (by omega) (by omega)
    simp only [List.forall_mem_cons]
    exact ⟨hfirst, hthird, hlast, by simp⟩
  · have hfirst : UInt8.ofNat (v / 262144 % 8 + 0xF0) ≠ 0 := ofNat_ne_zero (by omega) (by omega)
    simp only [List.forall_mem_cons]
    exact ⟨hfirst, hsecond, hthird, hlast, by simp⟩

/-- Only the zero character has a zero byte. -/
theorem ne_zero_of_mem_encode {text : List Char} (h : ∀ c ∈ text, c ≠ '\x00') : ∀ byte ∈ encode text, byte ≠ 0 := by
  intro byte hb
  obtain ⟨c, hc, hb⟩ := List.mem_flatMap.1 hb
  rw [utf8EncodeChar_eq] at hb
  exact ne_zero_of_mem_codeBytes (toNat_pos (h c hc)) (code_le c).1 byte hb

/-! ## Decoded texts have no zero character -/

/-- The number of a character other than the zero character: no surrogate and not beyond the last one. -/
def IsCode (v : Nat) : Prop := 0 < v ∧ (v < 0xD800 ∨ 0xDFFF < v ∧ v < 0x110000)

/-- Whatever bytes complete the character, it is not the zero character. -/
inductive Pending.Sound : Pending → Prop
  | last {bits low high : Nat} (h : ∀ byte, low ≤ byte → byte ≤ high → IsCode (bits * 64 + (byte - 0x80))) :
      Sound ⟨bits, 1, low, high⟩
  | next {bits owed low high : Nat} (h : ∀ byte, low ≤ byte → byte ≤ high →
      Sound ⟨bits * 64 + (byte - 0x80), owed + 1, 0x80, 0xBF⟩) : Sound ⟨bits, owed + 2, low, high⟩

theorem Pending.Sound.of_three {bits low high : Nat} (h : ∀ second last, low ≤ second → second ≤ high →
    0x80 ≤ last → last ≤ 0xBF → IsCode ((bits * 64 + (second - 0x80)) * 64 + (last - 0x80))) :
    Pending.Sound ⟨bits, 2, low, high⟩ := by
  apply Sound.next
  intro second hl hh
  apply Sound.last
  intro last hl' hh'
  exact h second last hl hh hl' hh'

theorem Pending.Sound.of_four {bits low high : Nat} (h : ∀ second third last, low ≤ second → second ≤ high →
    0x80 ≤ third → third ≤ 0xBF → 0x80 ≤ last → last ≤ 0xBF →
      IsCode (((bits * 64 + (second - 0x80)) * 64 + (third - 0x80)) * 64 + (last - 0x80))) :
    Pending.Sound ⟨bits, 3, low, high⟩ := by
  apply Sound.next
  intro second hl hh
  apply Sound.of_three
  intro third last hl' hh' hl'' hh''
  exact h second third last hl hh hl' hh' hl'' hh''

/-- What a first byte can be. The ranges of the second byte leave out what is no code point. -/
theorem lead_cases (byte : Nat) :
    (lead byte = .ascii ∧ byte < 0x80) ∨ lead byte = .invalid ∨ ∃ p, lead byte = .opening p ∧ p.Sound := by
  unfold lead
  by_cases h1 : byte < 0x80
  · exact .inl ⟨if_pos h1, h1⟩
  by_cases h2 : byte < 0xC2
  · exact .inr (.inl (by rw [if_neg h1, if_pos h2]))
  rw [if_neg h1, if_neg h2]
  by_cases h3 : byte < 0xE0
  · refine .inr (.inr ⟨_, if_pos h3, .last ?_⟩)
    intro last hl hh
    unfold IsCode
    omega
  by_cases h4 : byte = 0xE0
  · refine .inr (.inr ⟨_, by rw [if_neg h3, if_pos h4], .of_three ?_⟩)
    intro second last hl hh hl' hh'
    unfold IsCode
    omega
  rw [if_neg h3, if_neg h4]
  by_cases h5 : byte = 0xED
  · refine .inr (.inr ⟨_, if_pos h5, .of_three ?_⟩)
    intro second last hl hh hl' hh'
    unfold IsCode
    omega
  by_cases h6 : byte < 0xF0
  · refine .inr (.inr ⟨_, by rw [if_neg h5, if_pos h6], .of_three ?_⟩)
    intro second last hl hh hl' hh'
    unfold IsCode
    omega
  rw [if_neg h5, if_neg h6]
  by_cases h7 : byte = 0xF0
  · refine .inr (.inr ⟨_, if_pos h7, .of_four ?_⟩)
    intro second third last hl hh hl' hh' hl'' hh''
    unfold IsCode
    omega
  by_cases h8 : byte < 0xF4
  · refine .inr (.inr ⟨_, by rw [if_neg h7, if_pos h8], .of_four ?_⟩)
    intro second third last hl hh hl' hh' hl'' hh''
    unfold IsCode
    omega
  rw [if_neg h7, if_neg h8]
  by_cases h9 : byte = 0xF4
  · refine .inr (.inr ⟨_, if_pos h9, .of_four ?_⟩)
    intro second third last hl hh hl' hh' hl'' hh''
    unfold IsCode
    omega
  · exact .inr (.inl (if_neg h9))

theorem ofNat_ne_nul (h : IsCode v) : Char.ofNat v ≠ '\x00' := by
  obtain ⟨hpos, hvalid⟩ := h
  intro hz
  have hzero : (Char.ofNat v).toNat = 0 := congrArg Char.toNat hz
  rw [Char.ofNat, dif_pos hvalid] at hzero
  change v = 0 at hzero
  omega

/-- A byte that is not zero and starts a character brings no zero character. -/
theorem nul_notMem_start {byte : Nat} (hb : byte ≠ 0) :
    '\x00' ∉ (start byte).1 ∧ ∀ p ∈ (start byte).2, p.Sound := by
  rcases lead_cases byte with ⟨h, hlt⟩ | h | ⟨p, h, hp⟩
  · have hcode : IsCode byte := by
      unfold IsCode
      omega
    have := ofNat_ne_nul hcode
    rw [start, h]
    exact ⟨by simpa using this.symm, by simp⟩
  · rw [start, h]
    exact ⟨by simp [replacement], by simp⟩
  · rw [start, h]
    exact ⟨by simp, by simpa using hp⟩

/-- A byte that is not zero brings no zero character, whatever stands before it. -/
theorem nul_notMem_step {pending : Option Pending} {byte : Nat} (hp : ∀ p ∈ pending, p.Sound) (hb : byte ≠ 0) :
    '\x00' ∉ (step pending byte).1 ∧ ∀ p ∈ (step pending byte).2, p.Sound := by
  obtain ⟨hchars, hnext⟩ := nul_notMem_start hb
  cases pending with
  | none => exact ⟨hchars, hnext⟩
  | some p =>
    unfold step
    simp only
    split
    · next hrange =>
      cases hp p rfl with
      | last h =>
        have := ofNat_ne_nul (h byte hrange.1 hrange.2)
        exact ⟨by simpa using this.symm, by simp⟩
      | next h =>
        rw [if_neg (by simp)]
        exact ⟨by simp, by simpa using h byte hrange.1 hrange.2⟩
    · exact ⟨by simpa [replacement] using hchars, hnext⟩

theorem nul_notMem_decodeFrom {pending : Option Pending} {bytes : Bytes} (hp : ∀ p ∈ pending, p.Sound)
    (hb : ∀ byte ∈ bytes, byte ≠ 0) : '\x00' ∉ decodeFrom pending bytes := by
  induction bytes generalizing pending with
  | nil =>
    unfold decodeFrom
    split
    · decide
    · simp
  | cons byte bytes ih =>
    rw [List.forall_mem_cons] at hb
    have hbyte : byte.toNat ≠ 0 := by
      intro hz
      exact hb.1 (UInt8.toNat_inj.1 hz)
    obtain ⟨hchars, hnext⟩ := nul_notMem_step hp hbyte
    rw [decodeFrom, List.mem_append]
    rintro (h | h)
    · exact hchars h
    · exact ih hnext hb.2 h

end Utf8

namespace Encoding

variable {encoding : Encoding} {text : List Char} {bytes : Bytes}

/-! ## Writing behind a buffer -/

/-- What is written to a buffer in Latin-1 stands behind what was there, whether all characters are written or not. -/
theorem exists_pushLatin1 (buffer : Array UInt8) (text : List Char) :
    ∃ written : Bytes, pushLatin1 buffer text = ((text.mapM latin1Byte).map fun _ => (), buffer ++ written) ∧
      ∀ bytes, text.mapM latin1Byte = .ok bytes → written = bytes := by
  induction text generalizing buffer with
  | nil => exact ⟨[], by simp [pushLatin1]; rfl, fun bytes h => Except.ok.inj h⟩
  | cons c text ih =>
    rw [pushLatin1, List.mapM_cons]
    cases latin1Byte c with
    | error e => exact ⟨[], by simp; rfl, fun bytes h => nomatch h⟩
    | ok byte =>
      obtain ⟨written, hpush, hall⟩ := ih (buffer.push byte)
      refine ⟨byte :: written, ?_, fun bytes h => ?_⟩
      · dsimp only
        rw [hpush]
        cases text.mapM latin1Byte <;> simp <;> rfl
      · cases hm : text.mapM latin1Byte with
        | error e =>
          rw [hm] at h
          cases h
        | ok rest =>
          rw [hm] at h
          rw [hall rest hm]
          exact Except.ok.inj h

theorem encodeOnto_latin1 (buffer : Array UInt8) (text : String) :
    encodeOnto .latin1 buffer text =
      match text.toList.mapM latin1Byte with
      | .ok bytes => (.ok (), buffer ++ bytes)
      | .error e => (.error e, buffer) := by
  obtain ⟨written, hpush, hall⟩ := exists_pushLatin1 buffer text.toList
  rw [encodeOnto, hpush]
  cases hm : text.toList.mapM latin1Byte with
  | ok bytes =>
    rw [hall bytes hm]
    rfl
  | error e =>
    have hcut : (buffer ++ written).take buffer.size = buffer := Array.toList_inj.1 (by simp)
    exact congrArg (Prod.mk _) hcut

theorem encode_latin1 (text : String) : encode .latin1 text = text.toList.mapM latin1Byte := by
  rw [encode, encodeOnto_latin1]
  cases text.toList.mapM latin1Byte with
  | ok bytes => simp
  | error e => rfl

theorem encode_utf8 (text : String) : encode .utf8 text = .ok (Utf8.encode text.toList) := by
  simp [encode, encodeOnto]

/-- Either all bytes of a text are written behind what is in the buffer, or nothing is. -/
theorem encodeOnto_eq (encoding : Encoding) (buffer : Array UInt8) (text : String) :
    encoding.encodeOnto buffer text =
      match encoding.encode text with
      | .ok bytes => (.ok (), buffer ++ bytes)
      | .error e => (.error e, buffer) := by
  cases encoding with
  | latin1 =>
    rw [encode_latin1, encodeOnto_latin1]
    cases text.toList.mapM latin1Byte <;> rfl
  | utf8 =>
    rw [encode_utf8]
    rfl

/-! ## Texts that are kept -/

/-- No character is the zero character, and each is one of the encoding's. -/
def Keeps (encoding : Encoding) (text : List Char) : Prop :=
  ∀ c ∈ text, c ≠ '\x00' ∧ (encoding = .latin1 → c.toNat < 256)

instance (encoding : Encoding) (text : List Char) : Decidable (encoding.Keeps text) :=
  List.decidableBAll _ text

theorem mapM_latin1Byte (h : ∀ c ∈ text, c.toNat < 256) :
    text.mapM latin1Byte = .ok (text.map fun c => UInt8.ofNat c.toNat) := by
  induction text with
  | nil => rfl
  | cons c text ih =>
    rw [List.forall_mem_cons] at h
    rw [List.mapM_cons, ih h.2, latin1Byte, if_pos h.1]
    rfl

/-- In Latin-1 the bytes are the characters. -/
theorem map_latin1Byte (h : ∀ c ∈ text, c.toNat < 256) :
    (text.map fun c => UInt8.ofNat c.toNat).map (fun byte => Char.ofNat byte.toNat) = text := by
  have hback : ∀ c ∈ text, Char.ofNat (UInt8.ofNat c.toNat).toNat = c := by
    intro c hc
    rw [UInt8.toNat_ofNat_of_lt' (h c hc), Char.ofNat_toNat]
  rw [List.map_map]
  exact (List.map_congr_left hback).trans (List.map_id _)

/-- A text that can be encoded in Latin-1 has the first 256 characters only. -/
theorem lt_of_mapM_latin1Byte (h : text.mapM latin1Byte = .ok bytes) : ∀ c ∈ text, c.toNat < 256 := by
  induction text generalizing bytes with
  | nil => simp
  | cons c text ih =>
    rw [List.mapM_cons, latin1Byte] at h
    split at h
    · next hc =>
      cases hm : text.mapM latin1Byte with
      | error e =>
        rw [hm] at h
        cases h
      | ok rest => exact List.forall_mem_cons.2 ⟨hc, ih hm⟩
    · cases h

theorem beforeZero_eq (h : ∀ byte ∈ bytes, byte ≠ 0) : beforeZero bytes = bytes :=
  List.takeWhile_eq_self_iff.2 (by simpa using h)

theorem beforeZero_append_zero (bytes rest : Bytes) : beforeZero (bytes ++ 0 :: rest) = beforeZero bytes := by
  induction bytes with
  | nil => rfl
  | cons byte bytes ih =>
    simp only [beforeZero, List.cons_append, List.takeWhile_cons] at ih ⊢
    rw [ih]

/-- A zero byte says nothing, and neither does what stands behind it. -/
theorem decodeChars_append_zero (encoding : Encoding) (bytes rest : Bytes) :
    encoding.decodeChars (bytes ++ 0 :: rest) = encoding.decodeChars bytes := by
  cases encoding <;> simp only [decodeChars, beforeZero_append_zero]

theorem ne_zero_of_mem_beforeZero {byte : UInt8} (h : byte ∈ beforeZero bytes) : byte ≠ 0 := by
  simpa using List.mem_takeWhile_imp h

/-- A text that is kept can be encoded, and decoding gives it back. -/
theorem exists_encode {text : String} (h : encoding.Keeps text.toList) :
    ∃ bytes, encoding.encode text = .ok bytes ∧ encoding.decodeChars bytes = text.toList := by
  cases encoding with
  | latin1 =>
    have hlt : ∀ c ∈ text.toList, c.toNat < 256 := by
      intro c hc
      exact (h c hc).2 rfl
    refine ⟨_, (encode_latin1 text).trans (mapM_latin1Byte hlt), ?_⟩
    rw [decodeChars, beforeZero_eq]
    · exact map_latin1Byte hlt
    · intro byte hb
      obtain ⟨c, hc, rfl⟩ := List.mem_map.1 hb
      exact Utf8.ofNat_ne_zero (toNat_pos (h c hc).1) (hlt c hc)
  | utf8 =>
    refine ⟨_, encode_utf8 text, ?_⟩
    rw [decodeChars, beforeZero_eq (Utf8.ne_zero_of_mem_encode fun c hc => (h c hc).1), Utf8.decode_encode]

/-- Every text that was decoded is kept. -/
theorem keeps_decodeChars (encoding : Encoding) (bytes : Bytes) : encoding.Keeps (encoding.decodeChars bytes) := by
  cases encoding with
  | latin1 =>
    intro c hc
    obtain ⟨byte, hb, rfl⟩ := List.mem_map.1 hc
    have hlt : byte.toNat < 256 := byte.toNat_lt
    have hne : byte.toNat ≠ 0 := by
      intro hz
      exact ne_zero_of_mem_beforeZero hb (UInt8.toNat_inj.1 hz)
    have hvalid : byte.toNat < 0xD800 := by omega
    have hpos : 0 < byte.toNat := by omega
    constructor
    · exact Utf8.ofNat_ne_nul ⟨hpos, .inl hvalid⟩
    · intro _
      rw [Char.ofNat, dif_pos (.inl hvalid)]
      exact hlt
  | utf8 =>
    have hnul : '\x00' ∉ Utf8.decode (beforeZero bytes) :=
      Utf8.nul_notMem_decodeFrom (by simp) fun byte hb => ne_zero_of_mem_beforeZero hb
    intro c hc
    constructor
    · rintro rfl
      exact hnul hc
    · rintro ⟨⟩

end Encoding

end IniDoc.Text
