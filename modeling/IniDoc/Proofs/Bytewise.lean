import IniDoc.Proofs.Encodings
import IniDoc.Proofs.Reading

/-!
# UTF-8 that is read in Latin-1

Bytes in UTF-8 that are read in Latin-1 give a text with a character for each byte. No character that means anything to
a reader of items is among those that stand for a longer character, so that the text has the items of the true one, and
each item has the bytes of the true one for characters.

* `bytewise`: the text with a character for each byte.
* `Uniform`: the classes of characters whose runs can be found in either text.
* `Item.Reads.bytewise`, `Item.allFrom_bytewise`: the items of both texts.
* `Encoding.decodeChars_latin1_encode`, `Encoding.mapM_latin1Byte_bytewise`: decoding and encoding.
-/

namespace IniDoc.Text

variable {text line rest : List Char} {a c d : Char}

/-- The characters of Latin-1 that stand for the bytes of a character. -/
def byteChars (c : Char) : List Char := (String.utf8EncodeChar c).map fun byte => Char.ofNat byte.toNat

/-- The text that the bytes of a text in UTF-8 stand for in Latin-1. -/
def bytewise (text : List Char) : List Char := text.flatMap byteChars

/-! ## One character -/

/-- The bytes of a code point behind the first 128 all stand behind the first 128 as well. -/
theorem Utf8.le_of_mem_codeBytes {v : Nat} (hv : 0x80 ≤ v) (hmax : v ≤ 0x10FFFF) :
    codeBytes v ≠ [] ∧ ∀ byte ∈ codeBytes v, 0x80 ≤ byte.toNat := by
  have hle (byte : Nat) (hl : 0x80 ≤ byte) (hh : byte < 256) : 0x80 ≤ (UInt8.ofNat byte).toNat := by
    rwa [UInt8.toNat_ofNat_of_lt' hh]
  unfold codeBytes
  split
  · omega
  have hlast := hle (v % 64 + 0x80) (by omega) (by omega)
  have hthird := hle (v / 64 % 64 + 0x80) (by omega) (by omega)
  have hsecond := hle (v / 4096 % 64 + 0x80) (by omega) (by omega)
  split
  · have hfirst := hle (v / 64 % 32 + 0xC0) (by omega) (by omega)
    simp only [List.forall_mem_cons]
    exact ⟨by simp, hfirst, hlast, by simp⟩
  split
  · have hfirst := hle (v / 4096 % 16 + 0xE0) (by omega) (by omega)
    simp only [List.forall_mem_cons]
    exact ⟨by simp, hfirst, hthird, hlast, by simp⟩
  · have hfirst := hle (v / 262144 % 8 + 0xF0) (by omega) (by omega)
    simp only [List.forall_mem_cons]
    exact ⟨by simp, hfirst, hsecond, hthird, hlast, by simp⟩

theorem toNat_ofByte (byte : UInt8) : (Char.ofNat byte.toNat).toNat = byte.toNat := by
  have hlt : byte.toNat < 256 := byte.toNat_lt
  have hvalid : byte.toNat.isValidChar := .inl (by omega)
  rw [Char.ofNat, dif_pos hvalid]
  rfl

theorem byteChars_of_ascii (h : c.toNat < 0x80) : byteChars c = [c] := by
  have hbyte : (UInt8.ofNat c.toNat).toNat = c.toNat := UInt8.toNat_ofNat_of_lt' (Nat.lt_trans h (by decide))
  rw [byteChars, Utf8.utf8EncodeChar_eq, Utf8.codeBytes, if_pos (by omega), List.map_singleton, hbyte,
    Char.ofNat_toNat]

/-- A longer character is read as characters of which none is ASCII. -/
theorem byteChars_of_not_ascii (h : 0x80 ≤ c.toNat) :
    byteChars c ≠ [] ∧ ∀ d ∈ byteChars c, 0x80 ≤ d.toNat ∧ d.toNat < 256 := by
  obtain ⟨hne, hle⟩ := Utf8.le_of_mem_codeBytes h (Utf8.code_le c).1
  rw [byteChars, Utf8.utf8EncodeChar_eq]
  refine ⟨by simpa using hne, ?_⟩
  intro d hd
  obtain ⟨byte, hb, rfl⟩ := List.mem_map.1 hd
  rw [toNat_ofByte]
  exact ⟨hle byte hb, byte.toNat_lt⟩

/-! ## Texts -/

@[simp] theorem bytewise_nil : bytewise [] = [] := rfl

@[simp] theorem bytewise_append (text rest : List Char) : bytewise (text ++ rest) = bytewise text ++ bytewise rest :=
  List.flatMap_append

theorem bytewise_cons (h : c.toNat < 0x80) (text : List Char) : bytewise (c :: text) = c :: bytewise text := by
  rw [bytewise, List.flatMap_cons, byteChars_of_ascii h]
  rfl

/-- A text that starts with a longer character is read as one that starts with no ASCII. -/
theorem exists_bytewise_cons (h : 0x80 ≤ c.toNat) (text : List Char) :
    ∃ d rest, bytewise (c :: text) = d :: rest ∧ 0x80 ≤ d.toNat := by
  obtain ⟨hne, hle⟩ := byteChars_of_not_ascii h
  obtain ⟨d, behind, hd⟩ := List.exists_cons_of_ne_nil hne
  refine ⟨d, behind ++ bytewise text, ?_, (hle d (hd ▸ List.mem_cons_self)).1⟩
  rw [bytewise, List.flatMap_cons, hd]
  rfl

theorem bytewise_of_ascii (h : ∀ c ∈ text, c.toNat < 0x80) : bytewise text = text := by
  induction text with
  | nil => rfl
  | cons c text ih =>
    rw [List.forall_mem_cons] at h
    rw [bytewise_cons h.1, ih h.2]

theorem bytewise_flatMap {β : Type} (l : List β) (f : β → List Char) :
    bytewise (l.flatMap f) = l.flatMap fun b => bytewise (f b) := List.flatMap_assoc

theorem bytewise_intercalate (between : List Char) (parts : List (List Char)) :
    bytewise (between.intercalate parts) = (bytewise between).intercalate (parts.map bytewise) := by
  induction parts with
  | nil => rfl
  | cons part parts ih =>
    cases parts with
    | nil => simp
    | cons next parts =>
      rw [List.intercalate_cons_cons, bytewise_append, bytewise_append, ih]
      exact List.intercalate_cons_cons.symm

theorem bytewise_eq_nil_iff : bytewise text = [] ↔ text = [] := by
  cases text with
  | nil => simp
  | cons c text =>
    by_cases hc : c.toNat < 0x80
    · simp [bytewise_cons hc]
    · obtain ⟨d, rest, hd, -⟩ := exists_bytewise_cons (Nat.not_lt.1 hc) text
      simp [hd]

theorem head?_bytewise (ha : a.toNat < 0x80) : (bytewise text).head? = some a ↔ text.head? = some a := by
  cases text with
  | nil => rfl
  | cons c text =>
    by_cases hc : c.toNat < 0x80
    · rw [bytewise_cons hc, List.head?_cons, List.head?_cons]
    · obtain ⟨d, rest, hd, hle⟩ := exists_bytewise_cons (Nat.not_lt.1 hc) text
      rw [hd, List.head?_cons, List.head?_cons, Option.some_inj, Option.some_inj]
      constructor <;> rintro rfl <;> omega

theorem mem_bytewise (ha : a.toNat < 0x80) : a ∈ bytewise text ↔ a ∈ text := by
  rw [bytewise, List.mem_flatMap]
  constructor
  · rintro ⟨c, hc, hm⟩
    by_cases hlt : c.toNat < 0x80
    · rw [byteChars_of_ascii hlt] at hm
      exact List.mem_singleton.1 hm ▸ hc
    · have := ((byteChars_of_not_ascii (Nat.not_lt.1 hlt)).2 a hm).1
      omega
  · intro h
    exact ⟨a, h, by rw [byteChars_of_ascii ha]; exact List.mem_singleton_self a⟩

/-- Only characters of Latin-1 are read. -/
theorem lt_of_mem_bytewise (h : d ∈ bytewise text) : d.toNat < 256 := by
  obtain ⟨c, -, hd⟩ := List.mem_flatMap.1 h
  obtain ⟨byte, -, rfl⟩ := List.mem_map.1 hd
  rw [toNat_ofByte]
  exact byte.toNat_lt

/-- A text is read as ASCII only if it is ASCII. -/
theorem ascii_of_bytewise (h : ∀ d ∈ bytewise text, d.toNat < 0x80) : ∀ c ∈ text, c.toNat < 0x80 := by
  intro c hc
  by_contra hle
  obtain ⟨hne, hchars⟩ := byteChars_of_not_ascii (Nat.not_lt.1 hle)
  obtain ⟨d, behind, hd⟩ := List.exists_cons_of_ne_nil hne
  have hmem : d ∈ byteChars c := hd ▸ List.mem_cons_self
  have := (hchars d hmem).1
  have := h d (List.mem_flatMap.2 ⟨c, hc, hmem⟩)
  omega

/-- Both texts have the same number of lines. -/
theorem lineFeeds_bytewise (text : List Char) : lineFeeds (bytewise text) = lineFeeds text := by
  unfold lineFeeds
  induction text with
  | nil => rfl
  | cons c text ih =>
    by_cases hc : c.toNat < 0x80
    · rw [bytewise_cons hc, List.count_cons, List.count_cons, ih]
    · obtain ⟨-, hchars⟩ := byteChars_of_not_ascii (Nat.not_lt.1 hc)
      have hnone : '\n' ∉ byteChars c := by
        intro hm
        exact absurd (hchars _ hm).1 (by decide)
      have hne : c ≠ '\n' := by
        rintro rfl
        exact hc (by decide)
      rw [bytewise, List.flatMap_cons, List.count_append, List.count_eq_zero_of_not_mem hnone, Nat.zero_add,
        List.count_cons_of_ne hne]
      exact ih

/-! ## Runs of characters -/

/-- A class of characters that has all characters behind ASCII or none of them. -/
def Uniform (p : Char → Bool) : Prop := ∀ c d : Char, 0x80 ≤ c.toNat → 0x80 ≤ d.toNat → p c = p d

namespace Uniform

variable {p q : Char → Bool}

theorem beq (ha : a.toNat < 0x80) : Uniform (· == a) := by
  have hne : ∀ c : Char, 0x80 ≤ c.toNat → (c == a) = false := by
    intro c hc
    rw [beq_eq_false_iff_ne]
    rintro rfl
    omega
  intro c d hc hd
  exact (hne c hc).trans (hne d hd).symm

theorem or (hp : Uniform p) (hq : Uniform q) : Uniform fun c => p c || q c := by
  intro c d hc hd
  dsimp only
  rw [hp c d hc hd, hq c d hc hd]

theorem not (hp : Uniform p) : Uniform fun c => !p c := by
  intro c d hc hd
  dsimp only
  rw [hp c d hc hd]

theorem isBlank : Uniform isBlank :=
  (((beq (by decide)).or (beq (by decide))).or (beq (by decide))).or (beq (by decide))

theorem isLineEnd : Uniform isLineEnd := (beq (by decide)).or (beq (by decide))

theorem isSpace : Uniform isSpace := isBlank.or isLineEnd

theorem endsHeader : Uniform Item.endsHeader := (beq (by decide)).or isLineEnd

theorem endsName : Uniform Item.endsName := (isSpace.or (beq (by decide))).or (beq (by decide))

theorem endsValue : Uniform Item.endsValue := (beq (by decide)).or isLineEnd

/-- A run ends at the same place in both texts. -/
theorem span_bytewise (hp : Uniform p) (text : List Char) :
    (bytewise text).takeWhile p = bytewise (text.takeWhile p) ∧
      (bytewise text).dropWhile p = bytewise (text.dropWhile p) := by
  induction text with
  | nil => exact ⟨rfl, rfl⟩
  | cons c text ih =>
    obtain ⟨htake, hdrop⟩ := ih
    by_cases hc : c.toNat < 0x80
    · rw [bytewise_cons hc]
      by_cases hpc : p c = true
      · simp only [List.takeWhile_cons_of_pos hpc, List.dropWhile_cons_of_pos hpc, bytewise_cons hc, htake, hdrop,
          and_self]
      · simp only [List.takeWhile_cons_of_neg hpc, List.dropWhile_cons_of_neg hpc, bytewise_cons hc, bytewise_nil,
          and_self]
    · have hle := Nat.not_lt.1 hc
      obtain ⟨hne, hchars⟩ := byteChars_of_not_ascii hle
      have hsame : ∀ d ∈ byteChars c, p d = p c := fun d hd => hp d c (hchars d hd).1 hle
      have hcons (text : List Char) : bytewise (c :: text) = byteChars c ++ bytewise text := List.flatMap_cons
      rw [hcons]
      by_cases hpc : p c = true
      · have hall : ∀ d ∈ byteChars c, p d = true := fun d hd => (hsame d hd).trans hpc
        rw [List.takeWhile_append_of_pos hall, List.dropWhile_append_of_pos hall, List.takeWhile_cons_of_pos hpc,
          List.dropWhile_cons_of_pos hpc, hcons, htake, hdrop]
        exact ⟨rfl, rfl⟩
      · obtain ⟨d, behind, hd⟩ := List.exists_cons_of_ne_nil hne
        have hpd : ¬p d = true := by rwa [hsame d (hd ▸ List.mem_cons_self)]
        rw [List.takeWhile_cons_of_neg hpc, List.dropWhile_cons_of_neg hpc, hcons, hd, List.cons_append,
          List.takeWhile_cons_of_neg hpd, List.dropWhile_cons_of_neg hpd]
        exact ⟨rfl, rfl⟩

theorem takeWhile_bytewise (hp : Uniform p) (text : List Char) :
    (bytewise text).takeWhile p = bytewise (text.takeWhile p) := (hp.span_bytewise text).1

theorem dropWhile_bytewise (hp : Uniform p) (text : List Char) :
    (bytewise text).dropWhile p = bytewise (text.dropWhile p) := (hp.span_bytewise text).2

end Uniform

theorem skipBlanks_bytewise (text : List Char) : skipBlanks (bytewise text) = bytewise (skipBlanks text) :=
  Uniform.isBlank.dropWhile_bytewise text

theorem skipSpace_bytewise (text : List Char) : skipSpace (bytewise text) = bytewise (skipSpace text) :=
  Uniform.isSpace.dropWhile_bytewise text

theorem afterLine_bytewise (text : List Char) : afterLine (bytewise text) = bytewise (afterLine text) := by
  have hrun : Uniform (· != '\n') := (Uniform.beq (by decide)).not
  rw [afterLine, hrun.dropWhile_bytewise, afterLine]
  cases hd : text.dropWhile (· != '\n') with
  | nil => rfl
  | cons c rest =>
    have hc : c = '\n' := by
      have := List.head?_dropWhile_not (· != '\n') text
      simpa [hd] using this
    rw [hc, bytewise_cons (by decide)]
    rfl

/-! ## Items -/

/-- A string that was written in UTF-8 as it is read in Latin-1. -/
def asLatin1 (value : String) : String := String.ofList (bytewise value.toList)

theorem toList_asLatin1 (value : String) : (asLatin1 value).toList = bytewise value.toList := String.toList_ofList

theorem asLatin1_ofList (text : List Char) : asLatin1 (String.ofList text) = String.ofList (bytewise text) := by
  rw [asLatin1, String.toList_ofList]

namespace Item

/-- An item that was written in UTF-8 as it is read in Latin-1. -/
def bytewise : Item → Item
  | .header name => .header (asLatin1 name)
  | .entry name value => .entry (asLatin1 name) (asLatin1 value)
  | .unclosed tail => .unclosed (Text.bytewise tail)
  | item => item

variable {quotes inSection : Bool} {item : Item}

theorem headerName_bytewise (text : List Char) :
    headerName (Text.bytewise text) = Text.bytewise (headerName text) := by
  rw [headerName, skipBlanks_bytewise, Uniform.endsHeader.not.takeWhile_bytewise, headerName]

theorem behindHeader_bytewise (text : List Char) :
    behindHeader (Text.bytewise text) = Text.bytewise (behindHeader text) := by
  rw [behindHeader, skipBlanks_bytewise, Uniform.endsHeader.not.dropWhile_bytewise, afterLine_bytewise, behindHeader]

theorem word_bytewise (line : List Char) : word (Text.bytewise line) = Text.bytewise (word line) :=
  Uniform.endsName.not.takeWhile_bytewise line

theorem behindWord_bytewise (line : List Char) : behindWord (Text.bytewise line) = Text.bytewise (behindWord line) :=
  Uniform.endsName.not.dropWhile_bytewise line

/-- Where one text starts an item that is no header, so does the other. -/
theorem exists_start (hs : isSpace c = false) (hc : c ≠ '[') (text : List Char) :
    ∃ d behind, Text.bytewise (c :: text) = d :: behind ∧ isSpace d = false ∧ d ≠ '[' := by
  by_cases hlt : c.toNat < 0x80
  · exact ⟨c, _, bytewise_cons hlt text, hs, hc⟩
  · obtain ⟨d, behind, hd, hle⟩ := exists_bytewise_cons (Nat.not_lt.1 hlt) text
    refine ⟨d, behind, hd, Uniform.isSpace d '\x80' hle (by decide), ?_⟩
    rintro rfl
    exact absurd hle (by decide)

theorem toHeader_bytewise (text : List Char) : toHeader (Text.bytewise text) = Text.bytewise (toHeader text) := by
  fun_induction toHeader text with
  | case1 text hb => exact toHeader_nil (by rw [skipBlanks_bytewise, hb, bytewise_nil])
  | case2 text c rest hb hc =>
    obtain rfl : c = '[' := beq_iff_eq.1 hc
    rw [bytewise_cons (by decide)]
    exact toHeader_bracket (by rw [skipBlanks_bytewise, hb, bytewise_cons (by decide)])
  | case3 text c rest hb hc ih =>
    have hhead : (skipBlanks (Text.bytewise text)).head? ≠ some '[' := by
      rw [skipBlanks_bytewise, ne_eq, head?_bytewise (by decide), hb, List.head?_cons, Option.some_inj]
      exact fun h => hc (beq_iff_eq.2 h)
    obtain ⟨d, behind, hd⟩ : ∃ d behind, skipBlanks (Text.bytewise text) = d :: behind := by
      rw [← List.ne_nil_iff_exists_cons, skipBlanks_bytewise, ne_eq, bytewise_eq_nil_iff, hb]
      simp
    rw [toHeader_other hd fun h => hhead (by rw [hd, h, List.head?_cons]), afterLine_bytewise, ih]

theorem equals_bytewise {value : List Char} (he : skipBlanks (behindWord line) = '=' :: value) :
    skipBlanks (behindWord (Text.bytewise line)) = '=' :: Text.bytewise value := by
  rw [behindWord_bytewise, skipBlanks_bytewise, he, bytewise_cons (by decide)]

/-- An item is read in the same way from both texts. -/
theorem Reads.bytewise (h : Reads quotes inSection line item rest) :
    Reads quotes inSection (Text.bytewise line) item.bytewise (Text.bytewise rest) := by
  cases h with
  | @header _ text hn =>
    rw [bytewise_cons (by decide), ← behindHeader_bytewise, Item.bytewise, asLatin1_ofList, ← headerName_bytewise]
    refine .header ?_
    rwa [headerName_bytewise, ne_eq, bytewise_eq_nil_iff]
  | @nameless _ text hn =>
    rw [bytewise_cons (by decide), ← toHeader_bytewise, ← behindHeader_bytewise]
    refine .nameless ?_
    rw [headerName_bytewise, hn, bytewise_nil]
  | @outside c text hs hc =>
    obtain ⟨d, behind, hd, hs', hc'⟩ := exists_start hs hc text
    rw [← toHeader_bytewise, hd]
    exact .outside hs' hc'
  | @comment c text behind hs hc hb =>
    obtain ⟨d, start, hd, hs', hc'⟩ := exists_start hs hc text
    rw [← afterLine_bytewise, hd]
    refine .comment hs' hc' ?_
    rw [← hd, behindWord_bytewise, hb, bytewise_cons (by decide)]
  | @noEquals c text hs hc hb he =>
    obtain ⟨d, start, hd, hs', hc'⟩ := exists_start hs hc text
    rw [← afterLine_bytewise, ← skipBlanks_bytewise, ← behindWord_bytewise, hd]
    refine .noEquals hs' hc' ?_ ?_
    · rwa [← hd, behindWord_bytewise, ne_eq, head?_bytewise (by decide)]
    · rwa [← hd, behindWord_bytewise, skipBlanks_bytewise, ne_eq, head?_bytewise (by decide)]
  | @plain c text value hs hc he hq =>
    obtain ⟨d, start, hd, hs', hc'⟩ := exists_start hs hc text
    rw [Item.bytewise, asLatin1_ofList, asLatin1_ofList, ← word_bytewise, ← afterLine_bytewise,
      ← Uniform.endsValue.not.takeWhile_bytewise, ← Uniform.endsValue.not.dropWhile_bytewise, ← skipBlanks_bytewise,
      hd]
    refine .plain hs' hc' (hd ▸ equals_bytewise he) ?_
    rwa [skipBlanks_bytewise, ne_eq, head?_bytewise (by decide)]
  | @quoted c text value body behind hs hc he hq hv hb =>
    obtain ⟨d, start, hd, hs', hc'⟩ := exists_start hs hc text
    have hbody : Uniform (· != '"') := (Uniform.beq (by decide)).not
    rw [Item.bytewise, asLatin1_ofList, asLatin1_ofList, ← word_bytewise, ← afterLine_bytewise,
      ← hbody.takeWhile_bytewise, hd]
    refine .quoted hs' hc' (hd ▸ equals_bytewise he) hq ?_ ?_
    · rw [skipBlanks_bytewise, hv, bytewise_cons (by decide)]
    · rw [hbody.dropWhile_bytewise, hb, bytewise_cons (by decide)]
  | @unclosed c text value body hs hc he hq hv hb =>
    obtain ⟨d, start, hd, hs', hc'⟩ := exists_start hs hc text
    rw [hd, Item.bytewise, bytewise_cons (by decide)]
    refine .unclosed hs' hc' (hd ▸ equals_bytewise he) hq ?_ ?_
    · rw [skipBlanks_bytewise, hv, bytewise_cons (by decide)]
    · rwa [mem_bytewise (by decide)]

theorem opensSection_bytewise (inSection : Bool) (item : Item) :
    item.bytewise.opensSection inSection = item.opensSection inSection := by
  cases item <;> rfl

theorem next_bytewise (quotes inSection : Bool) (text : List Char) :
    next quotes inSection (Text.bytewise text) =
      (next quotes inSection text).map fun (item, rest) => (item.bytewise, Text.bytewise rest) := by
  cases hn : next quotes inSection text with
  | none =>
    rw [next_eq_none_iff] at hn
    rw [Option.map_none, next_eq_none_iff, skipSpace_bytewise, hn, bytewise_nil]
  | some found =>
    rw [Option.map_some, next_eq_some_iff, skipSpace_bytewise]
    exact (next_eq_some_iff.1 hn).bytewise

/-- The items of both texts. -/
theorem allFrom_bytewise (quotes inSection : Bool) (text : List Char) :
    allFrom quotes inSection (Text.bytewise text) = (allFrom quotes inSection text).map Item.bytewise := by
  have hnext (inSection : Bool) (text : List Char) := next_bytewise quotes inSection text
  fun_induction allFrom quotes inSection text with
  | case1 inSection text hn =>
    have := hnext inSection text
    rw [hn] at this
    exact allFrom_of_next_none this
  | case2 inSection text item rest hn ih =>
    have := hnext inSection text
    rw [hn] at this
    rw [allFrom_of_next this, opensSection_bytewise, ih, List.map_cons]

theorem unclosed?_bytewise (item : Item) : item.bytewise.unclosed? = item.unclosed?.map Text.bytewise := by
  cases item <;> rfl

/-- The quote that is left open in one text, if there is one, is left open in the other. -/
theorem findSome?_unclosed?_bytewise (items : List Item) :
    (items.map Item.bytewise).findSome? unclosed? = (items.findSome? unclosed?).map Text.bytewise := by
  induction items with
  | nil => rfl
  | cons item items ih =>
    rw [List.map_cons, List.findSome?_cons, List.findSome?_cons, unclosed?_bytewise, ih]
    cases item.unclosed? <;> rfl

end Item

/-! ## Decoding and encoding -/

/-- The bytes up to the first zero byte are those of the text up to the first zero character. -/
theorem Encoding.beforeZero_encode (text : List Char) :
    beforeZero (Utf8.encode text) = Utf8.encode (text.takeWhile (· != '\x00')) := by
  induction text with
  | nil => rfl
  | cons c text ih =>
    have hcons (text : List Char) : Utf8.encode (c :: text) = String.utf8EncodeChar c ++ Utf8.encode text :=
      List.flatMap_cons
    by_cases hc : c = '\x00'
    · subst hc
      rfl
    · have hall : ∀ byte ∈ String.utf8EncodeChar c, (byte != 0) = true := by
        intro byte hb
        rw [Utf8.utf8EncodeChar_eq] at hb
        exact bne_iff_ne.2 (Utf8.ne_zero_of_mem_codeBytes (toNat_pos hc) (Utf8.code_le c).1 byte hb)
      rw [List.takeWhile_cons_of_pos (by simpa using hc), hcons, hcons, ← ih, beforeZero,
        List.takeWhile_append_of_pos hall, beforeZero]

theorem map_ofByte_encode (text : List Char) :
    (Utf8.encode text).map (fun byte => Char.ofNat byte.toNat) = bytewise text := by
  rw [Utf8.encode, List.map_flatMap, bytewise]
  rfl

namespace Encoding

theorem decodeChars_utf8_encode (text : List Char) :
    utf8.decodeChars (Utf8.encode text) = text.takeWhile (· != '\x00') := by
  rw [decodeChars, beforeZero_encode, Utf8.decode_encode]

theorem decodeChars_latin1_encode (text : List Char) :
    latin1.decodeChars (Utf8.encode text) = bytewise (text.takeWhile (· != '\x00')) := by
  rw [decodeChars, beforeZero_encode, map_ofByte_encode]

/-- In Latin-1 a text that is read byte by byte is written as the bytes it was read from. -/
theorem mapM_latin1Byte_bytewise (text : List Char) : (bytewise text).mapM latin1Byte = .ok (Utf8.encode text) := by
  have hback : ∀ byte ∈ Utf8.encode text, UInt8.ofNat (Char.ofNat byte.toNat).toNat = byte := by
    intro byte _
    rw [toNat_ofByte, UInt8.ofNat_toNat]
  rw [mapM_latin1Byte fun _ => lt_of_mem_bytewise, ← map_ofByte_encode, List.map_map]
  exact congrArg _ ((List.map_congr_left hback).trans (List.map_id _))

end Encoding

end IniDoc.Text
