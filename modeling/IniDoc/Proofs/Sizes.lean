import Mathlib.Algebra.Ring.Nat
import IniDoc.Proofs.Encodings
import IniDoc.Proofs.Rendering

/-!
# Counting and writing

The size of a document is counted name by name and value by value with fixed sums for the marks between them, and the
text is written and encoded as a whole. Both ask an encoding for the same characters in the same order.

* `Encoding.checked`: a result, unless the encoding lacks a character of a text; then the first one is reported.
* `Document.byteSize_eq_checked`, `Document.toBytes_eq_checked`: both functions in this form, over the names and values
  of the document.
* `Document.byteSize_toBytes`: the size is the number of bytes, what the bytes are, and when there are none.
-/

namespace IniDoc.Text.Encoding

variable {encoding : Encoding} {text rest : List Char} {α β γ : Type}

/-! ## Characters that an encoding lacks -/

/-- Latin-1 has the first 256 characters, and UTF-8 has them all. -/
def lacks (encoding : Encoding) (c : Char) : Bool :=
  match encoding with
  | latin1 => 0xFF < c.toNat
  | utf8 => false

/-- The bytes of a text that lacks no character. -/
def bytes (encoding : Encoding) (text : List Char) : Bytes :=
  match encoding with
  | latin1 => text.map fun c => UInt8.ofNat c.toNat
  | utf8 => Utf8.encode text

/-- The number of bytes of a text that lacks no character. -/
def width (encoding : Encoding) (text : List Char) : Nat := (encoding.bytes text).length

/-- A result that the first character of a text that the encoding lacks stands in the way of. -/
def checked (encoding : Encoding) (text : List Char) (a : α) : Except Error α :=
  match text.find? encoding.lacks with
  | some c => .error (.unencodable c)
  | none => .ok a

theorem checked_utf8 (text : List Char) (a : α) : checked utf8 text a = .ok a := by
  have hnone : text.find? utf8.lacks = none := List.find?_eq_none.2 fun c _ => Bool.false_ne_true
  rw [checked, hnone]

theorem map_checked (f : α → β) (text : List Char) (a : α) :
    (encoding.checked text a).map f = encoding.checked text (f a) := by
  unfold checked
  cases text.find? encoding.lacks <;> rfl

/-- One check after another is a check of both texts. -/
theorem checked_bind (text rest : List Char) (a : α) (f : α → β) :
    (encoding.checked text a >>= fun a => encoding.checked rest (f a)) = encoding.checked (text ++ rest) (f a) := by
  unfold checked
  rw [List.find?_append]
  cases text.find? encoding.lacks <;> rfl

theorem checked_congr (h : text.find? encoding.lacks = rest.find? encoding.lacks) (a : α) :
    encoding.checked text a = encoding.checked rest a := by
  rw [checked, h, checked]

/-- A list of checks is a check of all texts. -/
theorem mapM_checked (texts : γ → List Char) (f : γ → α) (l : List γ) :
    l.mapM (fun x => encoding.checked (texts x) (f x)) = encoding.checked (l.flatMap texts) (l.map f) := by
  induction l with
  | nil => rfl
  | cons x l ih =>
    rw [List.mapM_cons, ih, List.flatMap_cons, List.map_cons, ← checked_bind (texts x) _ (f x) (· :: l.map f)]
    congr 1
    funext a
    exact map_checked (a :: ·) (l.flatMap texts) (l.map f)

/-- A sum over a list of checks is a check of all texts. -/
theorem foldlM_checked (texts : γ → List Char) (f : γ → Nat) (l : List γ) (total : Nat) :
    l.foldlM (fun total x => return total + (← encoding.checked (texts x) (f x))) total =
      encoding.checked (l.flatMap texts) (total + (l.map f).sum) := by
  induction l generalizing total with
  | nil => rfl
  | cons x l ih =>
    have hstep : (do return total + (← encoding.checked (texts x) (f x))) =
        encoding.checked (texts x) (total + f x) := map_checked (total + ·) (texts x) (f x)
    rw [List.foldlM_cons, hstep, List.flatMap_cons, List.map_cons, List.sum_cons, ← Nat.add_assoc,
      ← checked_bind (texts x) _ (total + f x) (· + (l.map f).sum)]
    exact congrArg _ (funext ih)

/-! ## The encoders are checks -/

theorem latin1Byte_eq (c : Char) : latin1Byte c = checked latin1 [c] (UInt8.ofNat c.toNat) := by
  by_cases hc : c.toNat < 256
  · have hl : lacks latin1 c = false := by
      rw [lacks, decide_eq_false_iff_not]
      omega
    rw [latin1Byte, if_pos hc, checked, List.find?_cons, hl, List.find?_nil]
  · have hl : lacks latin1 c = true := by
      rw [lacks, decide_eq_true_eq]
      omega
    rw [latin1Byte, if_neg hc, checked, List.find?_cons, hl]

/-- The bytes of a text in UTF-8 are those of the string. -/
theorem toByteArray_encode (text : List Char) : (Utf8.encode text).toByteArray = (String.ofList text).toUTF8 := by
  rw [String.toUTF8_eq_toByteArray, String.toByteArray_ofList]
  rfl

theorem encode_eq_checked (encoding : Encoding) (text : String) :
    encoding.encode text = encoding.checked text.toList (encoding.bytes text.toList) := by
  cases encoding with
  | latin1 =>
    have hbyte : latin1Byte = fun c => checked latin1 [c] (UInt8.ofNat c.toNat) := funext latin1Byte_eq
    rw [encode_latin1, hbyte, mapM_checked]
    simp [bytes]
  | utf8 => exact (encode_utf8 text).trans (checked_utf8 _ _).symm

theorem encodedLength_eq_checked (encoding : Encoding) (text : String) :
    encoding.encodedLength text = encoding.checked text.toList (encoding.width text.toList) := by
  cases encoding with
  | latin1 =>
    have hstep : (fun (length : Nat) (c : Char) => (latin1Byte c).map fun _ => length + 1) =
        fun length c => return length + (← checked latin1 [c] 1) := by
      funext length c
      rw [latin1Byte_eq, map_checked]
      exact (map_checked (length + ·) [c] 1).symm
    rw [encodedLength, hstep, foldlM_checked]
    simp [width, bytes]
  | utf8 =>
    have hsize : (Utf8.encode text.toList).length = text.utf8ByteSize := by
      rw [← List.size_toByteArray, toByteArray_encode, String.ofList_toList]
      rfl
    rw [checked_utf8, encodedLength, ← hsize]
    rfl

theorem width_append (text rest : List Char) :
    encoding.width (text ++ rest) = encoding.width text + encoding.width rest := by
  cases encoding <;> simp [width, bytes, Utf8.encode]

end IniDoc.Text.Encoding

namespace IniDoc

open Text

namespace Outline

variable {encoding : Encoding}

/-- The characters of the name and the value of an entry. -/
def entryCharacters (entry : String × String) : List Char := entry.1.toList ++ entry.2.toList

/-- The characters of the names and values of a section in the order of writing. -/
def sectionCharacters (s : String × Entries) : List Char := s.1.toList ++ s.2.flatMap entryCharacters

/-- The characters of all names and values in the order of writing. -/
def characters (outline : Outline) : List Char := outline.flatMap sectionCharacters

theorem forall_mem_characters {p : Char → Prop} {outline : Outline} : (∀ c ∈ characters outline, p c) ↔
    outline.Every (fun name => ∀ c ∈ name.toList, p c) (fun name => ∀ c ∈ name.toList, p c)
      fun data => ∀ c ∈ data.toList, p c := by
  have hentry : ∀ entry, (∀ c ∈ entryCharacters entry, p c) ↔
      (∀ c ∈ entry.1.toList, p c) ∧ ∀ c ∈ entry.2.toList, p c := by
    intro entry
    exact List.forall_mem_append
  have hsection : ∀ s, (∀ c ∈ sectionCharacters s, p c) ↔ (∀ c ∈ s.1.toList, p c) ∧
      ∀ entry ∈ s.2, (∀ c ∈ entry.1.toList, p c) ∧ ∀ c ∈ entry.2.toList, p c := by
    intro s
    simp only [sectionCharacters, List.forall_mem_append, List.forall_mem_flatMap, hentry]
  simp only [characters, List.forall_mem_flatMap, hsection]
  rfl

/-! ## The text and its names and values -/

/-- Every encoding has the marks. -/
theorem find?_mark {c : Char} (h : c ∈ marks) (rest : List Char) :
    (c :: rest).find? encoding.lacks = rest.find? encoding.lacks := by
  have hmarks : ∀ c ∈ marks, ¬encoding.lacks c = true := by
    cases encoding <;> simp [marks, returnFeed, Encoding.lacks]
  exact List.find?_cons_of_neg (hmarks c h)

theorem find?_returnFeed (rest : List Char) :
    (returnFeed ++ rest).find? encoding.lacks = rest.find? encoding.lacks := by
  rw [returnFeed, List.cons_append, find?_mark (by decide), List.cons_append, find?_mark (by decide), List.nil_append]

/-- A mark is one byte. -/
theorem width_mark {c : Char} (h : c ∈ marks) (rest : List Char) :
    encoding.width (c :: rest) = 1 + encoding.width rest := by
  have hone : ∀ c ∈ marks, encoding.width [c] = 1 := by
    simp only [marks, returnFeed, List.forall_mem_cons]
    cases encoding <;> exact ⟨rfl, rfl, rfl, rfl, rfl, by simp⟩
  rw [← hone c h, ← Encoding.width_append, List.singleton_append]

theorem width_returnFeed : encoding.width returnFeed = 2 := by cases encoding <;> rfl

theorem find?_entryLine (entry : String × String) :
    (entryLine entry).find? encoding.lacks = (entryCharacters entry).find? encoding.lacks := by
  rw [entryLine, entryCharacters, List.append_assoc, List.find?_append, List.cons_append, find?_mark (by decide),
    List.find?_append, ← List.append_nil returnFeed, find?_returnFeed, List.find?_nil, Option.or_none,
    List.find?_append]

theorem find?_sectionText (s : String × Entries) :
    (sectionText s).find? encoding.lacks = (sectionCharacters s).find? encoding.lacks := by
  rw [sectionText, sectionCharacters, headerLine, List.cons_append, List.cons_append, find?_mark (by decide),
    List.append_assoc,
    List.find?_append, List.cons_append, find?_mark (by decide), find?_returnFeed, List.find?_append,
    List.find?_flatMap, List.find?_flatMap]
  simp only [find?_entryLine]

/-- The first character of a text that an encoding lacks is the first one of the names and values. -/
theorem find?_text (outline : Outline) :
    (text outline).find? encoding.lacks = (characters outline).find? encoding.lacks := by
  induction outline with
  | nil => rfl
  | cons s outline ih =>
    obtain ⟨gap, hgap, htext⟩ := exists_text_cons s outline
    have hrest : (gap ++ text outline).find? encoding.lacks = (text outline).find? encoding.lacks := by
      rcases hgap with rfl | rfl
      · rfl
      · exact find?_returnFeed _
    have hchars : characters (s :: outline) = sectionCharacters s ++ characters outline := List.flatMap_cons
    rw [htext, List.find?_append, hrest, ih, hchars, List.find?_append, find?_sectionText]

theorem width_entryLine (entry : String × String) : encoding.width (entryLine entry) =
    encoding.width entry.1.toList + encoding.width entry.2.toList + Document.entryOverhead := by
  rw [entryLine, Encoding.width_append, Encoding.width_append, width_mark (by decide), width_returnFeed,
    Document.entryOverhead]
  omega

theorem width_headerLine (name : String) :
    encoding.width (headerLine name) = encoding.width name.toList + Document.headerOverhead := by
  rw [headerLine, List.cons_append, width_mark (by decide), Encoding.width_append, width_mark (by decide),
    width_returnFeed, Document.headerOverhead]
  omega

theorem width_entries (entries : Entries) :
    encoding.width (entries.flatMap entryLine) = (entries.map fun entry => encoding.width (entryLine entry)).sum := by
  induction entries with
  | nil => cases encoding <;> rfl
  | cons entry entries ih => rw [List.flatMap_cons, Encoding.width_append, ih, List.map_cons, List.sum_cons]

/-- The text is as wide as its sections and the empty lines between them. -/
theorem width_text (outline : Outline) : encoding.width (text outline) =
    (outline.map fun s => encoding.width (sectionText s)).sum + (outline.length - 1) * Document.separatorLength := by
  induction outline with
  | nil => cases encoding <;> rfl
  | cons s outline ih =>
    cases outline with
    | nil => simp [text]
    | cons t outline =>
      have htext : text (s :: t :: outline) = sectionText s ++ (returnFeed ++ text (t :: outline)) := by
        simp [text, List.intercalate_cons_cons]
      rw [htext, Encoding.width_append, Encoding.width_append, ih, width_returnFeed]
      simp only [List.map_cons, List.sum_cons, List.length_cons, Nat.add_sub_cancel, Document.separatorLength]
      omega

end Outline

/-! ## Both ways of counting -/

namespace Document

open Outline (characters entryCharacters entryLine sectionCharacters sectionText)

theorem entryByteSize_eq_checked (encoding : Encoding) (key : Key) :
    entryByteSize encoding key = encoding.checked (entryCharacters (key.name, key.data))
      (encoding.width (entryLine (key.name, key.data))) := by
  rw [entryByteSize, encoding.encodedLength_eq_checked, encoding.encodedLength_eq_checked, Outline.width_entryLine]
  refine Eq.trans ?_ (Encoding.checked_bind _ _ (encoding.width key.name.toList)
    (· + encoding.width key.data.toList + entryOverhead))
  congr 1
  funext name
  exact Encoding.map_checked (name + · + entryOverhead) _ _

theorem sectionByteSize_eq_checked (encoding : Encoding) (s : Section) :
    sectionByteSize encoding s = encoding.checked (sectionCharacters (s.name, s.entries))
      (encoding.width (sectionText (s.name, s.entries))) := by
  have hkeys : entryByteSize encoding = fun key => encoding.checked (entryCharacters (key.name, key.data))
      (encoding.width (entryLine (key.name, key.data))) := funext (entryByteSize_eq_checked encoding)
  have hwidth : encoding.width (sectionText (s.name, s.entries)) = encoding.width s.name.toList + headerOverhead +
      (s.keys.toList.map fun key => encoding.width (entryLine (key.name, key.data))).sum := by
    rw [sectionText, Encoding.width_append, Outline.width_headerLine, Outline.width_entries, Section.entries,
      List.map_map]
    rfl
  have hchars : sectionCharacters (s.name, s.entries) =
      s.name.toList ++ s.keys.toList.flatMap fun key => entryCharacters (key.name, key.data) := by
    rw [sectionCharacters, Section.entries, List.flatMap_map]
  rw [sectionByteSize, hkeys, encoding.encodedLength_eq_checked, hwidth, hchars, ← Encoding.checked_bind _ _
    (encoding.width s.name.toList) (· + headerOverhead + _)]
  congr 1
  funext name
  exact Encoding.foldlM_checked _ _ _ _

/-- The size counts the bytes of the text. -/
theorem byteSize_eq_checked (d : Document) (encoding : Encoding) :
    d.byteSize encoding = encoding.checked (characters d.contents) (encoding.width (Outline.text d.contents)) := by
  have hsections : sectionByteSize encoding = fun s => encoding.checked (sectionCharacters (s.name, s.entries))
      (encoding.width (sectionText (s.name, s.entries))) := funext (sectionByteSize_eq_checked encoding)
  have hchars : characters d.contents = d.sections.toList.flatMap fun s => sectionCharacters (s.name, s.entries) := by
    rw [characters, contents, List.flatMap_map]
  rw [byteSize, hsections, Encoding.mapM_checked, hchars, Outline.width_text]
  refine (Encoding.map_checked _ _ _).trans ?_
  simp only [contents, List.length_map, List.map_map]
  rfl

/-- The bytes are those of the text. -/
theorem toBytes_eq_checked (d : Document) (encoding : Encoding) :
    d.toBytes encoding = encoding.checked (characters d.contents) (encoding.bytes (Outline.text d.contents)) := by
  rw [toBytes, encoding.encode_eq_checked, toList_text, Encoding.checked_congr (Outline.find?_text d.contents)]

theorem toBytes_utf8 (d : Document) : d.toBytes .utf8 = .ok (Utf8.encode (Outline.text d.contents)) := by
  rw [toBytes_eq_checked, Encoding.checked_utf8]
  rfl

/-- The size of a document is the number of its bytes, and neither has more reason to fail than the other. In UTF-8 the
bytes are those of the text. In Latin-1 there are bytes if and only if no name and no value holds a character beyond the
first 256; the first such character is reported, and otherwise the bytes are the characters of the text. -/
theorem byteSize_toBytes (d : Document) :
    (∀ encoding, d.byteSize encoding = (d.toBytes encoding).map List.length) ∧
    (∃ bytes, d.toBytes .utf8 = .ok bytes ∧ bytes.toByteArray = (String.ofList (Outline.text d.contents)).toUTF8) ∧
    ((∃ bytes, d.toBytes .latin1 = .ok bytes) ↔ Outline.Every (fun name => ∀ c ∈ name.toList, c.toNat ≤ 0xFF)
      (fun name => ∀ c ∈ name.toList, c.toNat ≤ 0xFF) (fun data => ∀ c ∈ data.toList, c.toNat ≤ 0xFF) d.contents) ∧
    (∀ c, (characters d.contents).find? (0xFF < ·.toNat) = some c → d.toBytes .latin1 = .error (.unencodable c)) ∧
    ∀ bytes, d.toBytes .latin1 = .ok bytes →
      bytes.map (fun byte => Char.ofNat byte.toNat) = Outline.text d.contents := by
  have hlatin := d.toBytes_eq_checked .latin1
  have hnone : (characters d.contents).find? Encoding.latin1.lacks = none ↔
      ∀ c ∈ characters d.contents, c.toNat ≤ 0xFF := by
    simp [List.find?_eq_none, Encoding.lacks]
  refine ⟨?_, ⟨_, d.toBytes_utf8, Encoding.toByteArray_encode _⟩, ?_, ?_, ?_⟩
  · intro encoding
    rw [byteSize_eq_checked, toBytes_eq_checked, Encoding.map_checked]
    rfl
  · rw [← Outline.forall_mem_characters, ← hnone, hlatin, Encoding.checked]
    cases (characters d.contents).find? Encoding.latin1.lacks <;> simp
  · intro c hc
    change (characters d.contents).find? Encoding.latin1.lacks = some c at hc
    rw [hlatin, Encoding.checked, hc]
  · intro bytes hb
    rw [toBytes, Encoding.encode_latin1, toList_text] at hb
    have hlt := Encoding.lt_of_mapM_latin1Byte hb
    rw [Encoding.mapM_latin1Byte hlt] at hb
    rw [← Except.ok.inj hb, Encoding.map_latin1Byte hlt]

end Document

end IniDoc
