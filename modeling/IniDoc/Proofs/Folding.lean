import Mathlib.Data.List.Basic
import IniDoc.Proofs.Words

/-!
# Names up to their case

Folding a name changes none of the characters that mean something to a reader of a text, and brings none of them in. Of
two names that are the same up to their case, therefore, either both look as a name must, or neither does.

* `marks`: the characters that mean something.
* `mem_foldName_iff`, `head?_foldName_iff`: where they stand in a folded name.
* `IsHeaderName.congr`, `IsWord.congr`: what a name looks like does not depend on its case.
* `lt_of_mem_lowerChar`: folding takes nothing else of Latin-1 to ASCII.
-/

namespace IniDoc.Text

variable {a b name : String} {c d : Char}

/-! ## Marks -/

/-- The characters that end a text, a line, a name or a value, or open a header. -/
def marks : List Char := ['\x00', ' ', '\t', '\x0b', '\x0c', '\r', '\n', '=', ';', '[', ']']

theorem lowerChar_of_mark : ∀ d ∈ marks, lowerChar d = [d] :=
  List.forall_iff_forall_mem.1 (by decide)

/-- A run of lower-case forms leads to characters from `a` on, and to characters only. -/
def CaseRun.Sound (run : CaseRun) : Prop :=
  0x61 ≤ run.target ∧ (run.target + (run.last - run.first) < 0xD800 ∨
    0xDFFF < run.target ∧ run.target + (run.last - run.first) < 0x110000)

instance (run : CaseRun) : Decidable run.Sound := inferInstanceAs (Decidable (_ ∧ _))

theorem sound_lowerCaseRuns : ∀ run ∈ lowerCaseRuns, run.Sound := by decide +kernel

/-- A lower-case form that the table gives is the one of a run that the character is in. -/
theorem exists_run {code : Nat} (h : lowerCaseRuns.findSome? (·.lower? c.toNat) = some code) :
    ∃ run ∈ lowerCaseRuns, run.first ≤ c.toNat ∧ c.toNat ≤ run.last ∧
      (Char.ofNat code).toNat = run.target + (c.toNat - run.first) := by
  obtain ⟨run, hr, hlower⟩ := List.exists_of_findSome?_eq_some h
  obtain ⟨-, hvalid⟩ := sound_lowerCaseRuns run hr
  unfold CaseRun.lower? at hlower
  split at hlower
  · next hrange =>
    obtain rfl := Option.some.inj hlower
    have hcode : (run.target + (c.toNat - run.first)).isValidChar := by
      unfold Nat.isValidChar
      omega
    refine ⟨run, hr, hrange.1, hrange.2.1, ?_⟩
    rw [Char.ofNat, dif_pos hcode]
    rfl
  · cases hlower

/-- A lower-case form that the table gives is no mark. -/
theorem le_toNat_of_lower? {code : Nat} (h : lowerCaseRuns.findSome? (·.lower? c.toNat) = some code) :
    0x61 ≤ (Char.ofNat code).toNat := by
  obtain ⟨run, hr, -, -, hnat⟩ := exists_run h
  have := (sound_lowerCaseRuns run hr).1
  omega

theorem eq_of_mem_lowerChar (hd : d ∈ marks) (h : d ∈ lowerChar c) : c = d := by
  -- Marks stand before the small letters, and every form that the table gives from there on.
  have hsmall : ∀ d ∈ marks, d.toNat < 0x61 := List.forall_iff_forall_mem.1 (by decide)
  have hdot : ∀ d ∈ marks, d ∉ ['i', '\u0307'] := List.forall_iff_forall_mem.1 (by decide)
  unfold lowerChar at h
  split at h
  · exact absurd h (hdot d hd)
  · split at h
    · next code hcode =>
      obtain rfl := List.mem_singleton.1 h
      have := hsmall _ hd
      have := le_toNat_of_lower? hcode
      omega
    · exact (List.mem_singleton.1 h).symm

theorem lowerChar_ne_nil (c : Char) : lowerChar c ≠ [] := by
  unfold lowerChar
  split
  · simp
  · split <;> simp

/-! ## ASCII -/

/-- The characters of a run are ASCII and so are their forms, or neither are; beyond Latin-1 there is nothing to say. -/
def CaseRun.Separates (run : CaseRun) : Prop :=
  (run.last < 0x80 ∧ run.target + (run.last - run.first) < 0x80) ∨ (0x80 ≤ run.first ∧ 0x80 ≤ run.target) ∨
    0x100 ≤ run.first

instance (run : CaseRun) : Decidable run.Separates := inferInstanceAs (Decidable (_ ∨ _))

theorem separates_lowerCaseRuns : ∀ run ∈ lowerCaseRuns, run.Separates := by decide +kernel

/-- In Latin-1 the characters of ASCII have lower-case forms in ASCII, and no other character has. -/
theorem lt_of_mem_lowerChar (hc : c.toNat < 256) (h : d ∈ lowerChar c) : d.toNat < 0x80 ↔ c.toNat < 0x80 := by
  unfold lowerChar at h
  split at h
  · omega
  · split at h
    · next code hcode =>
      obtain rfl := List.mem_singleton.1 h
      obtain ⟨run, hr, hfirst, hlast, hnat⟩ := exists_run hcode
      have hrun := separates_lowerCaseRuns run hr
      unfold CaseRun.Separates at hrun
      omega
    · rw [List.mem_singleton.1 h]

/-! ## Marks of a folded name -/

theorem toList_foldName (name : String) : (foldName name).toList = name.toList.flatMap lowerChar := by
  rw [foldName, String.toList_ofList]

theorem mem_foldName_iff (hd : d ∈ marks) : d ∈ (foldName name).toList ↔ d ∈ name.toList := by
  rw [toList_foldName, List.mem_flatMap]
  constructor
  · rintro ⟨c, hc, hm⟩
    exact eq_of_mem_lowerChar hd hm ▸ hc
  · intro h
    exact ⟨d, h, by rw [lowerChar_of_mark d hd]; exact List.mem_singleton_self d⟩

theorem head?_foldName_iff (hd : d ∈ marks) : (foldName name).toList.head? = some d ↔ name.toList.head? = some d := by
  rw [toList_foldName]
  cases name.toList with
  | nil => rfl
  | cons c text =>
    obtain ⟨e, rest, he⟩ := List.exists_cons_of_ne_nil (lowerChar_ne_nil c)
    rw [List.flatMap_cons, he, List.cons_append, List.head?_cons, List.head?_cons, Option.some_inj, Option.some_inj]
    constructor
    · rintro rfl
      exact eq_of_mem_lowerChar hd (he ▸ List.mem_cons_self)
    · rintro rfl
      rw [lowerChar_of_mark c hd] at he
      exact (List.cons.inj he).1.symm

/-! ## What a name looks like -/

theorem mem_iff_of_foldName_eq (h : foldName a = foldName b) (hd : d ∈ marks) : d ∈ a.toList ↔ d ∈ b.toList := by
  rw [← mem_foldName_iff hd, h, mem_foldName_iff hd]

theorem head?_iff_of_foldName_eq (h : foldName a = foldName b) (hd : d ∈ marks) :
    a.toList.head? = some d ↔ b.toList.head? = some d := by
  rw [← head?_foldName_iff hd, h, head?_foldName_iff hd]

theorem nul_notMem_congr (h : foldName a = foldName b) : '\x00' ∈ a.toList ↔ '\x00' ∈ b.toList :=
  mem_iff_of_foldName_eq h (by decide)

/-- A class of characters that are all marks has none in a name or some, whatever the case of the name. -/
theorem forall_mem_congr (h : foldName a = foldName b) {p : Char → Bool} (hp : ∀ c, p c = true → c ∈ marks) :
    (∀ c ∈ a.toList, p c = false) → ∀ c ∈ b.toList, p c = false := by
  intro ha c hc
  by_contra hne
  have hpc : p c = true := by simpa using hne
  have := ha c ((mem_iff_of_foldName_eq h (hp c hpc)).2 hc)
  exact hne this

theorem forall_head?_congr (h : foldName a = foldName b) {p : Char → Bool} (hp : ∀ c, p c = true → c ∈ marks) :
    (∀ c ∈ a.toList.head?, p c = false) → ∀ c ∈ b.toList.head?, p c = false := by
  intro ha c hc
  by_contra hne
  have hpc : p c = true := by simpa using hne
  exact hne (ha c ((head?_iff_of_foldName_eq h (hp c hpc)).2 hc))

theorem mem_marks_of_isBlank (h : isBlank c = true) : c ∈ marks := by
  simp only [isBlank, Bool.or_eq_true, beq_iff_eq] at h
  rcases h with ((rfl | rfl) | rfl) | rfl <;> decide

theorem mem_marks_of_isLineEnd (h : isLineEnd c = true) : c ∈ marks := by
  simp only [isLineEnd, Bool.or_eq_true, beq_iff_eq] at h
  rcases h with rfl | rfl <;> decide

theorem IsHeaderName.congr (h : foldName a = foldName b) (ha : IsHeaderName a.toList) : IsHeaderName b.toList := by
  constructor
  · refine forall_mem_congr h ?_ ha.1
    intro c hc
    simp only [Item.endsHeader, Bool.or_eq_true, beq_iff_eq] at hc
    rcases hc with rfl | hc
    · decide
    · exact mem_marks_of_isLineEnd hc
  · exact forall_head?_congr h (fun _ => mem_marks_of_isBlank) ha.2

theorem IsWord.congr (h : foldName a = foldName b) (ha : IsWord a.toList) : IsWord b.toList := by
  constructor
  · refine forall_mem_congr h ?_ ha.1
    intro c hc
    simp only [Item.endsName, isSpace, Bool.or_eq_true, beq_iff_eq] at hc
    rcases hc with ((hc | hc) | rfl) | rfl
    · exact mem_marks_of_isBlank hc
    · exact mem_marks_of_isLineEnd hc
    · decide
    · decide
  · exact mt (head?_iff_of_foldName_eq h (by decide)).2 ha.2

end IniDoc.Text
