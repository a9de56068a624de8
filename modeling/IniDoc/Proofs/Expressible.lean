import IniDoc.Proofs.RoundTrip

/-!
# What a text can say

The outlines that texts make, and no others: names are different and look as names do, and a value is plain or, where
quotes mean something, holds no quote.

* `Outline.Expressible`: what such an outline looks like.
* `Outline.allFrom_text_written`: with the values in quotes that need them, its text reads as its headers and entries.
* `Document.exists_scan_iff`: an outline is expressible if and only if a scan of some text into an empty document
  brings it.
-/

namespace IniDoc

open Text
open Text.Item (allFrom next)

namespace Outline

variable {outline : Outline} {quotes : Bool} {name data : String}

/-! ## Values in quotes -/

/-- Names and values are among those that can be read, and the names are different. -/
structure Expressible (quotes : Bool) (outline : Outline) : Prop where
  wellFormed : outline.WellFormed
  every : outline.Every (IsHeaderName ·.toList) (IsWord ·.toList)
    fun value => IsPlain quotes value.toList ∨ quotes = true ∧ '"' ∉ value.toList

/-- A value as it is written: in quotes, unless it is plain. -/
def written (quotes : Bool) (value : String) : String :=
  if IsPlain quotes value.toList then value else "\"" ++ value ++ "\""

/-- A value in quotes may hold anything but a quote, line ends included. -/
theorem next_entryLine_quoted (hne : name ≠ "") (hn : IsWord name.toList) (hd : '"' ∉ data.toList)
    (rest : List Char) :
    next true true (entryLine (name, "\"" ++ data ++ "\"") ++ rest) = some (.entry name data, rest) := by
  have hline : entryLine (name, "\"" ++ data ++ "\"") ++ rest =
      name.toList ++ '=' :: '"' :: (data.toList ++ '"' :: (returnFeed ++ rest)) := by
    simp [entryLine]
  have hquote : ∀ c ∈ ('"' :: (returnFeed ++ rest)).head?, (c != '"') = false := by
    rintro c ⟨⟩
    rfl
  have hall : ∀ c ∈ data.toList, (c != '"') = true := by
    simp only [bne_iff_ne]
    rintro c hc rfl
    exact hd hc
  have hbehind : (data.toList ++ '"' :: (returnFeed ++ rest)).dropWhile (· != '"') = '"' :: (returnFeed ++ rest) := by
    rw [dropWhile_append_stop _ hquote, List.dropWhile_eq_nil_iff.2 hall, List.nil_append]
  have hbody : (data.toList ++ '"' :: (returnFeed ++ rest)).takeWhile (· != '"') = data.toList := by
    rw [takeWhile_append_stop _ hquote, List.takeWhile_eq_self_iff.2 hall]
  have hblanks : skipBlanks ('"' :: (data.toList ++ '"' :: (returnFeed ++ rest))) =
      '"' :: (data.toList ++ '"' :: (returnFeed ++ rest)) := skipBlanks_cons rfl _
  rw [hline, next_name hne hn, hblanks, Item.ofValue_quoted name hbehind, hbody, String.ofList_toList]
  rfl

theorem readsBack_written (hne : name ≠ "") (hn : IsWord name.toList)
    (hd : IsPlain quotes data.toList ∨ quotes = true ∧ '"' ∉ data.toList) :
    ReadsBack quotes (written quotes) (name, data) := by
  intro rest
  by_cases hp : IsPlain quotes data.toList
  · rw [written, if_pos hp]
    exact next_entryLine hne hn hp rest
  · obtain ⟨rfl, hq⟩ := hd.resolve_left hp
    rw [written, if_neg hp]
    exact next_entryLine_quoted hne hn hq rest

/-- An expressible outline is read from a text. -/
theorem Expressible.allFrom_text_written (h : outline.Expressible quotes) (inSection : Bool) :
    allFrom quotes inSection (mapValues (written quotes) outline).text = items outline := by
  refine allFrom_text_mapValues h.wellFormed (fun s hs => (h.every s hs).1) ?_ inSection
  intro s hs entry he
  obtain ⟨-, -, hentries⟩ := h.wellFormed.each s hs
  obtain ⟨-, hread⟩ := h.every s hs
  exact readsBack_written (hentries entry he).1 (hread entry he).1 (hread entry he).2

/-- Headers and entries leave no quote open. -/
theorem findSome?_items (outline : Outline) : (items outline).findSome? Item.unclosed? = none := by
  rw [List.findSome?_eq_none_iff]
  intro item hitem
  obtain ⟨s, -, hs⟩ := List.mem_flatMap.1 hitem
  rcases List.mem_cons.1 hs with rfl | he
  · rfl
  · obtain ⟨entry, -, rfl⟩ := List.mem_map.1 he
    rfl

end Outline

/-! ## What scans bring -/

/-- The outlines that scans of texts into an empty document bring are exactly the expressible ones. -/
theorem Document.exists_scan_iff (id : Nat) (options : Options) (outline : Outline) :
    (∃ (text : String) (s : Summary), ((empty id).scan options text).2 = .ok s ∧
      ((empty id).scan options text).1.contents = outline) ↔ outline.Expressible options.quotes := by
  constructor
  · rintro ⟨text, -, -, rfl⟩
    constructor
    · exact wellFormed_contents (wellFormed_ofText id options text.toList)
    · exact every_ofText id (Item.every_of_mem_allFrom _ _ _)
  · intro h
    let text := (Outline.mapValues (Outline.written options.quotes) outline).text
    have hitems : Item.all options.quotes text = outline.items := h.allFrom_text_written false
    have hclosed : (Item.all options.quotes text).findSome? Item.unclosed? = none :=
      hitems ▸ Outline.findSome?_items outline
    obtain ⟨s, hs⟩ := scanChars_of_closed (empty id) hclosed
    refine ⟨String.ofList text, s, ?_, ?_⟩
    · rw [scan, String.toList_ofList, hs]
    · rw [scan, String.toList_ofList]
      show (ofText id options text).contents = outline
      rw [contents_ofText, hitems]
      exact Draft.outline_addAll_items (Draft.start []) rfl h.wellFormed

/-- A value of two lines can be said in quotes only. -/
example : Outline.Expressible true [("a b", [("k", "1;\n2")])] ∧
    ¬Outline.Expressible false [("a b", [("k", "1;\n2")])] :=
  ⟨⟨⟨by decide +kernel, by decide +kernel⟩, by decide +kernel⟩, fun h => absurd h.every (by decide +kernel)⟩

end IniDoc
