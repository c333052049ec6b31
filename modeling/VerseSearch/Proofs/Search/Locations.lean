import Mathlib.Data.List.Basic
import VerseSearch.Proofs.Search.Answers

/-! # Locations of verses

A location is a book, a space, a numeral, a colon and a numeral. The letters of a numeral add up to its
number, and no numeral holds a space or a colon, so a location is read from its end: what stands before
the last space is the book, whatever the book holds.

* `Numeral.value`: what the letters of a text add up to.
* `Numeral.value_ofNat`: the value of a numeral is its number.
* `location_inj`: verses at one location have the same book, chapter and verse.
* `locations_differ`: verses at different places have different locations.
-/

namespace VerseSearch
set_option autoImplicit false

/-! ## Numerals -/

namespace Numeral

/-- The number that a letter stands for: its place in a row of letters, counted in ones, tens or
hundreds. -/
def letterValue (c : Char) : ℕ :=
  if c ∈ units then units.idxOf c + 1
  else if c ∈ tens then (tens.idxOf c + 1) * 10
  else (hundreds.idxOf c + 1) * 100

/-- What the letters of a text add up to. -/
def value (t : Text) : ℕ := (t.map letterValue).sum

@[simp] theorem value_append (s t : Text) : value (s ++ t) = value s + value t := by
  simp [value]

/-- Also the two numerals that are written in another way add up to their numbers. -/
theorem value_ofNat {n : ℕ} (hn : n ≤ limit) : value (ofNat n) = n := by
  have hhundreds : ∀ d < 5, value (digit hundreds d) = d * 100 := by decide
  have htens : ∀ d < 10, value (digit tens d) = d * 10 := by decide
  have hunits : ∀ d < 10, value (digit units d) = d := by decide
  unfold limit at hn
  unfold ofNat
  split
  · next h => subst h; decide
  split
  · next h => subst h; decide
  · rw [value_append, value_append, hhundreds _ (by omega), htens _ (by omega), hunits _ (by omega)]
    omega

theorem mem_row_of_mem_digit {row : Text} {d : ℕ} {c : Char} (hc : c ∈ digit row d) : c ∈ row := by
  unfold digit at hc
  split at hc
  · cases hc
  · exact List.mem_of_getElem? (Option.mem_toList.mp hc)

theorem not_mem_ofNat {c : Char} (hc : c ∉ hundreds ++ tens ++ units) (n : ℕ) : c ∉ ofNat n := by
  intro hmem
  unfold ofNat at hmem
  split at hmem
  · exact hc ((by decide : ['ט', 'ו'] ⊆ hundreds ++ tens ++ units) hmem)
  split at hmem
  · exact hc ((by decide : ['ט', 'ז'] ⊆ hundreds ++ tens ++ units) hmem)
  · simp only [List.mem_append] at hmem hc
    exact hc (hmem.imp (Or.imp mem_row_of_mem_digit mem_row_of_mem_digit) mem_row_of_mem_digit)

theorem ofIndex_spec {n : ℕ} {t : Text} (h : ofIndex n = .ok t) : value t = n + 1 ∧ ' ' ∉ t ∧ ':' ∉ t := by
  have hlimit := lt_of_ofIndex h
  obtain rfl : ofNat (n + 1) = t := Except.ok.inj ((if_pos hlimit).symm.trans h)
  exact ⟨value_ofNat hlimit, not_mem_ofNat (by decide) _, not_mem_ofNat (by decide) _⟩

/-- Different places have different numerals. -/
theorem ofIndex_inj {m n : ℕ} {t : Text} (hm : ofIndex m = .ok t) (hn : ofIndex n = .ok t) : m = n := by
  have hsum := (ofIndex_spec hm).1.symm.trans (ofIndex_spec hn).1
  omega

end Numeral

/-! ## Locations -/

/-- A text is cut in one way at the last occurrence of a character. -/
theorem append_cons_inj_of_last {s s' t t' : Text} {c : Char} (ht : c ∉ t) (ht' : c ∉ t')
    (h : s ++ c :: t = s' ++ c :: t') : s = s' ∧ t = t' := by
  have hreverse := congrArg List.reverse h
  simp only [List.reverse_append, List.reverse_cons, List.append_assoc, List.singleton_append]
    at hreverse
  have hfirst : t.reverse = t'.reverse := by
    have htake := congrArg (List.takeWhile (· ≠ c)) hreverse
    have hall : ∀ u : Text, c ∉ u → ∀ d ∈ u.reverse, decide (d ≠ c) = true := by
      rintro u hu d hd
      simpa using fun heq : d = c => hu (heq ▸ List.mem_reverse.mp hd)
    rw [List.takeWhile_append_of_pos (hall t ht), List.takeWhile_append_of_pos (hall t' ht')] at htake
    simpa using htake
  rw [List.reverse_inj] at hfirst
  subst hfirst
  exact ⟨List.append_cancel_right h, rfl⟩

/-- The location says all about the place. -/
theorem location_inj {v w : IndexedVerse} {t : Text} (hv : v.location = .ok t) (hw : w.location = .ok t) :
    v.book = w.book ∧ v.chapter = w.chapter ∧ v.verse = w.verse := by
  obtain ⟨chapter, verse, hchapter, hverse, hlocation⟩ :=
    location_of_hasNumerals (exists_location_iff.mp ⟨t, hv⟩)
  obtain ⟨chapter', verse', hchapter', hverse', hlocation'⟩ :=
    location_of_hasNumerals (exists_location_iff.mp ⟨t, hw⟩)
  have heq := Except.ok.inj (hlocation.symm.trans (hv.trans (hw.symm.trans hlocation')))
  -- from the end of the text: the last colon, then the last space before it
  obtain ⟨hfront, rfl⟩ :=
    append_cons_inj_of_last (Numeral.ofIndex_spec hverse).2.2 (Numeral.ofIndex_spec hverse').2.2 heq
  obtain ⟨hbook, rfl⟩ := append_cons_inj_of_last (Numeral.ofIndex_spec hchapter).2.1
    (Numeral.ofIndex_spec hchapter').2.1 hfront
  exact ⟨hbook, Numeral.ofIndex_inj hchapter hchapter', Numeral.ofIndex_inj hverse hverse'⟩

/-- Verses at different places with numerals have locations, and these differ, whatever the names of
the books are. -/
theorem locations_differ {v w : IndexedVerse} (hv : v.chapter ≤ 498 ∧ v.verse ≤ 498)
    (hw : w.chapter ≤ 498 ∧ w.verse ≤ 498)
    (hne : (v.book, v.chapter, v.verse) ≠ (w.book, w.chapter, w.verse)) :
    ∃ s t, v.location = .ok s ∧ w.location = .ok t ∧ s ≠ t := by
  have hnumerals : ∀ u : IndexedVerse, u.chapter ≤ 498 ∧ u.verse ≤ 498 → HasNumerals u := fun u hu =>
    hu.imp Nat.lt_succ_of_le Nat.lt_succ_of_le
  obtain ⟨s, hs⟩ := exists_location_iff.mpr (hnumerals v hv)
  obtain ⟨t, ht⟩ := exists_location_iff.mpr (hnumerals w hw)
  refine ⟨s, t, hs, ht, ?_⟩
  rintro rfl
  obtain ⟨hbook, hchapter, hverse⟩ := location_inj hs ht
  exact hne (by rw [hbook, hchapter, hverse])

/-- A book whose name is the location of a verse in another book, with the two numerals that are written
in another way. -/
theorem locations_differ_of_book_like_location :
    (14 ≤ 498 ∧ 15 ≤ 498) ∧ (0 ≤ 498 ∧ 498 ≤ 498) ∧
      IndexedVerse.location ⟨0, "א".toList, 14, 15, [], [], []⟩ = .ok "א טו:טז".toList ∧
      ∃ s t, IndexedVerse.location ⟨0, "א".toList, 14, 15, [], [], []⟩ = .ok s ∧
        IndexedVerse.location ⟨1, "א טו:טז".toList, 0, 498, [], [], []⟩ = .ok t ∧ s ≠ t :=
  ⟨by decide, by decide, rfl, locations_differ (by decide) (by decide) (by decide)⟩

end VerseSearch
