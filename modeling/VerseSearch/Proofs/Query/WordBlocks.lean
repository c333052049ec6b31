import VerseSearch.Proofs.Matching.WholeTexts
import VerseSearch.Proofs.Query.Compilation
import VerseSearch.Proofs.Query.Forms

/-! # Blocks of words

A block whose inside is a choice of words finds the entries whose searchable form is a form of one of
the words. No number of an entry is a form of a word, so numbers find nothing there.

* `normalizeBlock_plain`: the pattern of a block without brackets, ranges and dots.
* `findEntries_words`: the entries that a choice of words finds.
-/

namespace VerseSearch.Query
set_option autoImplicit false

open Pattern (ReadsAs)

/-! ## Patterns -/

/-- Without brackets, ranges and dots, the signs of a block are replaced one by one. -/
theorem normalizeBlock_plain {t : Text} (ht : ∀ c ∈ t, c ∉ interfering) :
    normalizeBlock t = t.flatMap signText := by
  rw [normalizeBlock, substituteLetters_eq ht, substituteSigns_eq ht]

theorem isSign_of_letter {c : Char} (hc : Hebrew.isLetter c = true ∨ c = Hebrew.bareShin) :
    isSign c = true := by
  obtain h | rfl := hc
  · simp [isSign, h]
  · rfl

/-- A choice of words. -/
def wordsText (words : List Text) : Text := List.intercalate ['|'] words

section
variable {words : List Text} (hwords : ∀ w ∈ words, IsLetters w)
include hwords

theorem mem_wordsText {c : Char} (hc : c ∈ wordsText words) : c = '|' ∨ isSign c = true :=
  (mem_intercalate hc).imp_right fun ⟨w, hw, hc⟩ => isSign_of_letter (hwords w hw c hc)

theorem isInner_wordsText : IsInner (wordsText words) := by
  constructor <;> intro hmem <;> exact absurd (mem_wordsText hwords hmem) (by decide)

theorem normalizeBlock_wordsText :
    normalizeBlock (wordsText words) = List.intercalate ['|'] (words.map (·.flatMap signText)) := by
  rw [normalizeBlock_plain, wordsText, flatMap_intercalate (by decide)]
  intro c hc
  obtain rfl | hsign := mem_wordsText hwords hc
  · decide
  · exact (isOrdinary_iff.mp (isSign_spec hsign).1).1

theorem readsAs_words [Pattern.CharNames] : List.Forall₂ ReadsAs (words.map (·.flatMap signText))
    (words.map fun w => (w.map matched).prod) := by
  rw [List.forall₂_map_left_iff, List.forall₂_map_right_iff, List.forall₂_same]
  exact fun w hw => (readsAs_flatMap_signText fun c hc =>
    (isSign_spec (isSign_of_letter (hwords w hw c hc))).2.1).1

/-- The pattern of a choice of words matches the forms of the words. -/
theorem parseAnchored_wordsText [Pattern.CharNames] (hne : words ≠ []) :
    ∃ p, Pattern.parseAnchored (normalizeBlock (wordsText words)) = .ok p ∧
      ∀ u, p.fullMatches u = true ↔ ∃ w ∈ words, isForm w u = true := by
  have hreads := Pattern.readsChoice_intercalate (by simpa using hne) (readsAs_words hwords)
  obtain ⟨n, hn, hparse⟩ := Pattern.parseAnchored_of_readsChoice hreads (by simpa using hne)
  refine ⟨_, normalizeBlock_wordsText hwords ▸ hparse, fun u => ?_⟩
  rw [Pattern.fullMatches_anchored hn, Pattern.mem_sum]
  simp only [List.mem_map, exists_exists_and_eq_and]
  exact exists_congr fun w => and_congr_right fun hw => mem_matched_iff_isForm (hwords w hw)

omit hwords in
/-- The digits of a number are no form of a word. -/
theorem not_isForm_ofNat {w : Text} (hw : IsLetters w) (n : ℕ) : isForm w (Text.ofNat n) = false := by
  by_contra h
  have hletters := letters_of_mem_prod hw ((mem_matched_iff_isForm hw).mpr (by simpa using h))
  obtain ⟨c, hc⟩ := List.exists_mem_of_ne_nil _ (Text.ofNat_ne_nil n)
  have hdigit := (digits_spec (Text.mem_digits_of_mem_ofNat hc)).2.2.2.2
  rw [accepts_anyLetter (hletters c hc)] at hdigit
  cases hdigit

end

/-! ## Entries -/

/-- A choice of words finds the entries with a word whose searchable form is a form of one of them, in
the order of the lexicon. -/
theorem findEntries_words [Pattern.CharNames] (l : Lexicon) (verbsOnly : Bool) (words : List Text)
    (hne : words ≠ []) (hwords : ∀ w ∈ words, IsLetters w) :
    ∃ entries, findEntries l (wordsText words) verbsOnly = .ok entries ∧ entries.Sublist l.entries ∧
      ∀ e, e ∈ entries ↔ e ∈ l.entries ∧ e.isSentinel = false ∧ (verbsOnly = true → e.isVerb = true) ∧
        ∃ w ∈ words, isForm w e.searchable = true := by
  obtain ⟨p, hparse, hmatches⟩ := parseAnchored_wordsText hwords hne
  refine ⟨l.find p verbsOnly, by rw [findEntries, hparse], List.filter_sublist, fun e => ?_⟩
  have hnumber : p.fullMatches (Text.ofNat e.tag) = false := by
    by_contra h
    obtain ⟨w, hw, hform⟩ := (hmatches _).mp (by simpa using h)
    rw [not_isForm_ofNat (hwords w hw)] at hform
    cases hform
  rw [Lexicon.find, List.mem_filter, Entry.isMatchedBy, hnumber, Bool.false_or]
  simp only [Bool.and_eq_true, Bool.or_eq_true, Bool.not_eq_true', hmatches]
  cases verbsOnly <;> simp [and_comm, and_left_comm]

end VerseSearch.Query
