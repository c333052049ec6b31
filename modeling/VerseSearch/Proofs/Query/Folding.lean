import VerseSearch.Proofs.Hebrew.Composition
import VerseSearch.Proofs.Hebrew.SearchableForms
import VerseSearch.Proofs.Query.Vocalization

/-! # Words in queries

A query folds final forms first and drops marks by name; a searchable form keeps the letters and folds
final forms last. On texts of the alphabet the two agree.

* `contains_compose`: what normalization accepts is made of symbols before anything is cut off.
* `normalizeSource_of_symbols`: a query of letters and marks is the searchable form of its text.
* `searchable_iff_source`: a word is sought by its own spelling, unless section marks were cut off.
-/

namespace VerseSearch.Query
set_option autoImplicit false

open Hebrew (compose cutVerseEnd isLetter isNonLetter keepLetters maqaf normalize regularize searchable
  separator toRegular)

/-! ## Letters and marks -/

theorem letter_or_mark {c : Char} (hc : Alphabet.hebrew.contains c = true) (hspace : c ≠ separator) :
    isLetter c = true ∨ isNonLetter c = true := by
  have hmem : c ∈ separator :: Hebrew.letters ++ Hebrew.nonLetters := by
    simpa [Alphabet.contains, Alphabet.hebrew, Alphabet.hebrewSymbols] using hc
  simpa [isLetter, isNonLetter, hspace] using hmem

theorem not_mark_of_isLetter {c : Char} (hc : isLetter c = true) : isNonLetter c = false := by
  have hall : ∀ c ∈ Hebrew.letters, isNonLetter c = false := by decide
  exact hall c (by simpa [isLetter] using hc)

theorem signText_of_isLetter {c : Char} (hc : isLetter c = true) : signText c = [toRegular c] := by
  have hall : ∀ c ∈ Hebrew.letters, signText c = [toRegular c] := by decide
  exact hall c (by simpa [isLetter] using hc)

/-! ## Queries of letters and marks -/

theorem normalizeSource_compose (t : Text) : normalizeSource (compose t) = normalizeSource t := by
  have hletters : substituteLetters (compose t) = substituteLetters t := by
    rw [substituteLetters, Hebrew.regularize_compose,
      Hebrew.compose_of_isComposed (Hebrew.isComposed_compose _), substituteLetters]
  rw [normalizeSource, hletters, normalizeSource]

section
variable {u : Text} (hu : ∀ c ∈ u, Alphabet.hebrew.contains c = true) (hspace : separator ∉ u)
include hu hspace

theorem dropNonLetters_of_symbols : dropNonLetters u = keepLetters u := by
  refine List.filter_congr fun c hc => ?_
  obtain h | h := letter_or_mark (hu c hc) fun heq => hspace (heq ▸ hc)
  · rw [h, not_mark_of_isLetter h]
    rfl
  · have hnot : isLetter c = false := by
      by_contra hletter
      rw [not_mark_of_isLetter (by simpa using hletter)] at h
      cases h
    rw [h, hnot]
    rfl

theorem collapseBlanks_of_symbols : collapseBlanks u = u := by
  have hall : ∀ c ∈ Hebrew.letters ++ Hebrew.nonLetters, Text.isBlank c = false := by decide
  have hblank : ∀ c ∈ u, Text.isBlank c = false := fun c hc => hall c (by
    simpa [isLetter, isNonLetter] using letter_or_mark (hu c hc) fun heq => hspace (heq ▸ hc))
  cases u with
  | nil => rfl
  | cons c u =>
    have hkept := collapseBlanksFrom_append (List.cons_ne_nil c u) hblank false []
    rwa [collapseBlanksFrom, List.append_nil] at hkept

/-- Letters become their letters, and marks are dropped. -/
theorem normalizeSource_of_symbols : normalizeSource u = regularize (keepLetters u) := by
  have hplain : ∀ c ∈ u, c ∉ interfering := fun c hc hmem => by
    have hnone : ∀ c ∈ interfering, Alphabet.hebrew.contains c = false := by decide
    exact Hebrew.not_mem_of_contains hu (hnone c hmem) hc
  have hsigns : (keepLetters u).flatMap signText = regularize (keepLetters u) := by
    rw [regularize_eq_flatMap]
    exact List.flatMap_congr fun c hc => signText_of_isLetter (List.mem_filter.mp hc).2
  have hslots : ' ' ∉ regularize (keepLetters u) := fun hmem => by
    rw [Hebrew.mem_regularize_iff (by decide)] at hmem
    exact hspace (List.mem_of_mem_filter hmem)
  rw [normalizeSource_plain hplain, collapseBlanks_of_symbols hu hspace,
    dropNonLetters_of_symbols hu hspace, hsigns, insertTagSlots_of_not_mem hslots]

end

/-! ## Words -/

section
variable {t n : Text} (hn : normalize t = .ok n) (hmaqaf : maqaf ∉ t)
include hn hmaqaf

theorem cutVerseEnd_compose : cutVerseEnd (compose t) = n := by
  have hnone : maqaf ∉ compose t := fun hmem => by
    obtain h | h := Hebrew.mem_compose hmem
    · exact hmaqaf h
    · exact absurd h (by decide)
  have hkept : (compose t).filter (· ≠ maqaf) = compose t :=
    List.filter_eq_self.mpr fun c hc => decide_eq_true fun heq => hnone (heq ▸ hc)
  rw [← (Hebrew.normalize_eq_ok_iff.mp hn).1, Hebrew.canonical, hkept]

/-- What is cut off consists of verse-end characters. -/
theorem exists_cut : ∃ cut, compose t = n ++ cut ∧ ∀ c ∈ cut, Hebrew.isVerseEnd c = true := by
  have hcut := cutVerseEnd_compose hn hmaqaf
  have hbreak : (compose t).getLast? ≠ some '\n' := fun hlast => by
    rw [cutVerseEnd, Hebrew.splitFinalBreak, if_pos hlast] at hcut
    refine Hebrew.not_mem_of_contains (Hebrew.contains_of_normalize hn) (c := '\n') (by decide) ?_
    simp [← hcut]
  obtain ⟨a, b, hsplit, ha, hb⟩ := Hebrew.exists_verseEnd (compose t)
  rw [hsplit, Hebrew.cutVerseEnd_append ha hb (hsplit ▸ hbreak)] at hcut
  refine ⟨b.dropWhile (· ≠ Hebrew.sofPasuq), ?_, fun c hc => hb c ((List.dropWhile_suffix _).subset hc)⟩
  rw [hsplit, ← hcut, List.append_assoc, List.takeWhile_append_dropWhile]

/-- What normalization accepts is made of symbols before anything is cut off. -/
theorem contains_compose : ∀ c ∈ compose t, Alphabet.hebrew.contains c = true := by
  obtain ⟨cut, hsplit, hcut⟩ := exists_cut hn hmaqaf
  intro c hc
  rw [hsplit, List.mem_append] at hc
  obtain hc | hc := hc
  · exact Hebrew.contains_of_normalize hn c hc
  · exact Hebrew.contains_of_isVerseEnd (hcut c hc)

end

/-- The pattern of a word is its searchable form if no end of a verse was cut off from the word, however
the word is spelled. In general it is if and only if what was cut off held no section mark. -/
theorem searchable_iff_source {t n : Text} (hspace : separator ∉ t) (hmaqaf : maqaf ∉ t)
    (hn : normalize t = .ok n) :
    (cutVerseEnd (compose t) = compose t → searchable t = .ok (normalizeSource t)) ∧
      ∃ cut, compose t = n ++ cut ∧
        (searchable t = .ok (normalizeSource t) ↔ ∀ c ∈ cut, isLetter c = false) := by
  obtain ⟨cut, hsplit, -⟩ := exists_cut hn hmaqaf
  have hnone : separator ∉ compose t := fun hmem => by
    obtain h | h := Hebrew.mem_compose hmem
    · exact hspace h
    · exact absurd h (by decide)
  have hsource : normalizeSource t = regularize (keepLetters n) ++ regularize (keepLetters cut) := by
    rw [← normalizeSource_compose, normalizeSource_of_symbols (contains_compose hn hmaqaf) hnone, hsplit,
      keepLetters, List.filter_append, Hebrew.regularize_append]
    rfl
  have hiff : searchable t = .ok (normalizeSource t) ↔ ∀ c ∈ cut, isLetter c = false := by
    rw [Hebrew.searchable_of_normalize hn, hsource, Except.ok.injEq, List.self_eq_append_right, regularize,
      List.map_eq_nil_iff, keepLetters, List.filter_eq_nil_iff]
    simp
  refine ⟨fun hcut => hiff.mpr ?_, cut, hsplit, hiff⟩
  rw [cutVerseEnd_compose hn hmaqaf, hsplit, List.self_eq_append_right] at hcut
  simp [hcut]

/-- A peace with points, a shin spelled with its dot after a vowel, and a final form; and a word before
the end of a verse with a section mark. -/
theorem searchable_iff_source_of_peace :
    let peace : Text := ['\u05e9', '\u05b8', '\u05c1', 'ל', 'ו', '\u05b9', 'ם']
    let last : Text := ['א', 'ב', '\u05c3', 'פ']
    separator ∉ peace ∧ maqaf ∉ peace ∧ cutVerseEnd (compose peace) = compose peace ∧
      searchable peace = .ok (normalizeSource peace) ∧ separator ∉ last ∧ maqaf ∉ last ∧
      searchable last ≠ .ok (normalizeSource last) := by
  intro peace last
  have hpeace : normalize peace = .ok ['\ufb2a', '\u05b8', 'ל', 'ו', '\u05b9', 'ם'] := by decide +kernel
  have hlast : normalize last = .ok ['א', 'ב'] := by decide +kernel
  have hcut : cutVerseEnd (compose peace) = compose peace := by decide +kernel
  obtain ⟨hsame, -⟩ := searchable_iff_source (by decide) (by decide) hpeace
  obtain ⟨-, cut, hsplit, hiff⟩ := searchable_iff_source (by decide) (by decide) hlast
  have hcompose : compose last = ['א', 'ב'] ++ ['\u05c3', 'פ'] := by decide +kernel
  obtain rfl := List.append_cancel_left (hcompose.symm.trans hsplit)
  exact ⟨by decide, by decide, hcut, hsame hcut, by decide, by decide, fun h => absurd (hiff.mp h) (by decide)⟩

end VerseSearch.Query
