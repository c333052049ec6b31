import VerseSearch.Proofs.Hebrew.Normalization

/-! # What normalization makes of a text

* `find?_cutVerseEnd`: cutting the end of a verse does not change which character is the first one
  outside the alphabet.
* `isPlainLetter`: the letters of searchable forms.
* `plain_of_searchable`, `searchable_of_plain`: searchable forms are the texts of such letters.
* `normalize_outcome`: the normalized form of a text or its first unknown character, and what a second
  normalization and the searchable forms are.
-/

namespace VerseSearch.Hebrew
set_option autoImplicit false

/-! ## The first unknown character -/

theorem contains_of_isVerseEnd {c : Char} (hc : isVerseEnd c = true) :
    Alphabet.hebrew.contains c = true := by
  have hall : ∀ c ∈ [sofPasuq, openSection, closedSection, nunHafukha],
      Alphabet.hebrew.contains c = true := by decide
  refine hall c ?_
  simpa [isVerseEnd, or_assoc] using hc

/-- A property that no verse-end character has is looked for in vain in the end of a verse, so a line
feed after it, which is why nothing may be cut, does not matter. -/
theorem find?_cutVerseEnd {p : Char → Bool} (hp : ∀ c, isVerseEnd c = true → p c = false) {a b : Text}
    (ha : ∀ c ∈ a.getLast?, isVerseEnd c = false) (hb : ∀ c ∈ b, isVerseEnd c = true) :
    (cutVerseEnd (a ++ b)).find? p = (a ++ b.takeWhile (· ≠ sofPasuq)).find? p := by
  by_cases hbreak : (a ++ b).getLast? = some '\n'
  · obtain rfl : b = [] := by
      by_contra hne
      rw [List.getLast?_append_of_ne_nil _ hne] at hbreak
      exact absurd (hb '\n' (List.mem_of_getLast? hbreak)) (by decide)
    rw [List.append_nil] at hbreak
    obtain ⟨line, rfl⟩ := List.getLast?_eq_some_iff.mp hbreak
    obtain ⟨x, y, rfl, hx, hy⟩ := exists_verseEnd line
    have hnone : ∀ s : Text, (∀ c ∈ s, isVerseEnd c = true) → s.find? p = none := fun s hs =>
      List.find?_eq_none.mpr fun c hc => by simp [hp c (hs c hc)]
    have hkept : (y.takeWhile (· ≠ sofPasuq)).find? p = none :=
      hnone _ fun c hc => hy c ((List.takeWhile_prefix _).subset hc)
    rw [List.append_nil, cutVerseEnd_append_break hx hy, List.takeWhile_nil, List.append_nil]
    simp only [List.find?_append, hkept, hnone y hy, Option.or_none]
  · rw [cutVerseEnd_append ha hb hbreak]

/-! ## Letters of searchable forms -/

/-- A letter that is no final form. -/
def isPlainLetter (c : Char) : Bool := isLetter c && !(finalForms.map (·.1)).contains c

theorem mem_letters_of_isPlainLetter {c : Char} (hc : isPlainLetter c = true) : c ∈ letters := by
  rw [isPlainLetter, Bool.and_eq_true] at hc
  simpa [isLetter] using hc.1

theorem not_mem_of_plain {form : Text} (h : ∀ c ∈ form, isPlainLetter c = true) {c : Char}
    (hc : isPlainLetter c = false) : c ∉ form := fun hmem => by
  rw [h c hmem] at hc
  cases hc

theorem isPlainLetter_toRegular {c : Char} (hc : isLetter c = true) :
    isPlainLetter (toRegular c) = true := by
  have hall : ∀ c ∈ letters, isPlainLetter (toRegular c) = true := by decide
  exact hall c (by simpa [isLetter] using hc)

theorem toRegular_of_isPlainLetter {c : Char} (hc : isPlainLetter c = true) : toRegular c = c := by
  obtain h | ⟨f, hf, rfl, -⟩ := toRegular_cases c
  · exact h
  · have hfinal : f.1 ∈ finalForms.map (·.1) := List.mem_map_of_mem hf
    simp [isPlainLetter, hfinal] at hc

theorem plain_of_searchable {t form : Text} (h : searchable t = .ok form) :
    ∀ c ∈ form, isPlainLetter c = true := by
  rw [searchable, searchableIn] at h
  obtain ⟨n, -, rfl⟩ := ok_of_map h
  intro c hc
  obtain ⟨d, hd, rfl⟩ := List.mem_map.mp hc
  exact isPlainLetter_toRegular (List.mem_filter.mp hd).2

/-! ## Normalized letters -/

theorem contains_of_isPlainLetter {c : Char} (hc : isPlainLetter c = true) :
    Alphabet.hebrew.contains c = true := by
  have hall : ∀ c ∈ letters, Alphabet.hebrew.contains c = true := by decide
  exact hall c (mem_letters_of_isPlainLetter hc)

/-- The section marks are letters, but nothing is cut where no sof-pasuq stands. -/
theorem normalize_of_plain {form : Text} (h : ∀ c ∈ form, isPlainLetter c = true) :
    normalize form = .ok form := by
  have hsymbols : ∀ c ∈ form, Alphabet.hebrew.contains c = true := fun c hc =>
    contains_of_isPlainLetter (h c hc)
  have hmaqaf : form.filter (· ≠ maqaf) = form := List.filter_eq_self.mpr fun c hc =>
    decide_eq_true fun heq => not_mem_of_plain h (c := maqaf) (by decide) (heq ▸ hc)
  have hcut : cutVerseEnd form = form := by
    have hbreak : form.getLast? ≠ some '\n' := fun hlast =>
      not_mem_of_plain h (by decide) (List.mem_of_getLast? hlast)
    obtain ⟨a, b, rfl, ha, hb⟩ := exists_verseEnd form
    have hkept : b.takeWhile (· ≠ sofPasuq) = b := List.takeWhile_eq_self_iff.mpr fun c hc =>
      decide_eq_true fun heq =>
        not_mem_of_plain h (c := sofPasuq) (by decide) (heq ▸ List.mem_append_right a hc)
    rw [cutVerseEnd_append ha hb hbreak, hkept]
  refine normalize_eq_ok_iff.mpr ⟨?_, hsymbols⟩
  rw [canonical, compose_of_contains hsymbols, hmaqaf, hcut]

/-- Letters without final forms are their own searchable form. -/
theorem searchable_of_plain {form : Text} (h : ∀ c ∈ form, isPlainLetter c = true) :
    searchable form = .ok form := by
  have hletters : keepLetters form = form := List.filter_eq_self.mpr fun c hc => by
    have hc := h c hc
    rw [isPlainLetter, Bool.and_eq_true] at hc
    exact hc.1
  have hregular : regularize form = form := by
    rw [regularize, List.map_congr_left fun c hc => toRegular_of_isPlainLetter (h c hc), List.map_id']
  rw [searchable_of_normalize (normalize_of_plain h), hletters, hregular]

/-! ## The outcome -/

/-- The text without dots and maqafs ends in a longest run of verse-end characters, and the result is
cut at the first sof-pasuq there. The result is its own normalized form and has the same searchable
form, which is the searchable form of itself. -/
theorem normalize_outcome (t : Text) :
    (∃ body tail v, (compose t).filter (· ≠ maqaf) = body ++ tail ∧
      (∀ c ∈ tail, isVerseEnd c = true) ∧ (∀ c ∈ body.getLast?, isVerseEnd c = false) ∧
      v = body ++ tail.takeWhile (· ≠ sofPasuq) ∧
      ((∀ c ∈ v, Alphabet.hebrew.contains c = true) → normalize t = .ok v) ∧
      ∀ c, v.find? (fun c => !Alphabet.hebrew.contains c) = some c →
        normalize t = .error ⟨c, canonical t⟩) ∧
    ∀ n, normalize t = .ok n → normalize n = .ok n ∧ searchable n = searchable t ∧
      ∃ form, searchable t = .ok form ∧ (∀ c ∈ form, isPlainLetter c = true) ∧
        searchable form = .ok form := by
  constructor
  · obtain ⟨body, tail, hsplit, hbody, htail⟩ := exists_verseEnd ((compose t).filter (· ≠ maqaf))
    have hfirst := find?_cutVerseEnd (p := fun c => !Alphabet.hebrew.contains c)
      (fun c hc => by rw [contains_of_isVerseEnd hc]; rfl) hbody htail
    rw [← hsplit, ← canonical] at hfirst
    refine ⟨body, tail, _, hsplit, htail, hbody, rfl, fun hsymbols => ?_, fun c hc => ?_⟩
    · have hnone : (canonical t).find? (fun c => !Alphabet.hebrew.contains c) = none := by
        rw [hfirst]
        exact List.find?_eq_none.mpr fun c hc => by simp [hsymbols c hc]
      have hcanonical : ∀ c ∈ canonical t, Alphabet.hebrew.contains c = true := by
        simpa using List.find?_eq_none.mp hnone
      have hbreak : (body ++ tail).getLast? ≠ some '\n' := fun hlast => by
        obtain ⟨line, hline⟩ := List.getLast?_eq_some_iff.mp hlast
        refine absurd (hcanonical '\n' ?_) (by decide)
        rw [canonical, hsplit, cutVerseEnd, splitFinalBreak, if_pos hlast]
        simp
      refine normalize_eq_ok_iff.mpr ⟨?_, hsymbols⟩
      rw [canonical, hsplit, cutVerseEnd_append hbody htail hbreak]
    · rw [normalize, normalizeIn, hfirst, hc]
  · intro n hn
    have hform := searchable_of_normalize hn
    have hself := normalize_of_normalize hn
    have hplain := plain_of_searchable hform
    exact ⟨hself, by rw [hform, searchable_of_normalize hself], _, hform, hplain,
      searchable_of_plain hplain⟩

end VerseSearch.Hebrew
