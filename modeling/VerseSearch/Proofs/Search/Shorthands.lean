import VerseSearch.Proofs.Query.Compilation
import VerseSearch.Proofs.Search.MarkedWords

/-! # Searches for letters and shorthands

* `wordPattern_of_signs`: the pattern of a query of signs is one for texts inside words.
* `marks_described_words`: a search for signs marks the words in whose searchable forms a text stands
  that the signs describe.
-/

namespace VerseSearch.Query
set_option autoImplicit false

theorem wordPattern_of_signs {p : Pattern} {q : Text} (hq : ∀ c ∈ q, isSign c = true)
    (hvisible : ∃ c ∈ q, c ≠ '@') (hp : p.node.Denotes (q.map matched).prod) :
    WordPattern p (q.map matched).prod :=
  ⟨hp, fun _ => SearchString.inner_of_mem_prod hq hvisible⟩

theorem matched_infix_iff {q form tag : Text} (hq : ∀ c ∈ q, isSign c = true)
    (hvisible : ∃ c ∈ q, c ≠ '@') (hform : ∀ c ∈ form, c ∈ Hebrew.letters)
    (htag : ∀ c ∈ tag, c ∈ Text.digits) :
    (∃ u ∈ (q.map matched).prod, u <:+: SearchString.segment form tag) ↔
      ∃ u ∈ (q.map described).prod, u <:+: form := by
  have haccepts : ∀ c ∈ form, anyLetter.accepts c = true := fun c hc => accepts_anyLetter (hform c hc)
  constructor
  · rintro ⟨u, hu, hpart⟩
    have hform' := (SearchString.infix_segment_iff haccepts htag (ne_nil_of_mem_prod hvisible hu)
      (accepts_of_mem_prod hq hu)).mp hpart
    exact ⟨u, (mem_matched_iff fun d hd => hform d (hform'.subset hd)).mp hu, hform'⟩
  · rintro ⟨u, hu, hpart⟩
    have hu' := (mem_matched_iff fun d hd => hform d (hpart.subset hd)).mpr hu
    exact ⟨u, hu', (SearchString.infix_segment_iff haccepts htag (ne_nil_of_mem_prod hvisible hu')
      (accepts_of_mem_prod hq hu')).mpr hpart⟩

/-- A query of letters and shorthands, not all of them the sign for vowels, compiles. A search for it
marks the words in whose searchable forms a text stands that the signs describe one after the other,
and a verse is a result if a word is marked. -/
theorem marks_described_words [Pattern.CharNames] [Text.Ranking] (l : Lexicon) (verbsOnly : Bool)
    (limit : ℕ) {q : Text}
    (hq : ∀ c ∈ q, isSign c = true) (hvisible : ∃ c ∈ q, c ≠ '@') {index : ℕ} {book : Text}
    {chapter verse : ℕ} {ws : List TaggedWord} {v : IndexedVerse}
    (hv : VerseIndex.indexVerse index book chapter verse ws = .ok v) (htags : ∀ w ∈ ws, 0 ≤ w.tag) :
    ∃ c marked, compile l q verbsOnly limit = .ok c ∧ Marks c.pattern v marked ∧
      marked.Pairwise (· < ·) ∧
      ∀ n, n ∈ marked ↔ ∃ w form, ws[n]? = some w ∧ Hebrew.searchable w.word = .ok form ∧
        ∃ u ∈ (q.map described).prod, u <:+: form := by
  have hne : q ≠ [] := by
    rintro rfl
    simp at hvisible
  obtain ⟨c, hc, -, -, hdenotes⟩ :=
    compile_single (stands_signs l verbsOnly limit hne hq)
  obtain ⟨segs, hlays, hstring⟩ := SearchString.lays_of_indexVerse hv htags
  have hpattern := wordPattern_of_signs hq hvisible hdenotes
  obtain ⟨marked, hmarks, hsorted, hmem⟩ := marks_of_matches hpattern hlays.parted hstring
  refine ⟨c, marked, hc, hmarks, hsorted, fun n => ?_⟩
  rw [hmem, word_of_match_iff hpattern hlays.parted]
  constructor
  · rintro ⟨seg, hseg, hpart⟩
    obtain ⟨w, form, hw, hform, -, rfl⟩ := hlays.getElem?_iff.mp hseg
    have hletters := SearchString.letters_of_searchable hform
    exact ⟨w, form, hw, hform,
      (matched_infix_iff hq hvisible hletters SearchString.digits_of_ofNat).mp hpart⟩
  · rintro ⟨w, form, hw, hform, hpart⟩
    have htag := htags w (List.mem_of_getElem? hw)
    have hletters := SearchString.letters_of_searchable hform
    exact ⟨_, hlays.getElem?_iff.mpr ⟨w, form, hw, hform, htag, rfl⟩,
      (matched_infix_iff hq hvisible hletters SearchString.digits_of_ofNat).mpr hpart⟩

/-- A bare shin, any letter and any letters for vowels, in a verse of three words. -/
theorem marks_described_words_of_shin :
    (∀ c ∈ ['ש', '#', '@'], isSign c = true) ∧ (∃ c ∈ ['ש', '#', '@'], c ≠ '@') ∧
      VerseIndex.indexVerse 0 ['א'] 0 0 [⟨['\ufb2a', 'ל', 'ם'], 12⟩, ⟨['א'], 0⟩, ⟨['ב', '\ufb2b', 'ר'], 3⟩] =
        .ok ⟨0, ['א'], 0, 0, [['\ufb2a', 'ל', 'ם'], ['א'], ['ב', '\ufb2b', 'ר']], [12, 0, 3],
          " \ufb2aלמ<12> א<0> ב\ufb2bר<3> ".toList⟩ ∧
      (∀ w ∈ [(⟨['\ufb2a', 'ל', 'ם'], 12⟩ : TaggedWord), ⟨['א'], 0⟩, ⟨['ב', '\ufb2b', 'ר'], 3⟩], 0 ≤ w.tag) ∧
      ∃ c marked, compile ⟨[]⟩ ['ש', '#', '@'] false defaultSuggestions = .ok c ∧
        Marks c.pattern ⟨0, ['א'], 0, 0, [['\ufb2a', 'ל', 'ם'], ['א'], ['ב', '\ufb2b', 'ר']], [12, 0, 3],
          " \ufb2aלמ<12> א<0> ב\ufb2bר<3> ".toList⟩ marked ∧
        marked.Pairwise (· < ·) ∧
        ∀ n, n ∈ marked ↔ ∃ w form,
          [(⟨['\ufb2a', 'ל', 'ם'], 12⟩ : TaggedWord), ⟨['א'], 0⟩, ⟨['ב', '\ufb2b', 'ר'], 3⟩][n]? = some w ∧
          Hebrew.searchable w.word = .ok form ∧
          ∃ u ∈ (['ש', '#', '@'].map described).prod, u <:+: form := by
  have hv : VerseIndex.indexVerse 0 ['א'] 0 0
      [⟨['\ufb2a', 'ל', 'ם'], 12⟩, ⟨['א'], 0⟩, ⟨['ב', '\ufb2b', 'ר'], 3⟩] =
      .ok ⟨0, ['א'], 0, 0, [['\ufb2a', 'ל', 'ם'], ['א'], ['ב', '\ufb2b', 'ר']], [12, 0, 3],
        " \ufb2aלמ<12> א<0> ב\ufb2bר<3> ".toList⟩ := by decide +kernel
  have hvisible : ∃ c ∈ ['ש', '#', '@'], c ≠ '@' := ⟨'ש', by decide, by decide⟩
  exact ⟨by decide, hvisible, hv, by decide,
    marks_described_words ⟨[]⟩ false defaultSuggestions (by decide) hvisible hv (by decide)⟩

end VerseSearch.Query
