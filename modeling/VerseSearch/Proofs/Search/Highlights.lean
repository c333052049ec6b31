import VerseSearch.Proofs.Bundle.Loading
import VerseSearch.Proofs.Search.Index
import VerseSearch.Proofs.Search.Results

/-! # The words that results mark

* `Shows.marks`: the words that a result marks are words of its verse, except that a verse without
  words has the mark zero.
* `Corpus.FitsNumerals`, `hasNumerals_of_mem`: in books and chapters that are short enough all places
  have numerals.
* `parts_of_mem`: the parts that the search string of an indexed verse is made of.
* `Engine.highlights_inside_verse`: what the results of a search in a bundle mark.
-/

namespace VerseSearch
set_option autoImplicit false

open SearchString (assemble Parted)

/-- No book has more chapters and no chapter has more verses than there are numerals. -/
def Corpus.FitsNumerals {ν : Type} (c : Corpus ν) : Prop :=
  ∀ b ∈ c.books, b.chapters.length ≤ Numeral.limit ∧ ∀ ch ∈ b.chapters, ch.length ≤ Numeral.limit

/-! ## Marks in a verse -/

theorem Shows.marks {p : Pattern} {v : IndexedVerse} {r : VerseResult} (h : Shows p v r)
    {segs : List Text} (hparted : Parted segs) (hstring : v.searchString = assemble segs) :
    r.coveredWords ≠ [] ∧ r.coveredWords.Pairwise (· < ·) ∧
      (segs ≠ [] → ∀ n ∈ r.coveredWords, n < segs.length) ∧ (segs = [] → r.coveredWords = [0]) := by
  obtain ⟨covered, hcovered, hsorted, hne, hlast⟩ :=
    Highlight.coveredWords_of_inside (matchSpans_inside (p := p) (s := v.searchString))
  obtain rfl := Except.ok.inj (h.coveredWords.symm.trans hcovered)
  have hmarked : r.coveredWords ≠ [] := hne (by simp [matchSpans, h.found])
  rw [hstring, Highlight.separatorsBefore_last hparted] at hlast
  refine ⟨hmarked, hsorted, fun hsegs n hn => ?_, ?_⟩
  · have hpos := List.length_pos_iff.mpr hsegs
    have := hlast n hn
    omega
  · -- without words there is no mark but zero
    rintro rfl
    have hzero : ∀ n ∈ r.coveredWords, n = 0 := fun n hn => Nat.le_zero.mp (hlast n hn)
    obtain ⟨n, ns, heq⟩ := List.exists_cons_of_ne_nil hmarked
    rw [heq] at hzero hsorted ⊢
    obtain ⟨rfl, hzeros⟩ := List.forall_mem_cons.mp hzero
    have hnil : ns = [] := List.eq_nil_iff_forall_not_mem.mpr fun m hm => by
      have hlt := (List.pairwise_cons.mp hsorted).1 m hm
      exact absurd (hzeros m hm) (Nat.ne_of_gt hlt)
    rw [hnil]

/-! ## Verses of an index -/

section
variable {c : Corpus Text} {i : VerseIndex}
  (hi : List.Forall₂ VerseIndex.IndexedAs (VerseIndex.places c).zipIdx i.verses)
include hi

theorem hasNumerals_of_mem (hplaces : c.FitsNumerals) : ∀ v ∈ i.verses, HasNumerals v := by
  intro v hv
  obtain ⟨ws, hmem, -⟩ := VerseIndex.place_of_mem hi hv
  obtain ⟨b, hb, -, ch, hch, hws⟩ := VerseIndex.mem_places.mp hmem
  obtain ⟨hchapters, hverses⟩ := hplaces b hb
  obtain ⟨hchapter, -⟩ := List.getElem?_eq_some_iff.mp hch
  obtain ⟨hverse, -⟩ := List.getElem?_eq_some_iff.mp hws
  exact ⟨Nat.lt_of_lt_of_le hchapter hchapters,
    Nat.lt_of_lt_of_le hverse (hverses ch (List.mem_of_getElem? hch))⟩

theorem parts_of_mem (hc : c.Encodable) {v : IndexedVerse} (hv : v ∈ i.verses) :
    ∃ segs, Parted segs ∧ v.searchString = assemble segs ∧ v.words.length = segs.length ∧
      v.tags.length = segs.length := by
  obtain ⟨ws, hmem, hindexed⟩ := VerseIndex.place_of_mem hi hv
  have hws := VerseIndex.encodable_of_mem_places hc hmem
  obtain ⟨segs, hlays, hstring⟩ :=
    SearchString.lays_of_indexVerse hindexed fun w hw => (hws w hw).tag_nonneg
  obtain ⟨ns, s, hns, -, hv⟩ := VerseIndex.indexVerse_eq_ok_iff.mp hindexed
  have hlength : ws.length = segs.length := hlays.length_eq
  refine ⟨segs, hlays.parted, hstring, ?_, ?_⟩
  · rw [hv, ← hlength]
    exact VerseIndex.length_of_normalizeWords hns
  · rw [hv, List.length_map, hlength]

end

/-! ## Searches in a bundle -/

/-- The engine of a loaded bundle in which books and chapters are short enough for numerals answers
every query that compiles. Each result shows the matches in a verse of the index, which lie inside its
search string one after the other. The words that the result marks are words of the verse, in
order and without repetition, except that a verse without words has the one mark zero. -/
theorem Engine.highlights_inside_verse [Pattern.CharNames] [Text.Ranking] {value : Json}
    {c : Corpus Text} {l : Lexicon}
    (hload : Bundle.load value = .ok (c.mapNames Json.str, l)) (hplaces : c.FitsNumerals)
    (maxResults : ℤ) :
    ∃ e, ofCorpus c l maxResults = .ok e ∧
      ∀ query verbsOnly cap compiled, Query.compile l query verbsOnly = .ok compiled →
        ∃ response, (e.search query cap verbsOnly).2 = .ok response ∧ ∀ r ∈ response.results,
          r.words.length = r.tags.length ∧
          r.coveredWords ≠ [] ∧ r.coveredWords.Pairwise (· < ·) ∧
          (r.words ≠ [] → ∀ n ∈ r.coveredWords, n < r.words.length) ∧
          (r.words = [] → r.coveredWords = [0]) ∧
          ∃ v ∈ e.index.verses, Shows compiled.pattern v r ∧
            (∀ x ∈ nonemptyMatches compiled.pattern v.searchString,
              x.1 < x.2 ∧ x.2 ≤ v.searchString.length) ∧
            (nonemptyMatches compiled.pattern v.searchString).Pairwise fun x y => x.2 ≤ y.1 := by
  have hc : c.Encodable := (Corpus.encodable_mapNames _ c).mp (Bundle.holds_of_load hload).encodable
  obtain ⟨i, hindex, hi⟩ := VerseIndex.ofCorpus_spec hc
  refine ⟨⟨i, l, maxResults, {}⟩, by rw [ofCorpus, hindex]; rfl, ?_⟩
  intro query verbsOnly cap compiled hcompile
  refine ⟨_, search_of_compile (hasNumerals_of_mem hi hplaces) hcompile cap, fun r hr => ?_⟩
  obtain ⟨v, hv, hresult⟩ := List.mem_filterMap.mp (List.mem_of_mem_take hr)
  have hshows := resultIn_eq_some_iff.mp hresult
  obtain ⟨segs, hparted, hstring, hwords, htags⟩ := parts_of_mem hi hc hv
  obtain ⟨hne, hsorted, hinside, hzero⟩ := hshows.marks hparted hstring
  rw [← hshows.words] at hwords
  have hnil : r.words = [] ↔ segs = [] := by
    rw [← List.length_eq_zero_iff, ← List.length_eq_zero_iff, hwords]
  refine ⟨by rw [hwords, hshows.tags, htags], hne, hsorted, ?_, fun h => hzero (hnil.mp h), v, hv,
    hshows, nonemptyMatches_bounds _ _⟩
  rw [hwords]
  exact fun h => hinside fun hsegs => h (hnil.mpr hsegs)

/-- A bundle of a verse without words and a verse of one word, in both of which a dot matches. -/
theorem Engine.highlights_inside_verse_of_no_words :
    let verses : List Json := [.str [], .str "AYIAAQ==".toList]
    let book := Json.ofFields [("name", .str ['א']), ("chapters", .arr [.arr verses])]
    let value := Json.ofFields [("version", .int 1), ("books", .arr [book]), ("lexicon", .str [])]
    let c : Corpus Text := ⟨[⟨['א'], [[[], [⟨['א', 'ב'], 1⟩]]]⟩]⟩
    Bundle.load value = .ok (c.mapNames Json.str, ⟨[]⟩) ∧
      c.FitsNumerals ∧
      ∃ e compiled response, ofCorpus c ⟨[]⟩ 10 = .ok e ∧
        Query.compile ⟨[]⟩ ['.'] false = .ok compiled ∧
        (e.search ['.'] none false).2 = .ok response ∧
        response.results.map (fun r => (r.words, r.coveredWords)) =
          [([], [0]), ([['א', 'ב']], [0])] ∧
        ∀ r ∈ response.results, r.words ≠ [] → ∀ n ∈ r.coveredWords, n < r.words.length := by
  intro verses book value c
  have hempty : TaggedWord.decodeText .hebrew [] = .ok [] := by decide +kernel
  have hverse : TaggedWord.decodeText .hebrew "AYIAAQ==".toList = .ok [⟨['א', 'ב'], 1⟩] := by
    decide +kernel
  have hverses : Bundle.collect Bundle.loadVerse verses = .ok [[], [⟨['א', 'ב'], 1⟩]] := by
    simp only [verses, Bundle.collect, Bundle.loadVerse, Bundle.textOf, hempty, hverse]
    rfl
  have hlexicon : Lexicon.decode [] = .ok ⟨[]⟩ := by decide +kernel
  have hload : Bundle.load value = .ok (c.mapNames Json.str, ⟨[]⟩) :=
    Bundle.load_of_parts rfl rfl (Bundle.loadBooks_of_chapter (.str ['א']) hverses) rfl
      (by simp only [Bundle.loadLexicon, Bundle.textOf, hlexicon])
  have hplaces : c.FitsNumerals := by
    unfold Corpus.FitsNumerals
    decide
  have hcompile : Query.compile ⟨[]⟩ ['.'] false =
      .ok ⟨['.'], ⟨.cat (.one { items := [.code 10], negated := true }) .empty⟩, false, []⟩ := by
    decide +kernel
  have hmarks : (ofCorpus c ⟨[]⟩ 10).toOption.map (fun e => (e.search ['.'] none false).2.toOption.map
      fun response => response.results.map fun r => (r.words, r.coveredWords)) =
        some (some [([], [0]), ([['א', 'ב']], [0])]) := by decide +kernel
  obtain ⟨e, he, hsearch⟩ := highlights_inside_verse hload hplaces 10
  obtain ⟨response, hresponse, hresults⟩ := hsearch _ _ none _ hcompile
  simp only [he, hresponse, Except.toOption, Option.map_some, Option.some.injEq] at hmarks
  exact ⟨hload, hplaces, e, _, response, he, hcompile, hresponse, hmarks, fun r hr =>
    (hresults r hr).2.2.2.1⟩

end VerseSearch
