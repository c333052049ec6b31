import VerseSearch.Proofs.Corpus.Rereading
import VerseSearch.Proofs.Search.FirstResults

/-! # Searches with an answer

Reading a corpus sets no bound to the numbers of chapters and verses, but the numerals end.

* `exists_location_iff`: a verse can be located if its place has numerals.
* `Corpus.fitsNumerals_iff`: in which corpora all verses can be located.
* `Engine.answers_of_read`: which searches of a corpus that was read have an answer.
* `Corpus.repeating`, `Corpus.read_repeating`: chapters without numerals for all their verses are read.
-/

namespace VerseSearch
set_option autoImplicit false

/-! ## Places -/

theorem Numeral.lt_of_ofIndex {n : ℕ} {t : Text} (h : ofIndex n = .ok t) : n < limit := by
  by_contra hlimit
  rw [ofIndex_of_limit_le (Nat.not_lt.mp hlimit)] at h
  cases h

theorem exists_location_iff {v : IndexedVerse} : (∃ t, v.location = .ok t) ↔ HasNumerals v := by
  constructor
  · rintro ⟨t, ht⟩
    rw [IndexedVerse.location] at ht
    obtain ⟨chapter, hchapter, ht⟩ := ok_of_bind ht
    obtain ⟨verse, hverse, -⟩ := ok_of_bind ht
    exact ⟨Numeral.lt_of_ofIndex hchapter, Numeral.lt_of_ofIndex hverse⟩
  · intro hv
    obtain ⟨chapter, verse, -, -, hlocation⟩ := location_of_hasNumerals hv
    exact ⟨_, hlocation⟩

namespace VerseIndex

theorem verse_of_mem_places {c : Corpus Text} {i : VerseIndex}
    (hi : List.Forall₂ IndexedAs (places c).zipIdx i.verses) {book : Text} {chapter verse : ℕ}
    {ws : Verse} (h : (book, chapter, verse, ws) ∈ places c) :
    ∃ v ∈ i.verses, v.book = book ∧ v.chapter = chapter ∧ v.verse = verse := by
  obtain ⟨index, hindex⟩ := List.mem_iff_getElem?.mp h
  have hmem : ((book, chapter, verse, ws), index) ∈ (places c).zipIdx := by
    rw [List.mem_zipIdx_iff_getElem?]
    exact hindex
  obtain ⟨v, hv, hindexed⟩ := exists_of_forall₂ hi.flip _ hmem
  obtain ⟨ns, s, -, -, rfl⟩ := indexVerse_eq_ok_iff.mp hindexed
  exact ⟨_, hv, rfl, rfl, rfl⟩

end VerseIndex

/-- In a corpus without empty chapters the places of all verses have numerals if its books and
chapters are short enough, and only then. -/
theorem Corpus.fitsNumerals_iff {c : Corpus Text} {i : VerseIndex}
    (hi : List.Forall₂ VerseIndex.IndexedAs (VerseIndex.places c).zipIdx i.verses)
    (hne : ∀ b ∈ c.books, ∀ ch ∈ b.chapters, ch ≠ []) :
    c.FitsNumerals ↔ ∀ v ∈ i.verses, HasNumerals v := by
  refine ⟨hasNumerals_of_mem hi, fun hplaces b hb => ⟨?_, fun ch hch => ?_⟩⟩
  · by_contra hlong
    have hch := List.getElem?_eq_getElem (Nat.not_le.mp hlong)
    have hfirst := List.getElem?_eq_getElem
      (List.length_pos_iff.mpr (hne b hb _ (List.mem_of_getElem? hch)))
    obtain ⟨v, hv, -, hchapter, -⟩ := VerseIndex.verse_of_mem_places hi
      (VerseIndex.mem_places.mpr ⟨b, hb, rfl, _, hch, hfirst⟩)
    exact absurd (hplaces v hv).1 (by omega)
  · by_contra hlong
    obtain ⟨k, hk⟩ := List.mem_iff_getElem?.mp hch
    have hlast := List.getElem?_eq_getElem (Nat.not_le.mp hlong)
    obtain ⟨v, hv, -, -, hverse⟩ := VerseIndex.verse_of_mem_places hi
      (VerseIndex.mem_places.mpr ⟨b, hb, rfl, ch, hk, hlast⟩)
    exact absurd (hplaces v hv).2 (by omega)

/-! ## Answers -/

namespace Engine

section
variable [Pattern.CharNames] [Text.Ranking] {e : Engine} {query : Text} {verbsOnly : Bool}
  {compiled : Query.Compiled} (hcompile : Query.compile e.lexicon query verbsOnly = .ok compiled) (cap : Option ℤ)
include hcompile

theorem exists_search_ok_iff : (∃ response, (e.search query cap verbsOnly).2 = .ok response) ↔
    ∀ v ∈ e.lookedAt compiled cap, HasNumerals v := by
  rw [search_outcome hcompile cap]
  cases hfind : (e.lookedAt compiled cap).find? (¬HasNumerals ·) with
  | none => simpa using hfind
  | some v =>
    have hv : ¬HasNumerals v := by simpa using List.find?_some hfind
    simpa using ⟨v, List.mem_of_find?_eq_some hfind, hv⟩

theorem search_eq_error_iff {err : SearchError} : (e.search query cap verbsOnly).2 = .error err ↔
    ∃ before v after, e.lookedAt compiled cap = before ++ v :: after ∧
      (∀ u ∈ before, HasNumerals u) ∧ ¬HasNumerals v ∧ err = .numeral (numeralError v) := by
  have hfirst : ∀ v, (e.lookedAt compiled cap).find? (¬HasNumerals ·) = some v ↔
      ∃ before after, e.lookedAt compiled cap = before ++ v :: after ∧
        (∀ u ∈ before, HasNumerals u) ∧ ¬HasNumerals v := fun v => by
    rw [List.find?_eq_some_iff_append]
    simp only [decide_not, Bool.not_eq_true', decide_eq_false_iff_not, Bool.not_not, decide_eq_true_eq]
    grind
  rw [search_outcome hcompile cap]
  constructor
  · intro h
    split at h
    · next v hv =>
      obtain ⟨before, after, heq, hbefore, hnone⟩ := (hfirst v).mp hv
      exact ⟨before, v, after, heq, hbefore, hnone, (Except.error.inj h).symm⟩
    · cases h
  · rintro ⟨before, v, after, heq, hbefore, hnone, rfl⟩
    rw [(hfirst v).mpr ⟨before, after, heq, hbefore, hnone⟩]

end

/-- Every corpus that was read has an engine. Its verses can be located and its searches have answers
as far as there are numerals: all verses can be located if no book has more chapters and no chapter
more verses than there are numerals, and only then; a search for a query that compiles has an answer
if the places of all verses for which it makes a result have numerals, and fails at the first one of
them that has none. -/
theorem answers_of_read [Pattern.CharNames] [Text.Ranking] {bookFilter : Option Text}
    {lines : List Text} {c : Corpus Text}
    (h : Corpus.read bookFilter lines = .ok c) (l : Lexicon) (maxResults : ℤ) :
    ∃ e, ofCorpus c l maxResults = .ok e ∧
      (∀ v ∈ e.index.verses, (∃ t, v.location = .ok t) ↔ HasNumerals v) ∧
      (c.FitsNumerals ↔ ∀ v ∈ e.index.verses, ∃ t, v.location = .ok t) ∧
      ∀ query verbsOnly compiled cap, Query.compile l query verbsOnly = .ok compiled →
        ((∃ response, (e.search query cap verbsOnly).2 = .ok response) ↔
          ∀ v ∈ e.lookedAt compiled cap, HasNumerals v) ∧
        (c.FitsNumerals → ∃ response, (e.search query cap verbsOnly).2 = .ok response) ∧
        ∀ err, (e.search query cap verbsOnly).2 = .error err ↔
          ∃ before v after, e.lookedAt compiled cap = before ++ v :: after ∧
            (∀ u ∈ before, HasNumerals u) ∧ ¬HasNumerals v ∧ err = .numeral (numeralError v) := by
  obtain ⟨hgrouped, -⟩ := Corpus.read_spec h
  obtain ⟨i, hindex, hi⟩ := VerseIndex.ofCorpus_spec (Corpus.encodable_of_read h)
  have hfits := Corpus.fitsNumerals_iff hi fun b hb ch hch => ((hgrouped.ne_nil b hb).2 ch hch).1
  refine ⟨⟨i, l, maxResults, {}⟩, ofCorpus_eq_ok_iff.mpr ⟨i, hindex, rfl⟩,
    fun v hv => exists_location_iff, ?_, ?_⟩
  · simpa only [exists_location_iff] using hfits
  intro query verbsOnly compiled cap hcompile
  exact ⟨exists_search_ok_iff hcompile cap,
    fun hplaces => ⟨_, search_of_compile (hfits.mp hplaces) hcompile cap⟩,
    fun err => search_eq_error_iff hcompile cap⟩

end Engine

/-! ## Long chapters -/

namespace Corpus

/-- A book of one chapter that has the same word in each of its verses. -/
def repeating (book : Text) (w : TaggedWord) (verses : ℕ) : Corpus Text :=
  ⟨[⟨book, [List.replicate verses [w]]⟩]⟩

variable {book : Text} {w : TaggedWord}

theorem grouped_repeating (verses : ℕ) : Grouped (repeating book w (verses + 1)).books := by
  induction verses with
  | zero => exact .book .nil (by simp)
  | succ verses ih => exact .verse ih

theorem exists_verse_of_mem_repeating {verses : ℕ} {x : LocatedWord}
    (hx : x ∈ (repeating book w verses).located) :
    ∃ verse, 0 < verse ∧ verse ≤ verses ∧ x = ⟨⟨book, 1, verse⟩, w⟩ := by
  simp only [repeating, located, List.flatMap_cons, List.flatMap_nil, List.append_nil,
    List.zipIdx_cons, List.zipIdx_nil, List.mem_flatMap, List.mem_map] at hx
  obtain ⟨⟨words, verse⟩, hmem, w', hw, rfl⟩ := hx
  obtain ⟨hpos, hlt, hwords⟩ := List.mem_zipIdx hmem
  rw [List.length_replicate] at hlt
  rw [List.getElem_replicate] at hwords
  obtain rfl := List.mem_singleton.mp (hwords ▸ hw)
  exact ⟨verse, hpos, by omega, rfl⟩

/-- Chapters are read however long they are, as far as their numbers can be written. -/
theorem read_repeating [Pattern.CharNames] (hw : (⟨⟨book, 1, 1⟩, w⟩ : LocatedWord).Readable)
    {verses : ℕ} (hverses : verses + 1 < 10 ^ Text.maxIntegerDigits) :
    read none (repeating book w (verses + 1)).listing = .ok (repeating book w (verses + 1)) := by
  have hwords : ∀ x ∈ (repeating book w (verses + 1)).located, x.Readable := fun x hx => by
    obtain ⟨verse, hpos, hle, rfl⟩ := exists_verse_of_mem_repeating hx
    exact { hw with verse := Row.readSequence_ofNat hpos (Nat.lt_of_le_of_lt hle hverses) _ }
  rw [read, ofLines_listing (grouped_repeating verses) hwords, Except.mapError]

end Corpus

/-- The verse with another number, in the corpus as in its chapter. -/
def IndexedVerse.numbered (v : IndexedVerse) (number : ℕ) : IndexedVerse :=
  { v with index := number, verse := number }

theorem Engine.verses_of_repeating {book : Text} {w : TaggedWord} {verses : ℕ} {l : Lexicon}
    {maxResults : ℤ} {e : Engine}
    (he : ofCorpus (Corpus.repeating book w verses) l maxResults = .ok e) {v : IndexedVerse}
    (hv : VerseIndex.indexVerse 0 book 0 0 [w] = .ok v) :
    e.index.verses = (List.range verses).map v.numbered := by
  have hplaces : (VerseIndex.places (Corpus.repeating book w verses)).zipIdx =
      (List.range verses).map fun k => ((book, 0, k, [w]), k) := by
    apply List.ext_getElem <;> simp [VerseIndex.places, Corpus.repeating]
  have hverse : ∀ k, VerseIndex.IndexedAs ((book, 0, k, [w]), k) (v.numbered k) := fun k => by
    obtain ⟨ns, s, hns, hs, rfl⟩ := VerseIndex.indexVerse_eq_ok_iff.mp hv
    exact VerseIndex.indexVerse_eq_ok_iff.mpr ⟨ns, s, hns, hs, rfl⟩
  obtain ⟨i, hi, rfl⟩ := ofCorpus_eq_ok_iff.mp he
  rw [VerseIndex.ofCorpus_eq_ok_iff, hplaces, List.forall₂_map_left_iff] at hi
  have heq : List.Forall₂ (· = ·) ((List.range verses).map v.numbered) i.verses :=
    List.forall₂_map_left_iff.mpr (hi.imp fun k u hu => Except.ok.inj ((hverse k).symm.trans hu))
  rw [List.forall₂_eq_eq_eq] at heq
  exact heq.symm

theorem Engine.lookedAt_repeating {e : Engine} {v : IndexedVerse} {verses : ℕ}
    (he : e.index.verses = (List.range verses).map v.numbered) {compiled : Query.Compiled}
    (hv : nonemptyMatches compiled.pattern v.searchString ≠ []) (cap : Option ℤ) :
    e.lookedAt compiled cap =
      (List.range (min ((cap.getD e.maxResults).toNat + 1) verses)).map v.numbered := by
  have hfound : foundIn compiled.pattern ((List.range verses).map v.numbered) =
      (List.range verses).map v.numbered := by
    refine List.filter_eq_self.mpr fun u hu => ?_
    obtain ⟨k, -, rfl⟩ := List.mem_map.mp hu
    exact decide_eq_true hv
  rw [lookedAt, he, hfound, ← List.map_take, List.take_range]

/-- A chapter of five hundred verses with the same word, all of which match. A search that makes no
result for the last of them has an answer; the last one ends the search that comes to it, although
there is no room for it. -/
theorem Engine.answers_of_read_of_long_chapter :
    let c := Corpus.repeating "בראשית".toList ⟨['א'], 1⟩ 500
    Corpus.read none c.listing = .ok c ∧ ¬c.FitsNumerals ∧
      ∃ e, ofCorpus c ⟨[]⟩ 10 = .ok e ∧
        (¬∀ v ∈ e.index.verses, ∃ t, v.location = .ok t) ∧
        (∃ response, (e.search ['א'] (some 498) false).2 = .ok response) ∧
        (e.search ['א'] (some 499) false).2 = .error (.numeral ⟨499⟩) := by
  intro c
  have hword : (⟨⟨"בראשית".toList, 1, 1⟩, ⟨['א'], 1⟩⟩ : LocatedWord).Readable := by
    constructor <;> decide +kernel
  have hdigits : 499 + 1 < 10 ^ Text.maxIntegerDigits := by decide +kernel
  have hread : Corpus.read none c.listing = .ok c := Corpus.read_repeating hword hdigits
  let p : Pattern := ⟨.cat (.one { items := [.code 0x5d0] }) .empty⟩
  let v : IndexedVerse := ⟨0, "בראשית".toList, 0, 0, [['א']], [1], " א<1> ".toList⟩
  have hcompile : Query.compile ⟨[]⟩ ['א'] false = .ok ⟨['א'], p, false, []⟩ := by decide +kernel
  have hindexed : VerseIndex.indexVerse 0 "בראשית".toList 0 0 [⟨['א'], 1⟩] = .ok v := by
    decide +kernel
  have hv : nonemptyMatches p v.searchString ≠ [] := by decide +kernel
  have hlimit : ∀ k, HasNumerals (v.numbered k) ↔ k < 499 := fun k => by
    simp [HasNumerals, IndexedVerse.numbered, v, Numeral.limit]
  obtain ⟨e, he, -, hfits, hsearch⟩ := answers_of_read hread ⟨[]⟩ 10
  have hverses := verses_of_repeating he hindexed
  have hnone : ¬∀ u ∈ e.index.verses, ∃ t, u.location = .ok t := fun hall => by
    have hmem : v.numbered 499 ∈ e.index.verses := by
      rw [hverses]
      exact List.mem_map_of_mem (List.mem_range.mpr (Nat.lt_add_one 499))
    exact absurd ((hlimit 499).mp (exists_location_iff.mp (hall _ hmem))) (Nat.lt_irrefl 499)
  have hbefore : ∀ u ∈ (List.range 499).map v.numbered, HasNumerals u := fun u hu => by
    obtain ⟨k, hk, rfl⟩ := List.mem_map.mp hu
    exact (hlimit k).mpr (List.mem_range.mp hk)
  refine ⟨hread, mt hfits.mp hnone, e, he, hnone, ?_, ?_⟩
  · refine (hsearch _ _ _ (some 498) hcompile).1.mpr ?_
    rw [lookedAt_repeating hverses hv]
    exact hbefore
  · refine ((hsearch _ _ _ (some 499) hcompile).2.2 _).mpr ⟨_, v.numbered 499, [], ?_, hbefore,
      fun h => Nat.lt_irrefl 499 ((hlimit 499).mp h), rfl⟩
    rw [lookedAt_repeating hverses hv, ← List.map_singleton, ← List.map_append, ← List.range_succ]
    rfl

end VerseSearch
