import VerseSearch.Engine
import VerseSearch.Proofs.Matching.Bounds
import VerseSearch.Proofs.Search.Spans

/-! # The results of a search

* `nonemptyMatches_bounds`: where the matches of a pattern that are not empty lie.
* `Shows`: a result that shows what a pattern matches in a verse; `matchVerse_eq_some_iff`.
* `exists_shows`: a verse with a match has a result if its place has numerals.
* `searchVerses_outcome`: the results in verses, up to the greatest number of them, or the failure of
  the search.
* `Engine.lookedAt`: the verses for which a search makes a result.
* `Engine.search_outcome`: the response to a query that compiles, or the verse that ends the search;
  `Engine.search_of_compile`: the response where all places have numerals.
-/

namespace VerseSearch
set_option autoImplicit false

theorem nonemptyMatches_bounds (p : Pattern) (s : Text) :
    (∀ x ∈ nonemptyMatches p s, x.1 < x.2 ∧ x.2 ≤ s.length) ∧
      (nonemptyMatches p s).Pairwise fun x y => x.2 ≤ y.1 := by
  obtain ⟨hmem, hpairs⟩ := Pattern.findAll_bounds p s
  refine ⟨fun x hx => ?_, hpairs.filter _⟩
  obtain ⟨hx, hlt⟩ := List.mem_filter.mp hx
  exact ⟨of_decide_eq_true hlt, (hmem x hx).2⟩

/-! ## Results in verses -/

/-- The matches that are not empty, as spans of a search string. -/
def matchSpans (p : Pattern) (s : Text) : List (ℤ × ℤ) :=
  (nonemptyMatches p s).map fun (a, b) => ((a : ℤ), (b : ℤ))

/-- The result shows the matches of a pattern in a verse, of which there are some. -/
structure Shows (p : Pattern) (v : IndexedVerse) (r : VerseResult) : Prop where
  found : nonemptyMatches p v.searchString ≠ []
  book : r.book = v.book
  chapter : Numeral.ofIndex v.chapter = .ok r.chapter
  verse : Numeral.ofIndex v.verse = .ok r.verse
  chapterIndex : r.chapterIndex = v.chapter
  verseIndex : r.verseIndex = v.verse
  location : v.location = .ok r.location
  words : r.words = v.words
  tags : r.tags = v.tags
  coveredWords : Highlight.coveredWords v.searchString (matchSpans p v.searchString) =
    .ok r.coveredWords
  matchedText : r.matchedText =
    (nonemptyMatches p v.searchString).map fun (a, b) => Pattern.slice v.searchString a b

theorem matchVerse_of_found {p : Pattern} {v : IndexedVerse}
    (h : nonemptyMatches p v.searchString ≠ []) : matchVerse p v =
      match Highlight.coveredWords v.searchString (matchSpans p v.searchString) with
      | .error e => .error (.highlight e)
      | .ok covered =>
        match Numeral.ofIndex v.chapter, Numeral.ofIndex v.verse, v.location with
        | .error e, _, _ => .error (.numeral e)
        | _, .error e, _ => .error (.numeral e)
        | _, _, .error e => .error (.numeral e)
        | .ok chapter, .ok verse, .ok location =>
          .ok (some ⟨v.book, chapter, verse, v.chapter, v.verse, location, v.words, v.tags, covered,
            (nonemptyMatches p v.searchString).map fun (a, b) => Pattern.slice v.searchString a b⟩) := by
  rw [matchVerse, matchSpans]
  split
  · next hnone => exact absurd hnone h
  · next hspans => rfl

theorem matchVerse_eq_some_iff {p : Pattern} {v : IndexedVerse} {r : VerseResult} :
    matchVerse p v = .ok (some r) ↔ Shows p v r := by
  constructor
  · intro h
    have hfound : nonemptyMatches p v.searchString ≠ [] := fun hnone => by
      rw [matchVerse, hnone] at h
      cases h
    rw [matchVerse_of_found hfound] at h
    split at h
    · cases h
    · next hcovered =>
      split at h
      · cases h
      · cases h
      · cases h
      · next hchapter hverse hlocation =>
        obtain rfl := Option.some.inj (Except.ok.inj h)
        exact ⟨hfound, rfl, hchapter, hverse, rfl, rfl, hlocation, rfl, rfl, hcovered, rfl⟩
  · intro h
    rw [matchVerse_of_found h.found, h.coveredWords, h.chapter, h.verse, h.location]
    obtain ⟨-, hbook, -, -, hchapter, hverse, -, hwords, htags, -, hmatched⟩ := h
    obtain ⟨book, chapter, verse, chapterIndex, verseIndex, location, words, tags, covered, matched⟩ := r
    simp only at *
    subst hbook hchapter hverse hwords htags hmatched
    rfl

theorem matchSpans_inside {p : Pattern} {s : Text} :
    ∀ x ∈ matchSpans p s, 0 ≤ x.1 ∧ x.1 < x.2 ∧ x.2 ≤ s.length := by
  intro x hx
  obtain ⟨y, hy, rfl⟩ := List.mem_map.mp hx
  have := (nonemptyMatches_bounds p s).1 y hy
  simp only
  omega

theorem Numeral.exists_ofIndex {n : ℕ} (h : n < limit) : ∃ t, ofIndex n = .ok t :=
  ⟨ofNat (n + 1), if_pos h⟩

theorem Numeral.ofIndex_of_limit_le {n : ℕ} (h : limit ≤ n) : ofIndex n = .error ⟨n⟩ :=
  if_neg (Nat.not_lt.mpr h)

/-- The result in a verse, if the verse is searched without failure and has a match. -/
def resultIn (p : Pattern) (v : IndexedVerse) : Option VerseResult := (matchVerse p v).toOption.join

theorem resultIn_eq_some_iff {p : Pattern} {v : IndexedVerse} {r : VerseResult} :
    resultIn p v = some r ↔ Shows p v r := by
  rw [resultIn, ← matchVerse_eq_some_iff]
  cases matchVerse p v with
  | error e => simp [Except.toOption]
  | ok result => simp [Except.toOption]

/-- The place of a verse has numerals. -/
def HasNumerals (v : IndexedVerse) : Prop := v.chapter < Numeral.limit ∧ v.verse < Numeral.limit

instance decidableHasNumerals (v : IndexedVerse) : Decidable (HasNumerals v) :=
  inferInstanceAs (Decidable (_ ∧ _))

/-- The number that has no numeral in a place without numerals: that of the chapter, or else that of
the verse. -/
def numeralError (v : IndexedVerse) : Numeral.RangeError :=
  ⟨if Numeral.limit ≤ v.chapter then v.chapter else v.verse⟩

theorem location_of_hasNumerals {v : IndexedVerse} (hv : HasNumerals v) :
    ∃ chapter verse, Numeral.ofIndex v.chapter = .ok chapter ∧ Numeral.ofIndex v.verse = .ok verse ∧
      v.location = .ok (v.book ++ ' ' :: chapter ++ ':' :: verse) := by
  obtain ⟨chapter, hchapter⟩ := Numeral.exists_ofIndex hv.1
  obtain ⟨verse, hverse⟩ := Numeral.exists_ofIndex hv.2
  refine ⟨chapter, verse, hchapter, hverse, ?_⟩
  rw [IndexedVerse.location, hchapter, hverse]
  rfl

theorem exists_shows {p : Pattern} {v : IndexedVerse} (hfound : nonemptyMatches p v.searchString ≠ [])
    (hv : HasNumerals v) : ∃ r, Shows p v r := by
  obtain ⟨covered, hcovered, -⟩ := Highlight.coveredWords_of_inside (matchSpans_inside (p := p))
  obtain ⟨chapter, verse, hchapter, hverse, hlocation⟩ := location_of_hasNumerals hv
  exact ⟨⟨v.book, chapter, verse, v.chapter, v.verse, _, v.words, v.tags, covered, _⟩, hfound, rfl,
    hchapter, hverse, rfl, rfl, hlocation, rfl, rfl, hcovered, rfl⟩

theorem matchVerse_of_not_found {p : Pattern} {v : IndexedVerse}
    (h : nonemptyMatches p v.searchString = []) : matchVerse p v = .ok none := by
  rw [matchVerse, h]

theorem resultIn_of_not_found {p : Pattern} {v : IndexedVerse}
    (h : nonemptyMatches p v.searchString = []) : resultIn p v = none := by
  rw [resultIn, matchVerse_of_not_found h]
  rfl

/-- A verse with a match whose place has no numerals ends the search. -/
theorem matchVerse_of_not_hasNumerals {p : Pattern} {v : IndexedVerse}
    (hfound : nonemptyMatches p v.searchString ≠ []) (hv : ¬HasNumerals v) :
    matchVerse p v = .error (.numeral (numeralError v)) := by
  obtain ⟨covered, hcovered, -⟩ := Highlight.coveredWords_of_inside (matchSpans_inside (p := p))
  rw [matchVerse_of_found hfound, hcovered, numeralError]
  by_cases hchapter : v.chapter < Numeral.limit
  · obtain ⟨chapter, hok⟩ := Numeral.exists_ofIndex hchapter
    have hverse := Nat.not_lt.mp fun hverse => hv ⟨hchapter, hverse⟩
    rw [hok, Numeral.ofIndex_of_limit_le hverse, if_neg (Nat.not_le.mpr hchapter)]
  · have hlimit := Nat.not_lt.mp hchapter
    rw [Numeral.ofIndex_of_limit_le hlimit, if_pos hlimit]

/-! ## Results in all verses -/

/-- The verses in which a pattern has a match that is not empty. -/
def foundIn (p : Pattern) (vs : List IndexedVerse) : List IndexedVerse :=
  vs.filter fun v => nonemptyMatches p v.searchString ≠ []

theorem foundIn_cons_of_not_found {p : Pattern} {v : IndexedVerse}
    (h : nonemptyMatches p v.searchString = []) (vs : List IndexedVerse) :
    foundIn p (v :: vs) = foundIn p vs := List.filter_cons_of_neg (by simpa using h)

theorem foundIn_cons_of_found {p : Pattern} {v : IndexedVerse}
    (h : nonemptyMatches p v.searchString ≠ []) (vs : List IndexedVerse) :
    foundIn p (v :: vs) = v :: foundIn p vs := List.filter_cons_of_pos (by simpa using h)

/-- A search looks at the verses with matches up to the first one for which there is no room. It fails
if one of them has a place without numerals, whether or not there is room for it. Otherwise the results
come in order, as many of them as there is room for, and the search tells whether there are more. -/
theorem searchVerses_outcome (p : Pattern) (cap : ℤ) (vs : List IndexedVerse)
    (done : List VerseResult) : searchVerses p cap done vs =
      match ((foundIn p vs).take (cap.toNat - done.length + 1)).find? (¬HasNumerals ·) with
      | some v => .error (.numeral (numeralError v))
      | none => .ok (done.reverse ++ (vs.filterMap (resultIn p)).take (cap.toNat - done.length),
        decide (cap.toNat - done.length < (vs.filterMap (resultIn p)).length)) := by
  induction vs generalizing done with
  | nil => simp [searchVerses, foundIn]
  | cons v vs ih =>
    rw [searchVerses]
    by_cases hfound : nonemptyMatches p v.searchString = []
    · rw [matchVerse_of_not_found hfound, foundIn_cons_of_not_found hfound,
        List.filterMap_cons_none (resultIn_of_not_found hfound)]
      exact ih done
    rw [foundIn_cons_of_found hfound, List.take_succ_cons]
    by_cases hv : HasNumerals v
    · obtain ⟨r, hr⟩ := exists_shows hfound hv
      rw [matchVerse_eq_some_iff.mpr hr, List.filterMap_cons_some (resultIn_eq_some_iff.mpr hr),
        List.find?_cons_of_neg (by simpa using hv)]
      simp only
      by_cases hfull : cap ≤ (done.length : ℤ)
      · rw [if_pos hfull, Nat.sub_eq_zero_of_le (by omega)]
        simp
      · obtain ⟨room, hroom⟩ := Nat.exists_eq_add_of_lt (show done.length < cap.toNat by omega)
        have hmore : cap.toNat - (r :: done).length = room := by
          rw [List.length_cons]
          omega
        rw [if_neg hfull, ih, hmore, show cap.toNat - done.length = room + 1 by omega]
        simp
    · rw [matchVerse_of_not_hasNumerals hfound hv, List.find?_cons_of_pos (by simpa using hv)]

/-- Where all places have numerals, the results show the verses with matches, in order. -/
theorem forall₂_shows {p : Pattern} {vs : List IndexedVerse} (hvs : ∀ v ∈ vs, HasNumerals v) :
    List.Forall₂ (Shows p) (foundIn p vs) (vs.filterMap (resultIn p)) := by
  induction vs with
  | nil => exact .nil
  | cons v vs ih =>
    obtain ⟨hv, hvs⟩ := List.forall_mem_cons.mp hvs
    by_cases hfound : nonemptyMatches p v.searchString = []
    · rw [foundIn_cons_of_not_found hfound, List.filterMap_cons_none (resultIn_of_not_found hfound)]
      exact ih hvs
    · obtain ⟨r, hr⟩ := exists_shows hfound hv
      rw [foundIn_cons_of_found hfound, List.filterMap_cons_some (resultIn_eq_some_iff.mpr hr)]
      exact .cons hr (ih hvs)

/-! ## Searches -/

namespace Engine

/-- The verses for which a search makes a result: those with matches, up to the first one for which
there is no room. -/
def lookedAt (e : Engine) (compiled : Query.Compiled) (cap : Option ℤ) : List IndexedVerse :=
  (foundIn compiled.pattern e.index.verses).take ((cap.getD e.maxResults).toNat + 1)

theorem search_outcome [Pattern.CharNames] [Text.Ranking] {e : Engine} {query : Text}
    {verbsOnly : Bool} {compiled : Query.Compiled}
    (h : Query.compile e.lexicon query verbsOnly = .ok compiled) (cap : Option ℤ) :
    let found := e.index.verses.filterMap (resultIn compiled.pattern)
    let most := (cap.getD e.maxResults).toNat
    (e.search query cap verbsOnly).2 =
      match (e.lookedAt compiled cap).find? (¬HasNumerals ·) with
      | some v => .error (.numeral (numeralError v))
      | none => .ok ⟨query, compiled, found.take most, decide (most < found.length)⟩ := by
  intro found most
  have houtcome := searchVerses_outcome compiled.pattern (cap.getD e.maxResults) e.index.verses []
  rw [List.length_nil, Nat.sub_zero] at houtcome
  rw [search, run, lookedAt]
  simp only [h, houtcome]
  cases ((foundIn compiled.pattern e.index.verses).take (most + 1)).find? (¬HasNumerals ·) <;> rfl

theorem search_of_compile [Pattern.CharNames] [Text.Ranking] {e : Engine}
    (hplaces : ∀ v ∈ e.index.verses, HasNumerals v)
    {query : Text} {verbsOnly : Bool} {compiled : Query.Compiled}
    (h : Query.compile e.lexicon query verbsOnly = .ok compiled) (cap : Option ℤ) :
    let found := e.index.verses.filterMap (resultIn compiled.pattern)
    let most := (cap.getD e.maxResults).toNat
    (e.search query cap verbsOnly).2 =
      .ok ⟨query, compiled, found.take most, decide (most < found.length)⟩ := by
  have hall : (e.lookedAt compiled cap).find? (¬HasNumerals ·) = none := by
    rw [List.find?_eq_none]
    intro v hv
    simpa using hplaces v (List.mem_of_mem_filter (List.mem_of_mem_take hv))
  rw [search_outcome h, hall]

end Engine

end VerseSearch
