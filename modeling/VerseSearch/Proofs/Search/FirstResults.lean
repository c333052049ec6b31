import VerseSearch.Proofs.Search.Highlights
import VerseSearch.Report

/-! # The first results

A search gives the first of the verses that have a match, as many as are asked for.

* `VerseIndex.ofCorpus_append`: the index of one corpus after another.
* `IndexedVerse.renumber`: a verse with another number, which has the same results.
* `Engine.search_takes_first`: what a search gives, by the number of results that are asked for.
-/

namespace VerseSearch
set_option autoImplicit false

/-! ## One corpus after another -/

/-- The books of one corpus and, after them, those of another. -/
def Corpus.append {ν : Type} (c d : Corpus ν) : Corpus ν := ⟨c.books ++ d.books⟩

/-- The verse with a number that is `shift` greater. -/
def IndexedVerse.renumber (shift : ℕ) (v : IndexedVerse) : IndexedVerse :=
  { v with index := shift + v.index }

namespace VerseIndex

@[simp] theorem places_append (c d : Corpus Text) : places (c.append d) = places c ++ places d :=
  List.flatMap_append

theorem IndexedAs.renumber {x : Text × ℕ × ℕ × Verse} {index : ℕ} {v : IndexedVerse}
    (h : IndexedAs (x, index) v) (shift : ℕ) : IndexedAs (x, shift + index) (v.renumber shift) := by
  obtain ⟨ns, s, hns, hs, rfl⟩ := indexVerse_eq_ok_iff.mp h
  exact indexVerse_eq_ok_iff.mpr ⟨ns, s, hns, hs, rfl⟩

theorem ofCorpus_append {c d : Corpus Text} {i j : VerseIndex} (hi : ofCorpus c = .ok i)
    (hj : ofCorpus d = .ok j) :
    ofCorpus (c.append d) = .ok ⟨i.verses ++ j.verses.map (·.renumber i.verses.length)⟩ := by
  rw [ofCorpus_eq_ok_iff] at hi hj ⊢
  have hlength : (places c).length = i.verses.length := by
    rw [← hi.length_eq, List.length_zipIdx]
  have hshift : (places d).zipIdx i.verses.length =
      (places d).zipIdx.map fun (x, index) => (x, i.verses.length + index) := List.zipIdx_eq_map_add
  rw [places_append, List.zipIdx_append, hlength, Nat.zero_add, hshift]
  refine List.rel_append hi ?_
  rw [List.forall₂_map_left_iff, List.forall₂_map_right_iff]
  exact hj.imp fun x v h => h.renumber _

end VerseIndex

theorem Corpus.FitsNumerals.append {c d : Corpus Text} (hc : c.FitsNumerals) (hd : d.FitsNumerals) :
    (c.append d).FitsNumerals := by
  intro b hb
  obtain hb | hb := List.mem_append.mp hb
  · exact hc b hb
  · exact hd b hb

/-! ## Engines -/

namespace Engine

theorem ofCorpus_eq_ok_iff {c : Corpus Text} {l : Lexicon} {maxResults : ℤ} {e : Engine} :
    ofCorpus c l maxResults = .ok e ↔
      ∃ i, VerseIndex.ofCorpus c = .ok i ∧ e = ⟨i, l, maxResults, {}⟩ := by
  rw [ofCorpus]
  constructor
  · intro h
    obtain ⟨i, hi, rfl⟩ := ok_of_map h
    exact ⟨i, hi, rfl⟩
  · rintro ⟨i, hi, rfl⟩
    rw [hi]
    rfl

/-- All results of a query in the verses of an engine. -/
def allResults (e : Engine) (compiled : Query.Compiled) : List VerseResult :=
  e.index.verses.filterMap (resultIn compiled.pattern)

section
variable [Pattern.CharNames] [Text.Ranking] {c : Corpus Text} {l : Lexicon} {maxResults : ℤ} {e : Engine}
  {query : Text} {verbsOnly : Bool} {compiled : Query.Compiled}
  (he : ofCorpus c l maxResults = .ok e) (hplaces : c.FitsNumerals)
  (hcompile : Query.compile l query verbsOnly = .ok compiled)
include he hplaces hcompile

theorem search_of_ofCorpus (cap : Option ℤ) :
    let most := (cap.getD maxResults).toNat
    (e.search query cap verbsOnly).2 = .ok ⟨query, compiled, (e.allResults compiled).take most,
      decide (most < (e.allResults compiled).length)⟩ := by
  obtain ⟨i, hi, rfl⟩ := ofCorpus_eq_ok_iff.mp he
  exact search_of_compile (hasNumerals_of_mem (VerseIndex.ofCorpus_eq_ok_iff.mp hi) hplaces) hcompile cap

theorem results_of_not_truncated {cap : Option ℤ} {r : SearchResponse}
    (h : (e.search query cap verbsOnly).2 = .ok r) (hall : r.truncated = false) :
    r.results = e.allResults compiled := by
  obtain rfl := Except.ok.inj ((search_of_ofCorpus he hplaces hcompile cap).symm.trans h)
  exact List.take_of_length_le (Nat.not_lt.mp (of_decide_eq_false hall))

end

/-- In a corpus in which all places have numerals, a search for a query that compiles gives the first
verses with a match, as many of them as are asked for, and tells whether there are more. To ask for
fewer gives the beginning of the results; and one corpus after another has the results of both, one
after the other. -/
theorem search_takes_first [Pattern.CharNames] [Text.Ranking] {c : Corpus Text} {l : Lexicon}
    {maxResults : ℤ} {e : Engine}
    (he : ofCorpus c l maxResults = .ok e) (hplaces : c.FitsNumerals) {query : Text}
    {verbsOnly : Bool} {compiled : Query.Compiled}
    (hcompile : Query.compile l query verbsOnly = .ok compiled) :
    let found := foundIn compiled.pattern e.index.verses
    List.Forall₂ VerseIndex.IndexedAs (VerseIndex.places c).zipIdx e.index.verses ∧
    (∀ cap, ∃ r, (e.search query cap verbsOnly).2 = .ok r ∧
      let first := found.take (cap.getD maxResults).toNat
      List.Forall₂ (Shows compiled.pattern) first r.results ∧
        r.toJson.field? "total_results" = some (.ofNat first.length) ∧
        (r.truncated = true ↔ (cap.getD maxResults).toNat < found.length)) ∧
    (∀ cap cap' r r', cap.getD maxResults ≤ cap'.getD maxResults →
      (e.search query cap verbsOnly).2 = .ok r → (e.search query cap' verbsOnly).2 = .ok r' →
      r.results <+: r'.results) ∧
    ∀ d maxResults' e' maxResults'', ofCorpus d l maxResults' = .ok e' → d.FitsNumerals →
      ∃ whole, ofCorpus (c.append d) l maxResults'' = .ok whole ∧
        ∀ cap cap' cap'' r r' r'', (e.search query cap verbsOnly).2 = .ok r → r.truncated = false →
          (e'.search query cap' verbsOnly).2 = .ok r' → r'.truncated = false →
          (whole.search query cap'' verbsOnly).2 = .ok r'' → r''.truncated = false →
          r''.results = r.results ++ r'.results := by
  intro found
  obtain ⟨i, hi, heq⟩ := ofCorpus_eq_ok_iff.mp he
  have hindexed := VerseIndex.ofCorpus_eq_ok_iff.mp hi
  have hshows : List.Forall₂ (Shows compiled.pattern) found (e.allResults compiled) := by
    refine forall₂_shows ?_
    rw [heq]
    exact hasNumerals_of_mem hindexed hplaces
  refine ⟨by rwa [heq], fun cap => ?_, ?_, ?_⟩
  · have hfirst := List.forall₂_take (cap.getD maxResults).toNat hshows
    refine ⟨_, search_of_ofCorpus he hplaces hcompile cap, hfirst, ?_, ?_⟩
    · rw [hfirst.length_eq]
      rfl
    · rw [decide_eq_true_iff, hshows.length_eq]
  · intro cap cap' r r' hle hr hr'
    obtain rfl := Except.ok.inj ((search_of_ofCorpus he hplaces hcompile cap).symm.trans hr)
    obtain rfl := Except.ok.inj ((search_of_ofCorpus he hplaces hcompile cap').symm.trans hr')
    exact List.take_prefix_take_left (Int.toNat_le_toNat hle)
  · intro d maxResults' e' maxResults'' he' hplaces'
    obtain ⟨j, hj, heq'⟩ := ofCorpus_eq_ok_iff.mp he'
    have hwhole := VerseIndex.ofCorpus_append hi hj
    have hall : ofCorpus (c.append d) l maxResults'' = .ok ⟨_, l, maxResults'', {}⟩ :=
      ofCorpus_eq_ok_iff.mpr ⟨_, hwhole, rfl⟩
    refine ⟨_, hall, ?_⟩
    intro cap cap' cap'' r r' r'' hr ht hr' ht' hr'' ht''
    rw [results_of_not_truncated hall (hplaces.append hplaces') hcompile hr'' ht'',
      results_of_not_truncated he hplaces hcompile hr ht,
      results_of_not_truncated he' hplaces' hcompile hr' ht', heq, heq']
    simp only [allResults, List.filterMap_append, List.filterMap_map]
    rfl

/-- Three verses of which two have a match, and a further corpus of one verse. -/
theorem search_takes_first_of_three :
    let c : Corpus Text := ⟨[⟨['א'], [[[⟨['א', 'ב'], 1⟩], [⟨['ג'], 2⟩], [⟨['א'], 3⟩]]]⟩]⟩
    let d : Corpus Text := ⟨[⟨['ב'], [[[⟨['א'], 1⟩]]]⟩]⟩
    c.FitsNumerals ∧ d.FitsNumerals ∧
      ∃ e e' whole one r r' all, ofCorpus c ⟨[]⟩ 10 = .ok e ∧ ofCorpus d ⟨[]⟩ 10 = .ok e' ∧
        ofCorpus (c.append d) ⟨[]⟩ 10 = .ok whole ∧
        (e.search ['א'] (some 1) false).2 = .ok one ∧ (e.search ['א'] none false).2 = .ok r ∧
        (e'.search ['א'] none false).2 = .ok r' ∧ (whole.search ['א'] none false).2 = .ok all ∧
        one.results.length = 1 ∧ one.truncated = true ∧ one.results <+: r.results ∧
        all.results = r.results ++ r'.results := by
  intro c d
  have hc : c.FitsNumerals := by
    unfold Corpus.FitsNumerals
    decide
  have hd : d.FitsNumerals := by
    unfold Corpus.FitsNumerals
    decide
  let p : Pattern := ⟨.cat (.one { items := [.code 0x5d0] }) .empty⟩
  have hcompile : Query.compile ⟨[]⟩ ['א'] false = .ok ⟨['א'], p, false, []⟩ := by decide +kernel
  let first : IndexedVerse := ⟨0, ['א'], 0, 0, [['א', 'ב']], [1], " אב<1> ".toList⟩
  let second : IndexedVerse := ⟨1, ['א'], 0, 1, [['ג']], [2], " ג<2> ".toList⟩
  let third : IndexedVerse := ⟨2, ['א'], 0, 2, [['א']], [3], " א<3> ".toList⟩
  let further : IndexedVerse := ⟨0, ['ב'], 0, 0, [['א']], [1], " א<1> ".toList⟩
  have he : ofCorpus c ⟨[]⟩ 10 = .ok ⟨⟨[first, second, third]⟩, ⟨[]⟩, 10, {}⟩ := by decide +kernel
  have he' : ofCorpus d ⟨[]⟩ 10 = .ok ⟨⟨[further]⟩, ⟨[]⟩, 10, {}⟩ := by decide +kernel
  have hjoined : ofCorpus (c.append d) ⟨[]⟩ 10 =
      .ok ⟨⟨[first, second, third, { further with index := 3 }]⟩, ⟨[]⟩, 10, {}⟩ := by decide +kernel
  have hfound : foundIn p [first, second, third] = [first, third] := by decide +kernel
  have hfound' : foundIn p [further] = [further] := by decide +kernel
  have hfound'' : foundIn p [first, second, third, { further with index := 3 }] =
      [first, third, { further with index := 3 }] := by decide +kernel
  obtain ⟨-, hsearch, hgrows, happend⟩ := search_takes_first he hc hcompile
  obtain ⟨-, hsearch', -, -⟩ := search_takes_first he' hd hcompile
  obtain ⟨whole, hwhole, hboth⟩ := happend d 10 _ 10 he' hd
  obtain ⟨one, hone, hshown, -, htruncated⟩ := hsearch (some 1)
  obtain ⟨r, hr, -, -, hrest⟩ := hsearch none
  obtain ⟨r', hr', -, -, hrest'⟩ := hsearch' none
  obtain rfl := Except.ok.inj (hwhole.symm.trans hjoined)
  obtain ⟨-, hsearch'', -, -⟩ := search_takes_first hjoined (hc.append hd) hcompile
  obtain ⟨all, hall, -, -, hrest''⟩ := hsearch'' none
  refine ⟨hc, hd, _, _, _, one, r, r', all, he, he', hwhole, hone, hr, hr', hall, ?_, ?_, ?_, ?_⟩
  · rw [← hshown.length_eq, hfound]
    rfl
  · rw [htruncated, hfound]
    decide
  · exact hgrows _ _ _ _ (by decide) hone hr
  · refine hboth none none none r r' all hr ?_ hr' ?_ hall ?_
    · rw [← Bool.not_eq_true, hrest, hfound]
      decide
    · rw [← Bool.not_eq_true, hrest', hfound']
      decide
    · rw [← Bool.not_eq_true, hrest'', hfound'']
      decide

end Engine

end VerseSearch
