import VerseSearch.Proofs.Search.Layout

/-! # The index of a corpus

* `VerseIndex.indexVerse_eq_ok_iff`: what an indexed verse has from the verse of the corpus.
* `VerseIndex.indexAll_eq_ok_iff`: the indexed verses are those of the places, in order.
* `VerseIndex.mem_places`: the verses of a corpus with their places.
* `VerseIndex.ofCorpus_eq_ok_iff`: the index of a corpus; `VerseIndex.ofCorpus_spec`: an encodable
  corpus has one.
* `VerseIndex.place_of_mem`: the place of an indexed verse in the corpus.
-/

namespace VerseSearch.VerseIndex
set_option autoImplicit false

/-! ## Verses -/

theorem exists_normalizeWords {ws : List TaggedWord} (h : ∀ w ∈ ws, w.Encodable .hebrew) :
    ∃ ns, normalizeWords ws = .ok ns := by
  induction ws with
  | nil => exact ⟨[], rfl⟩
  | cons w ws ih =>
    obtain ⟨hw, hws⟩ := List.forall_mem_cons.mp h
    obtain ⟨n, hn⟩ := Hebrew.normalize_of_contains hw.contains
    obtain ⟨ns, hns⟩ := ih hws
    exact ⟨n :: ns, by rw [normalizeWords, hn, hns]; rfl⟩

theorem length_of_normalizeWords {ws : List TaggedWord} {ns : List Text}
    (h : normalizeWords ws = .ok ns) : ns.length = ws.length := by
  induction ws generalizing ns with
  | nil =>
    obtain rfl := Except.ok.inj h
    rfl
  | cons w ws ih =>
    rw [normalizeWords] at h
    split at h
    · cases h
    · obtain ⟨rest, hrest, rfl⟩ := ok_of_map h
      rw [List.length_cons, List.length_cons, ih hrest]

theorem indexVerse_eq_ok_iff {index : ℕ} {book : Text} {chapter verse : ℕ} {ws : List TaggedWord}
    {v : IndexedVerse} : indexVerse index book chapter verse ws = .ok v ↔
      ∃ ns s, normalizeWords ws = .ok ns ∧ SearchString.ofWords ws = .ok s ∧
        v = ⟨index, book, chapter, verse, ns, ws.map (·.tag), s⟩ := by
  rw [indexVerse]
  cases normalizeWords ws with
  | error e => simp
  | ok ns =>
    cases SearchString.ofWords ws with
    | error e => simp
    | ok s => simp [eq_comm]

theorem exists_indexVerse {ws : List TaggedWord} (h : ∀ w ∈ ws, w.Encodable .hebrew) (index : ℕ)
    (book : Text) (chapter verse : ℕ) : ∃ v, indexVerse index book chapter verse ws = .ok v := by
  obtain ⟨ns, hns⟩ := exists_normalizeWords h
  obtain ⟨segs, -, hstring⟩ := SearchString.exists_lays
    (fun w hw => Hebrew.normalize_of_contains (h w hw).contains) fun w hw => (h w hw).tag_nonneg
  exact ⟨_, indexVerse_eq_ok_iff.mpr ⟨ns, _, hns, hstring, rfl⟩⟩

/-! ## All verses -/

/-- The indexed verse is made from the verse at a place, with its number. -/
def IndexedAs (x : (Text × ℕ × ℕ × Verse) × ℕ) (v : IndexedVerse) : Prop :=
  indexVerse x.2 x.1.1 x.1.2.1 x.1.2.2.1 x.1.2.2.2 = .ok v

theorem indexAll_eq_ok_iff {ps : List (Text × ℕ × ℕ × Verse)} {index : ℕ}
    {done vs : List IndexedVerse} : indexAll index done ps = .ok vs ↔
      ∃ more, vs = done.reverse ++ more ∧ List.Forall₂ IndexedAs (ps.zipIdx index) more := by
  induction ps generalizing index done with
  | nil => simp [indexAll, eq_comm]
  | cons x ps ih =>
    obtain ⟨book, chapter, verse, ws⟩ := x
    rw [indexAll, List.zipIdx_cons]
    cases hv : indexVerse index book chapter verse ws with
    | error e => simp [List.forall₂_cons_left_iff, IndexedAs, hv]
    | ok v =>
      simp only [ih, List.forall₂_cons_left_iff, IndexedAs, hv]
      constructor
      · rintro ⟨more, rfl, hmore⟩
        exact ⟨v :: more, by simp, v, more, rfl, hmore, rfl⟩
      · rintro ⟨_, rfl, v', more, hv', hmore, rfl⟩
        obtain rfl := Except.ok.inj hv'
        exact ⟨more, by simp, hmore⟩

theorem exists_indexAll {ps : List (Text × ℕ × ℕ × Verse)}
    (h : ∀ x ∈ ps, ∀ w ∈ x.2.2.2, w.Encodable .hebrew) (index : ℕ) (done : List IndexedVerse) :
    ∃ vs, indexAll index done ps = .ok vs := by
  induction ps generalizing index done with
  | nil => exact ⟨_, rfl⟩
  | cons x ps ih =>
    obtain ⟨book, chapter, verse, ws⟩ := x
    obtain ⟨hws, hps⟩ := List.forall_mem_cons.mp h
    obtain ⟨v, hv⟩ := exists_indexVerse hws index book chapter verse
    rw [indexAll, hv]
    exact ih hps (index + 1) (v :: done)

theorem mem_places {c : Corpus Text} {book : Text} {chapter verse : ℕ} {v : Verse} :
    (book, chapter, verse, v) ∈ places c ↔ ∃ b ∈ c.books, b.name = book ∧
      ∃ ch, b.chapters[chapter]? = some ch ∧ ch[verse]? = some v := by
  simp only [places, List.mem_flatMap, List.mem_map, Prod.exists, List.mem_zipIdx_iff_getElem?,
    Prod.mk.injEq]
  constructor
  · rintro ⟨b, hb, ch, _, hch, _, _, hv, hname, rfl, rfl, rfl⟩
    exact ⟨b, hb, hname, ch, hch, hv⟩
  · rintro ⟨b, hb, hname, ch, hch, hv⟩
    exact ⟨b, hb, ch, chapter, hch, v, verse, hv, hname, rfl, rfl, rfl⟩

theorem encodable_of_mem_places {c : Corpus Text} (hc : c.Encodable) {x : Text × ℕ × ℕ × Verse}
    (hx : x ∈ places c) : ∀ w ∈ x.2.2.2, w.Encodable .hebrew := by
  obtain ⟨book, chapter, verse, v⟩ := x
  obtain ⟨b, hb, -, ch, hch, hv⟩ := mem_places.mp hx
  exact Corpus.encodable_iff.mp hc b hb ch (List.mem_of_getElem? hch) v (List.mem_of_getElem? hv)

/-- The index of a corpus holds the verses at all places with their numbers. -/
theorem ofCorpus_eq_ok_iff {c : Corpus Text} {i : VerseIndex} :
    ofCorpus c = .ok i ↔ List.Forall₂ IndexedAs (places c).zipIdx i.verses := by
  constructor
  · intro h
    obtain ⟨vs, hvs, rfl⟩ := ok_of_map h
    obtain ⟨more, rfl, hmore⟩ := indexAll_eq_ok_iff.mp hvs
    exact hmore
  · intro h
    have hvs : indexAll 0 [] (places c) = .ok i.verses := indexAll_eq_ok_iff.mpr ⟨i.verses, rfl, h⟩
    rw [ofCorpus, hvs]
    rfl

/-- An encodable corpus has an index, which holds the verses at all places with their numbers. -/
theorem ofCorpus_spec {c : Corpus Text} (hc : c.Encodable) :
    ∃ i, ofCorpus c = .ok i ∧ List.Forall₂ IndexedAs (places c).zipIdx i.verses := by
  obtain ⟨vs, hvs⟩ := exists_indexAll (fun _ => encodable_of_mem_places hc) 0 []
  have hi : ofCorpus c = .ok ⟨vs⟩ := by
    rw [ofCorpus, hvs]
    rfl
  exact ⟨⟨vs⟩, hi, ofCorpus_eq_ok_iff.mp hi⟩

theorem place_of_mem {c : Corpus Text} {i : VerseIndex}
    (h : List.Forall₂ IndexedAs (places c).zipIdx i.verses) {v : IndexedVerse} (hv : v ∈ i.verses) :
    ∃ ws, (v.book, v.chapter, v.verse, ws) ∈ places c ∧
      indexVerse v.index v.book v.chapter v.verse ws = .ok v := by
  obtain ⟨⟨⟨book, chapter, verse, ws⟩, index⟩, hx, hindexed⟩ := exists_of_forall₂ h v hv
  obtain ⟨ns, s, -, -, rfl⟩ := indexVerse_eq_ok_iff.mp hindexed
  exact ⟨ws, List.fst_mem_of_mem_zipIdx hx, hindexed⟩

end VerseSearch.VerseIndex
