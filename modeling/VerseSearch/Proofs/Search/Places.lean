import Mathlib.Algebra.BigOperators.Group.List.Basic
import VerseSearch.Engine
import VerseSearch.Proofs.Search.Index

/-! # The index and its corpus

The index of a corpus that was read has the same verses in the same order, and finds them at their places.

* `Corpus.verseAt?`: the verse at a place of a corpus.
* `VerseIndex.Precedes`: the order of places.
* `VerseIndex.pairwise_places`, `VerseIndex.map_verse_places`: the places of a corpus are in order, and their
  verses are those of the corpus.
* `VerseIndex.dropRepeats_flatMap`: the names of the verses are those of the books.
* `VerseIndex.Mirrors`: what an index has from its corpus.
* `Engine.mirrors_of_read`: the engine of a corpus that was read has such an index.
-/

namespace VerseSearch
set_option autoImplicit false

/-! ## Numbered lists -/

theorem zipIdx_pairwise {α : Type} (xs : List α) (start : ℕ) :
    (xs.zipIdx start).Pairwise fun x y => x.2 < y.2 := by
  have hnumbers : ((xs.zipIdx start).map Prod.snd).Pairwise (· < ·) := by
    rw [List.zipIdx_map_snd]
    exact List.pairwise_lt_range' 1
  exact List.pairwise_map.mp hnumbers

/-! ## Places -/

namespace Corpus

/-- The verse at two positions of the book of a name; positions count from zero. -/
def verseAt? (c : Corpus Text) (book : Text) (chapter verse : ℤ) : Option Verse :=
  match chapter, verse with
  | .ofNat m, .ofNat n => do
    let b ← c.book? book
    let verses ← b.chapters[m]?
    verses[n]?
  | _, _ => none

variable {c : Corpus Text} (hnames : c.bookNames.Nodup)
include hnames

theorem book?_eq_some_iff {name : Text} {b : Book Text} :
    c.book? name = some b ↔ b ∈ c.books ∧ b.name = name := by
  constructor
  · intro h
    exact ⟨List.mem_of_find?_eq_some h, by simpa using List.find?_some h⟩
  · rintro ⟨hb, rfl⟩
    cases h : c.book? b.name with
    | none => exact absurd (decide_eq_true rfl) (List.find?_eq_none.mp h b hb)
    | some found =>
      have hname : found.name = b.name := by simpa using List.find?_some h
      exact congrArg some (List.inj_on_of_nodup_map hnames (List.mem_of_find?_eq_some h) hb hname)

theorem verseAt?_eq_some_iff {book : Text} {m n : ℕ} {ws : Verse} :
    c.verseAt? book m n = some ws ↔ (book, m, n, ws) ∈ VerseIndex.places c := by
  rw [VerseIndex.mem_places]
  simp only [verseAt?, Option.bind_eq_bind, Option.bind_eq_some_iff,
    book?_eq_some_iff hnames]
  simp only [and_assoc]

end Corpus

namespace IndexedVerse

def place (v : IndexedVerse) : Text × ℕ × ℕ := (v.book, v.chapter, v.verse)

/-- The words and the tags are those of a verse of a corpus. -/
def Has (v : IndexedVerse) (ws : Verse) : Prop :=
  v.words = ws.map (·.word) ∧ v.tags = ws.map (·.tag)

end IndexedVerse

namespace VerseIndex

/-- Whether a place comes before another one: in an earlier book, in an earlier chapter of the same book, or
earlier in the same chapter. -/
def Precedes (names : List Text) (p q : Text × ℕ × ℕ) : Prop :=
  names.idxOf p.1 < names.idxOf q.1 ∨
    p.1 = q.1 ∧ (p.2.1 < q.2.1 ∨ p.2.1 = q.2.1 ∧ p.2.2 < q.2.2)

theorem book_eq_of_mem {b : Book Text} {x : Text × ℕ × ℕ × Verse}
    (h : x ∈ b.chapters.zipIdx.flatMap fun (verses, chapter) =>
      verses.zipIdx.map fun (v, verse) => (b.name, chapter, verse, v)) : x.1 = b.name := by
  obtain ⟨_, -, hx⟩ := List.mem_flatMap.mp h
  obtain ⟨_, -, rfl⟩ := List.mem_map.mp hx
  rfl

/-- The places of a book are in order because positions are, and those of several books because names are
distinct. -/
theorem pairwise_places {c : Corpus Text} (hnames : c.bookNames.Nodup) : (places c).Pairwise fun x y =>
    Precedes c.bookNames (x.1, x.2.1, x.2.2.1) (y.1, y.2.1, y.2.2.1) := by
  rw [places, List.pairwise_flatMap]
  constructor
  · intro b _
    rw [List.pairwise_flatMap]
    constructor
    · rintro ⟨verses, chapter⟩ -
      exact List.pairwise_map.mpr ((zipIdx_pairwise verses 0).imp fun hlt => .inr ⟨rfl, .inr ⟨rfl, hlt⟩⟩)
    · refine (zipIdx_pairwise b.chapters 0).imp fun hlt x hx y hy => ?_
      obtain ⟨_, -, rfl⟩ := List.mem_map.mp hx
      obtain ⟨_, -, rfl⟩ := List.mem_map.mp hy
      exact .inr ⟨rfl, .inl hlt⟩
  · have hpositions : c.bookNames.Pairwise fun s t => c.bookNames.idxOf s < c.bookNames.idxOf t := by
      rw [List.pairwise_iff_getElem]
      intro m n hm hn hlt
      rwa [hnames.idxOf_getElem, hnames.idxOf_getElem]
    refine (List.pairwise_map.mp hpositions).imp fun hlt x hx y hy => .inl ?_
    rwa [book_eq_of_mem hx, book_eq_of_mem hy]

theorem map_verse_places (c : Corpus Text) :
    (places c).map (·.2.2.2) = c.books.flatMap fun b => b.chapters.flatten := by
  rw [places, List.map_flatMap]
  refine List.flatMap_congr fun b _ => ?_
  rw [List.map_flatMap, List.flatten_eq_flatMap, ← List.zipIdx_map_fst 0 b.chapters, List.flatMap_map,
    List.zipIdx_map_fst]
  refine List.flatMap_congr fun x _ => ?_
  rw [List.map_map]
  exact List.zipIdx_map_fst 0 x.1

/-! ## Names -/

theorem dropRepeats_replicate_append (n : ℕ) {t : Text} {rest : List Text}
    (h : ∀ u ∈ rest.head?, u ≠ t) :
    dropRepeats (List.replicate (n + 1) t ++ rest) = t :: dropRepeats rest := by
  induction n with
  | zero =>
    cases rest with
    | nil => rfl
    | cons u rest =>
      change dropRepeats (t :: u :: rest) = _
      rw [dropRepeats, if_neg (h u rfl).symm]
  | succ n ih =>
    rw [List.replicate_succ, List.replicate_succ, List.cons_append, List.cons_append, dropRepeats,
      if_pos rfl, ← List.cons_append, ← List.replicate_succ, ih]

/-- Names that are repeated, but never none and never again after another one. -/
theorem dropRepeats_flatMap {books : List (Book Text)} {count : Book Text → ℕ}
    (hnames : (books.map (·.name)).Nodup) (hcount : ∀ b ∈ books, count b ≠ 0) :
    dropRepeats (books.flatMap fun b => List.replicate (count b) b.name) = books.map (·.name) := by
  induction books with
  | nil => rfl
  | cons b books ih =>
    obtain ⟨hnew, hnames⟩ := List.nodup_cons.mp hnames
    obtain ⟨hb, hcount⟩ := List.forall_mem_cons.mp hcount
    obtain ⟨n, hn⟩ := Nat.exists_eq_succ_of_ne_zero hb
    rw [List.flatMap_cons, hn, dropRepeats_replicate_append n, ih hnames hcount, List.map_cons]
    intro u hu
    obtain ⟨d, hd, hmem⟩ := List.mem_flatMap.mp (List.mem_of_head? hu)
    rw [(List.mem_replicate.mp hmem).2]
    exact fun heq => hnew (List.mem_map.mpr ⟨d, hd, heq⟩)

theorem map_book_places (c : Corpus Text) :
    (places c).map (·.1) = c.books.flatMap fun b => List.replicate b.chapters.flatten.length b.name := by
  rw [places, List.map_flatMap]
  refine List.flatMap_congr fun b _ => ?_
  rw [List.eq_replicate_iff]
  constructor
  · have hlength := congrArg List.length (map_verse_places ⟨[b]⟩)
    simpa [places] using hlength
  · intro t ht
    obtain ⟨x, hx, rfl⟩ := List.mem_map.mp ht
    obtain ⟨_, -, hx⟩ := List.mem_flatMap.mp hx
    obtain ⟨_, -, rfl⟩ := List.mem_map.mp hx
    rfl

/-! ## Verses -/

theorem normalizeWords_of_normalized {ws : List TaggedWord}
    (h : ∀ w ∈ ws, Hebrew.normalize w.word = .ok w.word) : normalizeWords ws = .ok (ws.map (·.word)) := by
  induction ws with
  | nil => rfl
  | cons w ws ih =>
    obtain ⟨hw, hws⟩ := List.forall_mem_cons.mp h
    simp only [normalizeWords, hw, ih hws, Except.map, List.map_cons]

section
variable {c : Corpus Text} {i : VerseIndex} (h : List.Forall₂ IndexedAs (places c).zipIdx i.verses)
include h

theorem map_verses_eq {β : Type} {f : IndexedVerse → β} {g : (Text × ℕ × ℕ × Verse) × ℕ → β}
    (hfg : ∀ x v, IndexedAs x v → f v = g x) : i.verses.map f = (places c).zipIdx.map g := by
  have hmapped : List.Forall₂ (· = ·) (i.verses.map f) ((places c).zipIdx.map g) := by
    rw [List.forall₂_map_left_iff, List.forall₂_map_right_iff]
    exact (h.flip).imp fun v x hxv => hfg x v hxv
  rwa [List.forall₂_eq_eq_eq] at hmapped

theorem map_places_eq {β : Type} {f : IndexedVerse → β} {g : Text × ℕ × ℕ × Verse → β}
    (hfg : ∀ x v, IndexedAs x v → f v = g x.1) : i.verses.map f = (places c).map g := by
  rw [map_verses_eq h (g := g ∘ Prod.fst) hfg, ← List.map_map, List.zipIdx_map_fst]

end

/-! ## The index -/

/-- What an index has from its corpus: verses that are numbered and in the order of their places, each with
the words and tags of the verse at its place; at each place the verse of the corpus there, and no other; the
names of the books; and as many verses and words. -/
structure Mirrors (i : VerseIndex) (c : Corpus Text) : Prop where
  index_eq : ∀ (n : ℕ) (v : IndexedVerse), i.verses[n]? = some v → v.index = n
  ordered : i.verses.Pairwise fun v w => Precedes c.bookNames v.place w.place
  has : ∀ v ∈ i.verses, ∃ ws, c.verseAt? v.book v.chapter v.verse = some ws ∧ v.Has ws
  verse?_rel : ∀ book (chapter verse : ℤ), Option.Rel
    (fun v ws => v ∈ i.verses ∧ v.book = book ∧ v.chapter = chapter ∧ v.verse = verse ∧ v.Has ws)
    (i.verse? book chapter verse) (c.verseAt? book chapter verse)
  bookNames_eq : i.bookNames = c.bookNames
  stats_eq : i.stats = ⟨c.stats.verses, c.stats.words⟩

section
variable {c : Corpus Text} {i : VerseIndex} (h : List.Forall₂ IndexedAs (places c).zipIdx i.verses)
include h

theorem index_eq_of_getElem? {n : ℕ} {v : IndexedVerse} (hv : i.verses[n]? = some v) : v.index = n := by
  have hindexes : i.verses.map (·.index) = List.range' 0 (places c).length := by
    rw [map_verses_eq h (g := Prod.snd) fun x v hxv => ?_, List.zipIdx_map_snd]
    obtain ⟨ns, s, -, -, rfl⟩ := indexVerse_eq_ok_iff.mp hxv
    rfl
  have hn : (i.verses.map (·.index))[n]? = some v.index := by rw [List.getElem?_map, hv, Option.map_some]
  obtain ⟨hlt, hn⟩ := List.getElem?_eq_some_iff.mp (hindexes ▸ hn)
  simpa using hn.symm

theorem map_place_eq : i.verses.map (·.place) = (places c).map fun x => (x.1, x.2.1, x.2.2.1) :=
  map_places_eq h fun x v hxv => by
    obtain ⟨ns, s, -, -, rfl⟩ := indexVerse_eq_ok_iff.mp hxv
    rfl

theorem stats_eq : i.stats = ⟨c.stats.verses, c.stats.words⟩ := by
  have hlengths : i.verses.map (·.words.length) = ((places c).map (·.2.2.2)).map List.length := by
    rw [List.map_map]
    refine map_places_eq h fun x v hxv => ?_
    obtain ⟨ns, s, hns, -, rfl⟩ := indexVerse_eq_ok_iff.mp hxv
    exact length_of_normalizeWords hns
  have hverses : i.verses.length = ((places c).map (·.2.2.2)).length := by
    simpa using congrArg List.length hlengths
  rw [map_verse_places] at hlengths hverses
  have hwords : (i.verses.flatMap (·.words)).length = (c.books.flatMap (·.verses.flatten)).length := by
    rw [List.length_flatMap, hlengths, ← List.length_flatten, List.flatMap_def, List.flatten_flatten,
      List.map_map]
    rfl
  rw [stats, hverses, hwords]
  rfl

variable (hnames : c.bookNames.Nodup)
include hnames

theorem verseAt?_of_mem (hwords : ∀ w ∈ Corpus.wordsOf c.books, Hebrew.normalize w.word = .ok w.word)
    {v : IndexedVerse} (hv : v ∈ i.verses) :
    ∃ ws, c.verseAt? v.book v.chapter v.verse = some ws ∧ v.Has ws := by
  obtain ⟨ws, hplace, hindexed⟩ := place_of_mem h hv
  have hws : ∀ w ∈ ws, Hebrew.normalize w.word = .ok w.word := fun w hw => by
    have hmem := List.mem_map_of_mem (f := fun x : Text × ℕ × ℕ × Verse => x.2.2.2) hplace
    rw [map_verse_places] at hmem
    obtain ⟨b, hb, hmem⟩ := List.mem_flatMap.mp hmem
    exact hwords w (List.mem_flatMap.mpr ⟨b, hb, List.mem_flatten_of_mem hmem hw⟩)
  obtain ⟨ns, s, hns, -, heq⟩ := indexVerse_eq_ok_iff.mp hindexed
  rw [normalizeWords_of_normalized hws] at hns
  obtain rfl := Except.ok.inj hns
  refine ⟨ws, (Corpus.verseAt?_eq_some_iff hnames).mpr hplace, ?_⟩
  rw [heq]
  exact ⟨rfl, rfl⟩

theorem exists_verse_of_verseAt? {book : Text} {chapter verse : ℤ} {ws : Verse}
    (hws : c.verseAt? book chapter verse = some ws) :
    ∃ v ∈ i.verses, v.book = book ∧ v.chapter = chapter ∧ v.verse = verse := by
  cases chapter with
  | negSucc m => cases hws
  | ofNat m =>
    cases verse with
    | negSucc n => cases hws
    | ofNat n =>
      have hplace := (Corpus.verseAt?_eq_some_iff hnames).mp hws
      have hmem : (book, m, n) ∈ i.verses.map (·.place) := by
        rw [map_place_eq h]
        exact List.mem_map.mpr ⟨_, hplace, rfl⟩
      obtain ⟨v, hv, heq⟩ := List.mem_map.mp hmem
      simp only [IndexedVerse.place, Prod.mk.injEq] at heq
      obtain ⟨rfl, rfl, rfl⟩ := heq
      exact ⟨v, hv, rfl, rfl, rfl⟩

theorem bookNames_eq (hne : ∀ b ∈ c.books, b.chapters.flatten ≠ []) : i.bookNames = c.bookNames := by
  have hbooks : i.verses.map (·.book) = (places c).map (·.1) := map_places_eq h fun x v hxv => by
    obtain ⟨ns, s, -, -, rfl⟩ := indexVerse_eq_ok_iff.mp hxv
    rfl
  rw [bookNames, hbooks, map_book_places]
  exact dropRepeats_flatMap hnames fun b hb => List.length_eq_zero_iff.not.mpr (hne b hb)

theorem mirrors_of_indexed
    (hwords : ∀ w ∈ Corpus.wordsOf c.books, Hebrew.normalize w.word = .ok w.word)
    (hne : ∀ b ∈ c.books, b.chapters.flatten ≠ []) : Mirrors i c where
  index_eq _ _ := index_eq_of_getElem? h
  ordered := by
    rw [← List.pairwise_map (f := IndexedVerse.place), map_place_eq h, List.pairwise_map]
    exact pairwise_places hnames
  has _ := verseAt?_of_mem h hnames hwords
  verse?_rel book chapter verse := by
    cases hfound : i.verse? book chapter verse with
    | some v =>
      have hv : v ∈ i.verses := List.mem_reverse.mp (List.mem_of_find?_eq_some hfound)
      have hkey : (v.book = book ∧ (v.chapter : ℤ) = chapter) ∧ (v.verse : ℤ) = verse := by
        simpa using List.find?_some hfound
      obtain ⟨ws, hws, hhas⟩ := verseAt?_of_mem h hnames hwords hv
      obtain ⟨⟨rfl, rfl⟩, rfl⟩ := hkey
      rw [hws]
      exact .some ⟨hv, rfl, rfl, rfl, hhas⟩
    | none =>
      cases hws : c.verseAt? book chapter verse with
      | none => exact .none
      | some ws =>
        obtain ⟨v, hv, rfl, rfl, rfl⟩ := exists_verse_of_verseAt? h hnames hws
        exact absurd (by simp) (List.find?_eq_none.mp hfound v (List.mem_reverse.mpr hv))
  bookNames_eq := bookNames_eq h hnames hne
  stats_eq := stats_eq h

end

end VerseIndex

/-! ## Corpora that were read -/

theorem Corpus.normalized_of_read [Pattern.CharNames] {bookFilter : Option Text} {lines : List Text}
    {c : Corpus Text}
    (h : read bookFilter lines = .ok c) : ∀ w ∈ wordsOf c.books, Hebrew.normalize w.word = .ok w.word := by
  intro w hw
  rw [← map_word_locateBooks 1 1, ← located_eq] at hw
  obtain ⟨located, hlocated, rfl⟩ := List.mem_map.mp hw
  obtain ⟨-, completed, -, hnormalize⟩ := Row.readWord_eq_ok_iff.mp ((read_spec h).2 located hlocated).word
  exact Hebrew.normalize_of_normalize hnormalize

/-- The engine of a corpus that was read has an index that mirrors the corpus. -/
theorem Engine.mirrors_of_read [Pattern.CharNames] {bookFilter : Option Text} {lines : List Text}
    {c : Corpus Text} (h : Corpus.read bookFilter lines = .ok c) (l : Lexicon) (maxResults : ℤ) :
    ∃ e, Engine.ofCorpus c l maxResults = .ok e ∧ e.index.Mirrors c := by
  obtain ⟨i, hi, hindexed⟩ := VerseIndex.ofCorpus_spec (Corpus.encodable_of_read h)
  have hgrouped := (Corpus.read_spec h).1
  have hne : ∀ b ∈ c.books, b.chapters.flatten ≠ [] := fun b hb hempty => by
    obtain ⟨hchapters, hverses⟩ := hgrouped.ne_nil b hb
    obtain ⟨verses, hmem⟩ := List.exists_mem_of_ne_nil _ hchapters
    exact (hverses verses hmem).1 (List.flatten_eq_nil_iff.mp hempty verses hmem)
  have he : Engine.ofCorpus c l maxResults = .ok ⟨i, l, maxResults, {}⟩ := by
    rw [Engine.ofCorpus, hi]
    rfl
  exact ⟨_, he, VerseIndex.mirrors_of_indexed hindexed hgrouped.nodup (Corpus.normalized_of_read h) hne⟩

/-- Two books, the first of which has two verses, one of them with two words. -/
theorem Engine.mirrors_of_read_of_two_books :
    let lines := ["Genesis\t1\t1\tאור\t216".toList, "Genesis\t1\t1\tאב\t1".toList,
      "Genesis\t1\t2\tאב\t1".toList, "Exodus\t1\t1\tאב".toList]
    let genesis : Book Text :=
      ⟨"בראשית".toList, [[[⟨"אור".toList, 216⟩, ⟨"אב".toList, 1⟩], [⟨"אב".toList, 1⟩]]]⟩
    let exodus : Book Text := ⟨"שמות".toList, [[[⟨"אב".toList, 0⟩]]]⟩
    Corpus.read none lines = .ok ⟨[genesis, exodus]⟩ ∧
      ∃ e, Engine.ofCorpus ⟨[genesis, exodus]⟩ ⟨[]⟩ 10 = .ok e ∧ e.index.Mirrors ⟨[genesis, exodus]⟩ ∧
        e.index.bookNames = ["בראשית".toList, "שמות".toList] ∧ e.index.stats = ⟨3, 4⟩ ∧
        (e.index.verse? "שמות".toList 0 0).isSome ∧ e.index.verse? "שמות".toList 0 (-1) = none := by
  intro lines genesis exodus
  have hread : Corpus.read none lines = .ok ⟨[genesis, exodus]⟩ := by decide +kernel
  obtain ⟨e, he, hmirrors⟩ := mirrors_of_read hread ⟨[]⟩ 10
  have hfound := hmirrors.verse?_rel "שמות".toList 0 0
  have hmissing := hmirrors.verse?_rel "שמות".toList 0 (-1)
  have hverse : Corpus.verseAt? ⟨[genesis, exodus]⟩ "שמות".toList 0 0 = some [⟨"אב".toList, 0⟩] := by
    decide +kernel
  refine ⟨hread, e, he, hmirrors, hmirrors.bookNames_eq, hmirrors.stats_eq, ?_, ?_⟩
  · rw [hverse] at hfound
    generalize e.index.verse? "שמות".toList 0 0 = found at hfound ⊢
    cases hfound
    rfl
  · have hnone : Corpus.verseAt? ⟨[genesis, exodus]⟩ "שמות".toList 0 (-1) = none := rfl
    rw [hnone] at hmissing
    generalize e.index.verse? "שמות".toList 0 (-1) = missing at hmissing ⊢
    cases hmissing
    rfl

end VerseSearch
