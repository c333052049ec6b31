import VerseSearch.Proofs.Corpus.Contiguity

/-! # The words of a corpus in order

* `Corpus.located`: the words of a corpus, each with the place that it has there.
* `Grouped`: books that come about by adding words in front, one at a time.
* `Opens.prepend`: a word in front of grouped books whose place they continue.
* `Corpus.ofLocated_spec`: contiguous words make grouped books, and these list the words.
* `Grouped.contiguous_located`, `Grouped.ofLocated_located`: the words of grouped books are
  contiguous, and the books are the corpus of these words.
-/

namespace VerseSearch
set_option autoImplicit false

/-! ## Listing -/

/-- The words of verses that are numbered from `verse` on. -/
def locateVerses (book : Text) (chapter : ℕ) : ℕ → List Verse → List LocatedWord
  | _, [] => []
  | verse, words :: verses =>
    words.map (⟨⟨book, chapter, verse⟩, ·⟩) ++ locateVerses book chapter (verse + 1) verses

/-- The words of chapters that are numbered from `chapter` on; the verses of the first one are
numbered from `verse` on. -/
def locateChapters (book : Text) : ℕ → ℕ → List Chapter → List LocatedWord
  | _, _, [] => []
  | chapter, verse, verses :: chapters =>
    locateVerses book chapter verse verses ++ locateChapters book (chapter + 1) 1 chapters

def locateBooks : ℕ → ℕ → List (Book Text) → List LocatedWord
  | _, _, [] => []
  | chapter, verse, b :: books =>
    locateChapters b.name chapter verse b.chapters ++ locateBooks 1 1 books

/-- The words of a corpus in order, each with the name of its book and the positions of its chapter
and its verse, counted from one. -/
def Corpus.located (c : Corpus Text) : List LocatedWord :=
  c.books.flatMap fun b =>
    (b.chapters.zipIdx 1).flatMap fun (verses, chapter) =>
      (verses.zipIdx 1).flatMap fun (words, verse) =>
        words.map fun w => ⟨⟨b.name, chapter, verse⟩, w⟩

theorem locateVerses_eq (book : Text) (chapter verse : ℕ) (verses : List Verse) :
    locateVerses book chapter verse verses = (verses.zipIdx verse).flatMap fun (words, verse) =>
      words.map fun w => ⟨⟨book, chapter, verse⟩, w⟩ := by
  induction verses generalizing verse with
  | nil => rfl
  | cons words verses ih => rw [locateVerses, ih, List.zipIdx_cons, List.flatMap_cons]

theorem locateChapters_eq (book : Text) (chapter : ℕ) (chapters : List Chapter) :
    locateChapters book chapter 1 chapters = (chapters.zipIdx chapter).flatMap
      fun (verses, chapter) => (verses.zipIdx 1).flatMap fun (words, verse) =>
        words.map fun w => ⟨⟨book, chapter, verse⟩, w⟩ := by
  induction chapters generalizing chapter with
  | nil => rfl
  | cons verses chapters ih =>
    rw [locateChapters, ih, locateVerses_eq, List.zipIdx_cons, List.flatMap_cons]

theorem Corpus.located_eq (c : Corpus Text) : c.located = locateBooks 1 1 c.books := by
  rw [located]
  induction c.books with
  | nil => rfl
  | cons b books ih => rw [List.flatMap_cons, ih, locateBooks, locateChapters_eq]

/-! ## Grouped books -/

/-- Books that come about by adding words in front: to the first verse, or as a verse, a chapter or
a book of their own. -/
inductive Grouped : List (Book Text) → Prop
  | nil : Grouped []
  | word {name : Text} {w w' : TaggedWord} {words : List TaggedWord} {verses : List Verse}
      {chapters : List Chapter} {books : List (Book Text)}
      (h : Grouped (⟨name, ((w' :: words) :: verses) :: chapters⟩ :: books)) :
      Grouped (⟨name, ((w :: w' :: words) :: verses) :: chapters⟩ :: books)
  | verse {name : Text} {w : TaggedWord} {words : Verse} {verses : List Verse}
      {chapters : List Chapter} {books : List (Book Text)}
      (h : Grouped (⟨name, (words :: verses) :: chapters⟩ :: books)) :
      Grouped (⟨name, ([w] :: words :: verses) :: chapters⟩ :: books)
  | chapter {name : Text} {w : TaggedWord} {verses : Chapter} {chapters : List Chapter}
      {books : List (Book Text)} (h : Grouped (⟨name, verses :: chapters⟩ :: books)) :
      Grouped (⟨name, [[w]] :: verses :: chapters⟩ :: books)
  | book {name : Text} {w : TaggedWord} {books : List (Book Text)} (h : Grouped books)
      (new : name ∉ books.map (·.name)) : Grouped (⟨name, [[[w]]]⟩ :: books)

namespace Grouped

variable {books : List (Book Text)}

theorem nodup (h : Grouped books) : (books.map (·.name)).Nodup := by
  induction h with
  | nil => exact .nil
  | word h ih | verse h ih | chapter h ih => exact ih
  | book h new ih => exact List.nodup_cons.mpr ⟨new, ih⟩

theorem ne_nil (h : Grouped books) : ∀ b ∈ books, b.chapters ≠ [] ∧
    ∀ verses ∈ b.chapters, verses ≠ [] ∧ ∀ words ∈ verses, words ≠ [] := by
  induction h with
  | nil => simp
  | word h ih | verse h ih | chapter h ih => simpa [and_assoc] using ih
  | book h new ih => simpa using ih

theorem filter_cons {keeps : Text → Bool} {name : Text} {chapters chapters' : List Chapter}
    (add : ∀ more, Grouped (⟨name, chapters⟩ :: more) → Grouped (⟨name, chapters'⟩ :: more))
    (h : Grouped ((⟨name, chapters⟩ :: books).filter fun b => keeps b.name)) :
    Grouped ((⟨name, chapters'⟩ :: books).filter fun b => keeps b.name) := by
  by_cases hname : keeps name = true
  · rw [List.filter_cons, if_pos hname] at h ⊢
    exact add _ h
  · rw [List.filter_cons, if_neg hname] at h ⊢
    exact h

theorem filter (h : Grouped books) (keeps : Text → Bool) :
    Grouped (books.filter fun b => keeps b.name) := by
  induction h with
  | nil => exact .nil
  | word h ih => exact filter_cons (fun _ => .word) ih
  | verse h ih => exact filter_cons (fun _ => .verse) ih
  | chapter h ih => exact filter_cons (fun _ => .chapter) ih
  | @book name w books h new ih =>
    by_cases hname : keeps name = true
    · rw [List.filter_cons, if_pos hname]
      exact .book ih fun hmem => new ((List.filter_sublist.map _).subset hmem)
    · rw [List.filter_cons, if_neg hname]
      exact ih

theorem locateBooks_head {b : Book Text} (h : Grouped (b :: books)) (chapter verse : ℕ) :
    ∃ w rest, locateBooks chapter verse (b :: books) = ⟨⟨b.name, chapter, verse⟩, w⟩ :: rest := by
  cases h with
  | word | verse | chapter | book => exact ⟨_, _, rfl⟩

end Grouped

/-! ## Adding words in front -/

namespace Corpus

variable (p : Place) (w : TaggedWord) (words : Verse) (verses : List Verse)
  (chapters : List Chapter) (books : List (Book Text))

theorem prepend_sameVerse :
    prepend ⟨p, w⟩ (some p) (⟨p.book, (words :: verses) :: chapters⟩ :: books) =
      ⟨p.book, ((w :: words) :: verses) :: chapters⟩ :: books := by
  simp [prepend]

theorem prepend_nextVerse :
    prepend ⟨p, w⟩ (some ⟨p.book, p.chapter, p.verse + 1⟩)
        (⟨p.book, (words :: verses) :: chapters⟩ :: books) =
      ⟨p.book, ([w] :: words :: verses) :: chapters⟩ :: books := by
  simp [prepend]

theorem prepend_nextChapter :
    prepend ⟨p, w⟩ (some ⟨p.book, p.chapter + 1, 1⟩) (⟨p.book, verses :: chapters⟩ :: books) =
      ⟨p.book, [[w]] :: verses :: chapters⟩ :: books := by
  simp [prepend]

theorem prepend_newBook {next : Option Place} (h : ∀ q ∈ next, q.book ≠ p.book) :
    prepend ⟨p, w⟩ next books = ⟨p.book, [[[w]]]⟩ :: books := by
  cases next with
  | none => rfl
  | some q =>
    cases books with
    | nil => rfl
    | cons b books => simp [prepend, h q rfl]

end Corpus

/-- Grouped books that begin with the verse at a place; of their books only the first may be one of
earlier places. -/
structure Opens (earlier : List Place) (p : Place) (books : List (Book Text)) : Prop where
  grouped : Grouped books
  first : ∃ w words verses chapters more,
    books = ⟨p.book, ((w :: words) :: verses) :: chapters⟩ :: more
  apart : ∀ q ∈ earlier, q.book ∈ books.map (·.name) → q.book = p.book

theorem Opens.prepend {w : LocatedWord} {earlier : List Place} {p : Place} {books : List (Book Text)}
    (h : Opens (w.place :: earlier) p books) (hp : Continues (w.place :: earlier) p) :
    Opens earlier w.place (Corpus.prepend w (some p) books) ∧
      locateBooks w.place.chapter w.place.verse (Corpus.prepend w (some p) books) =
        w :: locateBooks p.chapter p.verse books := by
  obtain ⟨grouped, ⟨x, words, verses, chapters, more, rfl⟩, apart⟩ := h
  obtain ⟨place, word⟩ := w
  have hearlier := fun q hq => apart q (List.mem_cons_of_mem _ hq)
  cases hp with
  | sameVerse =>
    rw [Corpus.prepend_sameVerse]
    exact ⟨⟨.word grouped, ⟨_, _, _, _, _, rfl⟩, hearlier⟩, rfl⟩
  | nextVerse =>
    rw [Corpus.prepend_nextVerse]
    exact ⟨⟨.verse grouped, ⟨_, _, _, _, _, rfl⟩, hearlier⟩, rfl⟩
  | nextChapter =>
    rw [Corpus.prepend_nextChapter]
    exact ⟨⟨.chapter grouped, ⟨_, _, _, _, _, rfl⟩, hearlier⟩, rfl⟩
  | newBook hnew =>
    -- an earlier place in one of the books would lie in the first one, which is new
    have hfresh : ∀ q ∈ place :: earlier, q.book ∉ _ := fun q hq hmem => hnew q hq (apart q hq hmem)
    rw [Corpus.prepend_newBook _ _ _ fun q hq => ?_]
    · refine ⟨⟨.book grouped (hfresh _ (by simp)), ⟨_, _, _, _, _, rfl⟩, fun q hq hmem => ?_⟩, rfl⟩
      exact (List.mem_cons.mp hmem).resolve_right (hfresh q (List.mem_cons_of_mem _ hq))
    · obtain rfl := Option.some.inj hq
      exact (hnew place (by simp)).symm

-- By induction on the words that are left: the books so far open at the place after them.
theorem located_prependAll {words : List LocatedWord} {p : Place} {books : List (Book Text)}
    (h : Opens (words.map (·.place)) p books) (hp : Continues (words.map (·.place)) p)
    (hwords : Contiguous (words.map (·.place))) :
    Grouped (Corpus.prependAll (some p) books words) ∧
      locateBooks 1 1 (Corpus.prependAll (some p) books words) =
        words.reverse ++ locateBooks p.chapter p.verse books := by
  induction words generalizing p books with
  | nil =>
    cases hp with
    | newBook => exact ⟨h.grouped, rfl⟩
  | cons w words ih =>
    cases hwords with
    | cons hwords hw =>
      obtain ⟨hopens, hlocated⟩ := h.prepend hp
      obtain ⟨hgrouped, hall⟩ := ih hopens hw hwords
      refine ⟨hgrouped, ?_⟩
      rw [Corpus.prependAll, hall, hlocated, List.reverse_cons, List.append_assoc]
      rfl

namespace Corpus

theorem ofLocated_spec {words : List LocatedWord} (h : Contiguous (words.map (·.place))) :
    Grouped (ofLocated words).books ∧ (ofLocated words).located = words.reverse := by
  rw [located_eq]
  cases words with
  | nil => exact ⟨.nil, rfl⟩
  | cons w words =>
    cases h with
    | cons hwords hw =>
      have hopens : Opens (words.map (·.place)) w.place [⟨w.place.book, [[[w.word]]]⟩] :=
        ⟨.book .nil (by simp), ⟨_, _, _, _, _, rfl⟩, by simp⟩
      have := located_prependAll hopens hw hwords
      rw [List.reverse_cons]
      exact this

end Corpus

/-! ## Listed words -/

theorem apart_cons {p : Place} {earlier : List Place} {names : List Text} (hp : p.book ∉ names)
    (hearlier : ∀ name ∈ names, ∀ q ∈ earlier, q.book ≠ name) :
    ∀ name ∈ names, ∀ q ∈ p :: earlier, q.book ≠ name := fun name hname =>
  List.forall_mem_cons.mpr ⟨(ne_of_mem_of_not_mem hname hp).symm, hearlier name hname⟩

theorem Corpus.prependAll_concat (next : Option Place) (books : List (Book Text))
    (words : List LocatedWord) (w : LocatedWord) :
    prependAll next books (words ++ [w]) =
      prepend w ((words.getLast?.map (·.place)).or next) (prependAll next books words) := by
  induction words generalizing next books with
  | nil => rfl
  | cons v words ih =>
    rw [List.cons_append, prependAll, ih, prependAll, List.getLast?_cons]
    cases words.getLast? <;> rfl

theorem Corpus.ofLocated_concat (w : LocatedWord) (words : List LocatedWord) :
    (ofLocated (w :: words).reverse).books =
      prepend w (words.head?.map (·.place)) (ofLocated words.reverse).books := by
  rw [ofLocated, List.reverse_cons, prependAll_concat, List.getLast?_reverse, Option.or_none]
  rfl

namespace Grouped

variable {books : List (Book Text)}

theorem ofLocated_cons {b : Book Text} (h : Grouped (b :: books)) {chapter verse : ℕ}
    (ih : (Corpus.ofLocated (locateBooks chapter verse (b :: books)).reverse).books = b :: books)
    (w : LocatedWord) :
    (Corpus.ofLocated (w :: locateBooks chapter verse (b :: books)).reverse).books =
      Corpus.prepend w (some ⟨b.name, chapter, verse⟩) (b :: books) := by
  obtain ⟨first, rest, hlist⟩ := h.locateBooks_head chapter verse
  rw [Corpus.ofLocated_concat, ih, hlist]
  rfl

theorem ofLocated_located (h : Grouped books) (chapter verse : ℕ) :
    (Corpus.ofLocated (locateBooks chapter verse books).reverse).books = books := by
  induction h generalizing chapter verse with
  | nil => rfl
  | @word name w w' words verses chapters books h ih =>
    have := h.ofLocated_cons (ih chapter verse) ⟨⟨name, chapter, verse⟩, w⟩
    exact this.trans (Corpus.prepend_sameVerse ⟨name, chapter, verse⟩ w _ verses chapters books)
  | @verse name w words verses chapters books h ih =>
    have := h.ofLocated_cons (ih chapter (verse + 1)) ⟨⟨name, chapter, verse⟩, w⟩
    exact this.trans (Corpus.prepend_nextVerse ⟨name, chapter, verse⟩ w words verses chapters books)
  | @chapter name w verses chapters books h ih =>
    have := h.ofLocated_cons (ih (chapter + 1) 1) ⟨⟨name, chapter, verse⟩, w⟩
    exact this.trans (Corpus.prepend_nextChapter ⟨name, chapter, verse⟩ w verses chapters books)
  | @book name w books h new ih =>
    cases books with
    | nil => rfl
    | cons b books =>
      have := h.ofLocated_cons (ih 1 1) ⟨⟨name, chapter, verse⟩, w⟩
      refine this.trans (Corpus.prepend_newBook ⟨name, chapter, verse⟩ w _ fun q hq => ?_)
      obtain rfl := Option.some.inj hq
      exact fun heq => new (List.mem_map.mpr ⟨b, by simp, heq⟩)

/-- The listed words of grouped books go on where contiguous places end, if the first of them does
and no later book has an earlier place. -/
theorem contiguous_located (h : Grouped books) (chapter verse : ℕ) {earlier : List Place}
    (hearlier : Contiguous earlier)
    (hnext : ∀ name ∈ (books.map (·.name)).head?, Continues earlier ⟨name, chapter, verse⟩)
    (hnew : ∀ name ∈ (books.map (·.name)).tail, ∀ q ∈ earlier, q.book ≠ name) :
    Contiguous ((locateBooks chapter verse books).reverse.map (·.place) ++ earlier) := by
  induction h generalizing chapter verse earlier with
  | nil => exact hearlier
  | @word name w w' words verses chapters books h ih =>
    have hplace := Contiguous.cons hearlier (hnext name rfl)
    have := ih chapter verse hplace
      (fun _ heq => Option.some.inj heq ▸ .sameVerse ⟨name, chapter, verse⟩ _)
      (apart_cons (List.nodup_cons.mp h.nodup).1 hnew)
    simpa [locateBooks, locateChapters, locateVerses] using this
  | @verse name w words verses chapters books h ih =>
    have hplace := Contiguous.cons hearlier (hnext name rfl)
    have := ih chapter (verse + 1) hplace
      (fun _ heq => Option.some.inj heq ▸ .nextVerse ⟨name, chapter, verse⟩ _)
      (apart_cons (List.nodup_cons.mp h.nodup).1 hnew)
    simpa [locateBooks, locateChapters, locateVerses] using this
  | @chapter name w verses chapters books h ih =>
    have hplace := Contiguous.cons hearlier (hnext name rfl)
    have := ih (chapter + 1) 1 hplace
      (fun _ heq => Option.some.inj heq ▸ .nextChapter ⟨name, chapter, verse⟩ _)
      (apart_cons (List.nodup_cons.mp h.nodup).1 hnew)
    simpa [locateBooks, locateChapters, locateVerses] using this
  | @book name w books h new ih =>
    have hplace := Contiguous.cons hearlier (hnext name rfl)
    have hapart := apart_cons (p := ⟨name, chapter, verse⟩) new hnew
    have := ih 1 1 hplace (fun other heq => .newBook (hapart other (List.mem_of_head? heq)))
      (fun other hmem => hapart other (List.mem_of_mem_tail hmem))
    simpa [locateBooks, locateChapters, locateVerses] using this

end Grouped

end VerseSearch
