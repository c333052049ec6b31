import VerseSearch.Proofs.Bundle.Ingestion
import VerseSearch.Proofs.Hebrew.Composition
import VerseSearch.Proofs.Lexicon.Rejection

/-! # Words without letters

Reading asks only that something is left of a word when the word is normalized, and what is left may be
marks alone. Such words have an empty searchable form, and no others that are read have one.

* `Hebrew.OnlyMarks`: a text of symbols that are no letters.
* `Hebrew.form_eq_nil_iff`: of normalized words, these are the ones without searchable form.
* `Corpus.Row.readWord_of_onlyMarks`, `Corpus.Row.form_readWord_eq_nil_iff`: they are read in a corpus, and
  the field tells which they are.
* `Lexicon.Table.gives_of_onlyMarks`: they are read in a table.
* `letterless_words`: the words without letters in a corpus and in a lexicon.
-/

namespace VerseSearch
set_option autoImplicit false

namespace Hebrew

/-! ## Marks -/

/-- Symbols that are no letters, and at least one: separators, points, accents and joiners. -/
def OnlyMarks (t : Text) : Prop := t ≠ [] ∧ ∀ c ∈ t, c = separator ∨ isNonLetter c = true

theorem isLetter_eq_false_iff {c : Char} (h : Alphabet.hebrew.contains c = true) :
    isLetter c = false ↔ c = separator ∨ isNonLetter c = true := by
  have hall : ∀ c ∈ Alphabet.hebrewSymbols, isLetter c = false ↔ c = separator ∨ isNonLetter c = true := by
    decide +kernel
  exact hall c (by simpa [Alphabet.contains, Alphabet.hebrew] using h)

theorem contains_of_onlyMarks {t : Text} (h : OnlyMarks t) :
    ∀ c ∈ t, Alphabet.hebrew.contains c = true := by
  have hmarks : ∀ c ∈ nonLetters, Alphabet.hebrew.contains c = true := by decide +kernel
  intro c hc
  obtain rfl | hmark := h.2 c hc
  · decide
  · exact hmarks c (by simpa [isNonLetter] using hmark)

theorem form_ne_nil_iff (t : Text) :
    regularize (keepLetters t) ≠ [] ↔ ∃ c ∈ t, isLetter c = true := by
  rw [regularize, ne_eq, List.map_eq_nil_iff, keepLetters, List.filter_eq_nil_iff]
  simp

theorem form_eq_nil_iff {t : Text} (hne : t ≠ []) (ht : ∀ c ∈ t, Alphabet.hebrew.contains c = true) :
    regularize (keepLetters t) = [] ↔ OnlyMarks t := by
  rw [regularize, List.map_eq_nil_iff, keepLetters, List.filter_eq_nil_iff, OnlyMarks, and_iff_right hne]
  refine forall₂_congr fun c hc => ?_
  rw [← isLetter_eq_false_iff (ht c hc), Bool.not_eq_true]

/-- A text whose canonical form is only marks has this as its normalized form. -/
theorem normalize_of_onlyMarks {t : Text} (h : OnlyMarks (canonical t)) : normalize t = .ok (canonical t) :=
  normalize_eq_ok_iff.mpr ⟨rfl, contains_of_onlyMarks h⟩

/-! ## What is kept -/

theorem mem_cutVerseEnd {t : Text} {c : Char} (h : c ∈ t) (hc : isVerseEnd c = false) :
    c ∈ cutVerseEnd t := by
  obtain ⟨a, b, rfl, ha, hb⟩ := exists_verseEnd t
  have hmem : c ∈ a := (List.mem_append.mp h).resolve_right fun hmem => by
    rw [hb c hmem] at hc
    cases hc
  -- looking for the character finds it where nothing is cut
  have hfind := find?_cutVerseEnd (p := (· = c)) (fun d hd => decide_eq_false fun heq => by
    rw [← heq, hd] at hc
    cases hc) ha hb
  have hfound : ((a ++ b.takeWhile (· ≠ sofPasuq)).find? (· = c)).isSome := by
    rw [List.find?_isSome]
    exact ⟨c, List.mem_append_left _ hmem, decide_eq_true rfl⟩
  rw [← hfind, List.find?_isSome] at hfound
  obtain ⟨d, hd, heq⟩ := hfound
  exact of_decide_eq_true heq ▸ hd

theorem mem_canonical {t : Text} {c : Char} (h : c ∈ compose t) (hend : isVerseEnd c = false)
    (hmaqaf : c ≠ maqaf) : c ∈ canonical t :=
  mem_cutVerseEnd (List.mem_filter.mpr ⟨h, decide_eq_true hmaqaf⟩) hend

theorem compose_of_not_mem_bareShin {t : Text} (h : bareShin ∉ t) : compose t = t :=
  compose_of_isComposed fun before rest heq => absurd (heq ▸ by simp) h

@[simp] theorem canonical_compose (t : Text) : canonical (compose t) = canonical t := by
  rw [canonical, compose_of_isComposed (isComposed_compose t), canonical]

end Hebrew

/-! ## Fields -/

namespace Corpus.Row

variable {field word : Text}

/-- A field whose canonical form is only marks has no bare shin, so nothing is completed in it. -/
theorem readWord_of_onlyMarks (h : Hebrew.OnlyMarks (Hebrew.canonical field)) :
    readWord field = .ok (Hebrew.canonical field) := by
  have hbare : Hebrew.bareShin ∉ Hebrew.compose field := fun hmem =>
    Hebrew.not_mem_of_contains (Hebrew.contains_of_onlyMarks h) (by decide)
      (Hebrew.mem_canonical hmem (by decide) (by decide))
  refine readWord_eq_ok_iff.mpr ⟨h.1, Hebrew.compose field, ?_, ?_⟩
  · rw [completeShin]
    simp only [if_pos hbare]
  · rw [← Hebrew.canonical_compose] at h ⊢
    exact Hebrew.normalize_of_onlyMarks h

/-- A word that is read is the canonical form of its field, or it has a letter that the field lacks. -/
theorem readWord_cases (h : readWord field = .ok word) :
    word = Hebrew.canonical field ∨ Hebrew.shin ∈ word ∨ Hebrew.sin ∈ word := by
  obtain ⟨-, completed, hcompleted, hnormalize⟩ := readWord_eq_ok_iff.mp h
  obtain ⟨hcanonical, -⟩ := Hebrew.normalize_eq_ok_iff.mp hnormalize
  -- a letter in the place of the bare shins stands where they stood
  have hkept : ∀ letter ∈ [Hebrew.shin, Hebrew.sin], Hebrew.bareShin ∈ Hebrew.compose field →
      completed = (Hebrew.compose field).replaceChar Hebrew.bareShin letter → letter ∈ word := by
    intro letter hletter hmem heq
    have hbare : Hebrew.bareShin ∉ completed := by
      rw [heq, Text.replaceChar, List.mem_map]
      rintro ⟨c, -, hc⟩
      split at hc
      · subst hc
        revert hletter
        decide
      · next hne => exact hne hc
    have hin : letter ∈ completed := by
      rw [heq]
      exact List.mem_map.mpr ⟨_, hmem, if_pos rfl⟩
    have hspec : ∀ letter ∈ [Hebrew.shin, Hebrew.sin],
        Hebrew.isVerseEnd letter = false ∧ letter ≠ Hebrew.maqaf := by decide
    rw [← hcanonical]
    refine Hebrew.mem_canonical ?_ (hspec letter hletter).1 (hspec letter hletter).2
    rwa [Hebrew.compose_of_not_mem_bareShin hbare]
  unfold completeShin at hcompleted
  simp only at hcompleted
  split at hcompleted
  · obtain rfl := Except.ok.inj hcompleted
    exact .inl (by rw [← hcanonical, Hebrew.canonical_compose])
  · next hmem =>
    have hmem := Decidable.not_not.mp hmem
    split at hcompleted
    · exact .inr (.inr (hkept _ (by simp) hmem (Except.ok.inj hcompleted).symm))
    · split at hcompleted
      · exact .inr (.inl (hkept _ (by simp) hmem (Except.ok.inj hcompleted).symm))
      · cases hcompleted

theorem form_readWord_eq_nil_iff (h : readWord field = .ok word) :
    Hebrew.regularize (Hebrew.keepLetters word) = [] ↔ Hebrew.OnlyMarks (Hebrew.canonical field) := by
  obtain ⟨hne, hsymbols⟩ := readWord_spec h
  constructor
  · intro hform
    have hmarks := (Hebrew.form_eq_nil_iff hne hsymbols).mp hform
    have hletter : ∀ c ∈ word, Hebrew.isLetter c ≠ true := fun c hc hletter =>
      (Hebrew.form_ne_nil_iff word).mpr ⟨c, hc, hletter⟩ hform
    obtain rfl | hshin | hsin := readWord_cases h
    · exact hmarks
    · exact absurd (by decide) (hletter _ hshin)
    · exact absurd (by decide) (hletter _ hsin)
  · intro hmarks
    obtain rfl := Except.ok.inj (h.symm.trans (readWord_of_onlyMarks hmarks))
    exact (Hebrew.form_eq_nil_iff hne hsymbols).mpr hmarks

end Corpus.Row

/-! ## Corpora -/

/-- A word that is read from itself makes a corpus of its own. -/
theorem Corpus.read_single [Pattern.CharNames] {book : Text} {w : TaggedWord}
    (hbook : BookName.hebrew? (BookName.english book) = some book)
    (hword : Row.readWord w.word = .ok w.word) {tag : ℕ} (htag : w.tag = tag) (hle : (tag : ℤ) ≤ Row.maxTag) :
    read none [LocatedWord.line ⟨⟨book, 1, 1⟩, w⟩] = .ok ⟨[⟨book, [[[w]]]⟩]⟩ := by
  have hone := Row.readSequence_ofNat Nat.one_pos (Text.lt_of_lt_fiveDigits (by decide))
  have hreadable : LocatedWord.Readable ⟨⟨book, 1, 1⟩, w⟩ := {
    book := hbook
    chapter := by simpa only [LocatedWord.row] using hone _
    verse := by simpa only [LocatedWord.row] using hone _
    word := hword
    tag := by
      rw [LocatedWord.row, htag]
      exact Row.readTag_ofNat hle }
  have hlisting := ofLines_listing (c := ⟨[⟨book, [[[w]]]⟩]⟩) (.book .nil List.not_mem_nil) (by
    simpa [located] using hreadable)
  exact congrArg (Except.mapError ReadError.row) hlisting

/-! ## Lexicons -/

namespace Lexicon

variable {word category digits : Text}

theorem Table.Gives.form_eq_nil_iff {e : Entry} (h : Gives word category digits e) :
    e.searchable = [] ↔ Hebrew.OnlyMarks (Hebrew.canonical word) := by
  obtain ⟨hcanonical, hsymbols⟩ := Hebrew.normalize_eq_ok_iff.mp h.normalize
  rw [h.searchable, hcanonical]
  exact Hebrew.form_eq_nil_iff h.word_ne_nil hsymbols

theorem Table.gives_of_onlyMarks {known : Category} {tag : ℕ} (hnames : Names category known)
    (hnumbers : Numbers digits tag) (hle : tag ≤ maxTag) (hmarks : Hebrew.OnlyMarks (Hebrew.canonical word)) :
    Gives word category digits ⟨tag, Hebrew.canonical word, known, []⟩ where
  names := hnames
  numbers := hnumbers
  tag_le := hle
  normalize := Hebrew.normalize_of_onlyMarks hmarks
  word_ne_nil := hmarks.1
  searchable := ((Hebrew.form_eq_nil_iff hmarks.1 (Hebrew.contains_of_onlyMarks hmarks)).mpr hmarks).symm

/-- Each entry of a number that has a word is the one of a row among the lines. -/
theorem exists_row_of_ofLines [Pattern.CharNames] {lines : List Text} {l : Lexicon}
    (h : ofLines lines = .ok l) {e : Entry}
    (he : e ∈ l.entries) (hsentinel : e.isSentinel = false) :
    ∃ line ∈ lines, ∃ word category digits, Table.IsRow (Text.dropLineEnd line) word category digits ∧
      Table.Gives word category digits e := by
  obtain ⟨es, hes, rfl⟩ := ofLines_eq_ok_iff.mp h
  obtain hmem | heq := mem_of_mem_ofEntries he
  · exact hes.exists_row e hmem
  · rw [heq] at hsentinel
    cases hsentinel

end Lexicon

/-! ## Words without letters -/

/-- The words of a corpus and the fields that they are read from. -/
theorem Corpus.form_of_read [Pattern.CharNames] {bookFilter : Option Text} {lines : List Text}
    {c : Corpus Text}
    (h : Corpus.read bookFilter lines = .ok c) {w : TaggedWord} (hw : w ∈ Corpus.wordsOf c.books) :
    ∃ line ∈ contentLines lines, ∃ row, Corpus.Row.ofLine line = .ok row ∧
      Corpus.Row.readWord row.word = .ok w.word ∧ ∃ form, Hebrew.searchable w.word = .ok form ∧
        (form ≠ [] ↔ ∃ c ∈ w.word, Hebrew.isLetter c = true) ∧
        (form = [] ↔ Hebrew.OnlyMarks (Hebrew.canonical row.word)) := by
  rw [← map_word_locateBooks 1 1, ← Corpus.located_eq] at hw
  obtain ⟨located, hlocated, rfl⟩ := List.mem_map.mp hw
  obtain ⟨line, hline, row, hrow, hgives⟩ := (Corpus.located_of_read h).2 located hlocated
  obtain ⟨-, completed, -, hnormalize⟩ := Corpus.Row.readWord_eq_ok_iff.mp hgives.word
  exact ⟨line, hline, row, hrow, hgives.word, _,
    Hebrew.searchable_of_normalize (Hebrew.normalize_of_normalize hnormalize),
    Hebrew.form_ne_nil_iff _, Corpus.Row.form_readWord_eq_nil_iff hgives.word⟩

/-- The entries of a lexicon and the fields that they are read from. -/
theorem Lexicon.form_of_ofLines [Pattern.CharNames] {lines : List Text} {l : Lexicon}
    (h : Lexicon.ofLines lines = .ok l)
    {e : Entry} (he : e ∈ l.entries) (hsentinel : e.isSentinel = false) :
    ∃ line ∈ lines, ∃ word category digits,
      Lexicon.Table.IsRow (Text.dropLineEnd line) word category digits ∧
      Hebrew.normalize word = .ok e.word ∧ Hebrew.searchable e.word = .ok e.searchable ∧
        (e.searchable ≠ [] ↔ ∃ c ∈ e.word, Hebrew.isLetter c = true) ∧
        (e.searchable = [] ↔ Hebrew.OnlyMarks (Hebrew.canonical word)) := by
  obtain ⟨line, hline, word, category, digits, hrow, hgives⟩ := exists_row_of_ofLines h he hsentinel
  refine ⟨line, hline, word, category, digits, hrow, hgives.normalize, ?_, ?_, hgives.form_eq_nil_iff⟩
  · rw [hgives.searchable]
    exact Hebrew.searchable_of_normalize (Hebrew.normalize_of_normalize hgives.normalize)
  · rw [hgives.searchable]
    exact Hebrew.form_ne_nil_iff _

/-- A corpus of one word without letters. -/
theorem Corpus.read_of_onlyMarks [Pattern.CharNames] {field book : Text} {tag : ℕ}
    (hmarks : Hebrew.OnlyMarks (Hebrew.canonical field))
    (hbook : BookName.hebrew? (BookName.english book) = some book) (htag : tag ≤ 65535) :
    Corpus.read none [LocatedWord.line ⟨⟨book, 1, 1⟩, ⟨Hebrew.canonical field, tag⟩⟩] =
      .ok ⟨[⟨book, [[[⟨Hebrew.canonical field, tag⟩]]]⟩]⟩ := by
  have hnormalize := Hebrew.normalize_of_normalize (Hebrew.normalize_of_onlyMarks hmarks)
  have hcanonical := (Hebrew.normalize_eq_ok_iff.mp hnormalize).1
  have hword := Corpus.Row.readWord_of_onlyMarks (hcanonical.symm ▸ hmarks)
  rw [hcanonical] at hword
  exact Corpus.read_single hbook hword rfl (Int.ofNat_le.mpr htag)

/-- A word of a corpus or of a lexicon has a searchable form, and this is empty exactly if the word has
no letter, or the field that the word is read from has only marks as its canonical form. Each field of this
kind is read: in a corpus, and in a table after any lines that are read. -/
theorem letterless_words [Pattern.CharNames] (bookFilter : Option Text) (lines : List Text) :
    (∀ c, Corpus.read bookFilter lines = .ok c → ∀ w ∈ Corpus.wordsOf c.books,
      ∃ line ∈ contentLines lines, ∃ row, Corpus.Row.ofLine line = .ok row ∧
        Corpus.Row.readWord row.word = .ok w.word ∧ ∃ form, Hebrew.searchable w.word = .ok form ∧
          (form ≠ [] ↔ ∃ c ∈ w.word, Hebrew.isLetter c = true) ∧
          (form = [] ↔ Hebrew.OnlyMarks (Hebrew.canonical row.word))) ∧
    (∀ l, Lexicon.ofLines lines = .ok l → ∀ e ∈ l.entries, e.isSentinel = false →
      ∃ line ∈ lines, ∃ word category digits,
        Lexicon.Table.IsRow (Text.dropLineEnd line) word category digits ∧
        Hebrew.normalize word = .ok e.word ∧ Hebrew.searchable e.word = .ok e.searchable ∧
          (e.searchable ≠ [] ↔ ∃ c ∈ e.word, Hebrew.isLetter c = true) ∧
          (e.searchable = [] ↔ Hebrew.OnlyMarks (Hebrew.canonical word))) ∧
    (∀ field, Hebrew.OnlyMarks (Hebrew.canonical field) →
      Corpus.Row.readWord field = .ok (Hebrew.canonical field) ∧
      ∀ (book : Text) (tag : ℕ), BookName.hebrew? (BookName.english book) = some book → tag ≤ 65535 →
        Corpus.read none [LocatedWord.line ⟨⟨book, 1, 1⟩, ⟨Hebrew.canonical field, tag⟩⟩] =
          .ok ⟨[⟨book, [[[⟨Hebrew.canonical field, tag⟩]]]⟩]⟩) ∧
    ∀ es line word category digits known tag, Lexicon.Table.Reads lines es →
      Lexicon.Table.IsRow (Text.dropLineEnd line) word category digits →
      Lexicon.Table.Names category known → Lexicon.Table.Numbers digits tag → tag ≤ 65535 →
      Hebrew.OnlyMarks (Hebrew.canonical word) →
      ∃ l, Lexicon.ofLines (lines ++ [line]) = .ok l ∧
        l.get? tag = some ⟨tag, Hebrew.canonical word, known, []⟩ := by
  refine ⟨fun c hc w hw => Corpus.form_of_read hc hw,
    fun l hl e he hsentinel => Lexicon.form_of_ofLines hl he hsentinel,
    fun field hmarks => ⟨Corpus.Row.readWord_of_onlyMarks hmarks,
      fun book tag hbook htag => Corpus.read_of_onlyMarks hmarks hbook htag⟩, ?_⟩
  intro es line word category digits known tag hes hrow hnames hnumbers htag hmarks
  -- the row is the last of its number, so the entry of the number is the row's
  have hgives := Lexicon.Table.gives_of_onlyMarks hnames hnumbers htag hmarks
  have hlast : ∀ later ∈ ([] : List Entry), later.tag ≠ tag := nofun
  exact ⟨_, Lexicon.ofLines_of_reads (hes.append (.row hrow hgives .nil)),
    Lexicon.getElem?_ofEntries_of_last (e := ⟨tag, Hebrew.canonical word, known, []⟩) hlast⟩

/-- A point alone is read as a word, in a corpus and in a table. -/
theorem letterless_words_of_lone_point :
    let rows := ["| \u05b8 | א | Noun | [ 1 ](https://biblehub.com/hebrew/1.htm) |".toList]
    Hebrew.OnlyMarks (Hebrew.canonical ['\u05b8']) ∧
    Corpus.read none ["Genesis\t1\t1\t\u05b8\t1".toList] =
      .ok ⟨[⟨"בראשית".toList, [[[⟨['\u05b8'], 1⟩]]]⟩]⟩ ∧
    ∃ l, Lexicon.ofLines rows = .ok l ∧ l.get? 1 = some ⟨1, ['\u05b8'], .noun, []⟩ := by
  intro rows
  have hcanonical : Hebrew.canonical ['\u05b8'] = ['\u05b8'] := by decide +kernel
  have hmarks : Hebrew.OnlyMarks (Hebrew.canonical ['\u05b8']) := by
    rw [hcanonical]
    exact ⟨nofun, by decide⟩
  have hrow : Lexicon.Table.IsRow (Text.dropLineEnd (rows.head nofun)) ['\u05b8'] "Noun".toList ['1'] :=
    (Lexicon.Table.isRow_iff (by decide +kernel)).mpr (by decide +kernel)
  obtain ⟨-, -, hcorpus, htable⟩ := letterless_words none []
  refine ⟨hmarks, ?_, ?_⟩
  · have hline := (hcorpus _ hmarks).2 "בראשית".toList 1 (by decide +kernel) (by decide)
    rwa [hcanonical] at hline
  · have hread := htable [] _ _ _ _ .noun 1 .nil hrow ⟨by decide, by decide⟩ ⟨by decide, by decide⟩
      (by decide) hmarks
    rwa [hcanonical] at hread

end VerseSearch
