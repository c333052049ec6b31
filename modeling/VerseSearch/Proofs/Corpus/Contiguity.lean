import VerseSearch.Proofs.Corpus.Rows

/-! # Contiguous rows

* `Continues`: the places that a row may have after the rows before it.
* `Contiguous`: places each of which continues the ones before it.
* `Progress.add_eq_ok_iff`: a row is added when it gives a word whose place continues the others.
* `Corpus.ofLines_eq_ok_iff`: lines make a corpus when their rows give words with contiguous places.
-/

namespace VerseSearch
set_option autoImplicit false

/-! ## Places in order -/

/-- What place may come after earlier ones, the last of which comes first: the same verse, the next
verse of the chapter, the first verse of the next chapter, or the beginning of a new book. -/
inductive Continues : List Place → Place → Prop
  | sameVerse (p : Place) (earlier : List Place) : Continues (p :: earlier) p
  | nextVerse (p : Place) (earlier : List Place) :
      Continues (p :: earlier) ⟨p.book, p.chapter, p.verse + 1⟩
  | nextChapter (p : Place) (earlier : List Place) :
      Continues (p :: earlier) ⟨p.book, p.chapter + 1, 1⟩
  | newBook {earlier : List Place} {book : Text} (h : ∀ p ∈ earlier, p.book ≠ book) :
      Continues earlier ⟨book, 1, 1⟩

/-- Places each of which continues the earlier ones; the last one comes first. -/
inductive Contiguous : List Place → Prop
  | nil : Contiguous []
  | cons {earlier : List Place} {p : Place} (before : Contiguous earlier)
      (last : Continues earlier p) : Contiguous (p :: earlier)

theorem Contiguous.of_append {later earlier : List Place} (h : Contiguous (later ++ earlier)) :
    Contiguous earlier := by
  induction later with
  | nil => exact h
  | cons p later ih =>
    cases h with
    | cons before _ => exact ih before

/-! ## One row -/

namespace Progress

def places (p : Progress) : List Place := p.words.map (·.place)

theorem hasBook_eq_false_iff {p : Progress} {book : Text} :
    p.hasBook book = false ↔ ∀ q ∈ p.places, q.book ≠ book := by
  simp [hasBook, places]

@[simp] theorem enterChapter_eq_ok_iff {number chapter verse next : ℕ} :
    enterChapter number chapter verse = .ok next ↔
      number = chapter ∧ next = verse ∨ number = chapter + 1 ∧ next = 0 := by
  unfold enterChapter
  split
  · rw [Except.ok.injEq]
    omega
  · split
    · rw [Except.ok.injEq]
      omega
    · simp only [reduceCtorEq, false_iff]
      omega

@[simp] theorem checkVerse_eq_ok_iff {number verse : ℕ} :
    checkVerse number verse = .ok () ↔ number = verse ∨ number = verse + 1 := by
  rw [checkVerse]
  split <;> simp [*]

theorem reached_eq_ok_iff {p : Progress} {book name : Text} {numbers : ℕ × ℕ} :
    p.reached book name = .ok numbers ↔
      (∃ q earlier, p.places = q :: earlier ∧ q.book = book ∧ numbers = (q.chapter, q.verse)) ∨
      (∀ q ∈ p.places, q.book ≠ book) ∧ numbers = (0, 0) := by
  rw [reached, places]
  cases hwords : p.words with
  | nil => simp [eq_comm]
  | cons w earlier =>
    by_cases hw : w.place.book = book
    · simp [hw, eq_comm]
    · have hnew : p.hasBook book = false ↔ ∀ q ∈ p.places, q.book ≠ book := hasBook_eq_false_iff
      rw [places, hwords] at hnew
      rw [← hnew]
      simp only [if_neg hw]
      cases hbook : p.hasBook book <;> grind

/-- What the three checks of a place admit together, when its numbers are positive. -/
theorem checks_iff {p : Progress} {book : Text} (name : Text) {chapter verse : ℕ}
    (hchapter : 0 < chapter) (hverse : 0 < verse) :
    (∃ numbers next, p.reached book name = .ok numbers ∧
      enterChapter chapter numbers.1 numbers.2 = .ok next ∧ checkVerse verse next = .ok ()) ↔
    Continues p.places ⟨book, chapter, verse⟩ := by
  simp only [reached_eq_ok_iff, enterChapter_eq_ok_iff, checkVerse_eq_ok_iff]
  constructor
  · rintro ⟨numbers, next, ⟨q, earlier, hplaces, rfl, rfl⟩ | ⟨hnew, rfl⟩, hnext, hcheck⟩
    · rw [hplaces]
      obtain ⟨rfl, rfl⟩ | ⟨rfl, rfl⟩ := hnext
      · obtain rfl | rfl := hcheck
        · exact .sameVerse q earlier
        · exact .nextVerse q earlier
      · obtain rfl : verse = 1 := by omega
        exact .nextChapter q earlier
    · obtain rfl : chapter = 1 := by omega
      obtain rfl : verse = 1 := by omega
      exact .newBook hnew
  · generalize p.places = places
    intro h
    cases h with
    | sameVerse _ earlier =>
      exact ⟨_, _, .inl ⟨_, earlier, rfl, rfl, rfl⟩, .inl ⟨rfl, rfl⟩, .inl rfl⟩
    | nextVerse q earlier =>
      exact ⟨_, _, .inl ⟨q, earlier, rfl, rfl, rfl⟩, .inl ⟨rfl, rfl⟩, .inr rfl⟩
    | nextChapter q earlier =>
      exact ⟨_, _, .inl ⟨q, earlier, rfl, rfl, rfl⟩, .inr ⟨rfl, rfl⟩, .inr rfl⟩
    | newBook hnew => exact ⟨_, _, .inr ⟨hnew, rfl⟩, .inr ⟨rfl, rfl⟩, .inr rfl⟩

theorem add_eq_ok_iff {p q : Progress} {row : Corpus.Row} : p.add row = .ok q ↔
    ∃ w, row.Gives w ∧ Continues p.places w.place ∧ q = ⟨w :: p.words⟩ := by
  rw [add]
  constructor
  · intro h
    cases hbook : BookName.hebrew? row.book with
    | none => rw [hbook] at h; cases h
    | some book =>
      simp only [hbook, bind_eq_ok_iff] at h
      obtain ⟨numbers, hnumbers, chapter, hchapter, next, hnext, verse, hverse, _, hcheck, word,
        hword, tag, htag, h⟩ := h
      have hplace : Continues p.places ⟨book, chapter, verse⟩ :=
        (checks_iff row.book (Corpus.Row.readSequence_spec hchapter).1
          (Corpus.Row.readSequence_spec hverse).1).mp ⟨numbers, next, hnumbers, hnext, hcheck⟩
      exact ⟨⟨⟨book, chapter, verse⟩, ⟨word, tag⟩⟩, ⟨hbook, hchapter, hverse, hword, htag⟩, hplace,
        (Except.ok.inj h).symm⟩
  · rintro ⟨w, ⟨hbook, hchapter, hverse, hword, htag⟩, hplace, rfl⟩
    obtain ⟨numbers, next, hnumbers, hnext, hcheck⟩ := (checks_iff row.book
      (Corpus.Row.readSequence_spec hchapter).1 (Corpus.Row.readSequence_spec hverse).1).mpr hplace
    simp only [hbook, bind_eq_ok_iff]
    exact ⟨numbers, hnumbers, _, hchapter, next, hnext, _, hverse, _, hcheck, _, hword, _, htag, rfl⟩

theorem addLine_of_isSkipped {p : Progress} {line : Text} (h : Corpus.Row.isSkipped line = true) :
    p.addLine line = .ok p := by
  rw [addLine, if_pos h]

theorem addLine_eq_ok_iff {p q : Progress} {line : Text} (h : Corpus.Row.isSkipped line = false) :
    p.addLine line = .ok q ↔
      ∃ w, LineGives line w ∧ Continues p.places w.place ∧ q = ⟨w :: p.words⟩ := by
  rw [addLine, if_neg (by simp [h])]
  cases hrow : Corpus.Row.ofLine line with
  | error e => simp [LineGives, hrow]
  | ok row => simp only [LineGives, hrow, add_eq_ok_iff, Except.ok.injEq, exists_eq_left']

/-! ## All rows -/

theorem addLines_eq_ok_iff {p q : Progress} {number : ℕ} {lines : List Text}
    (hp : Contiguous p.places) : p.addLines number lines = .ok q ↔
      ∃ ws, List.Forall₂ LineGives (contentLines lines) ws ∧ Contiguous q.places ∧
        q.words = ws.reverse ++ p.words := by
  induction lines generalizing p number with
  | nil =>
    rw [addLines, Except.ok.injEq]
    constructor
    · rintro rfl
      exact ⟨[], .nil, hp, rfl⟩
    · rintro ⟨ws, hgives, -, hwords⟩
      cases hgives
      cases q
      cases p
      simpa using hwords.symm
  | cons line rest ih =>
    rw [addLines]
    cases hskipped : Corpus.Row.isSkipped (Text.dropLineEnd line) with
    | true =>
      rw [addLine_of_isSkipped hskipped, contentLines_cons_of_isSkipped rest hskipped]
      exact ih hp
    | false =>
      rw [contentLines_cons rest hskipped]
      constructor
      · intro h
        cases hadd : p.addLine (Text.dropLineEnd line) with
        | error e => rw [hadd] at h; cases h
        | ok next =>
          rw [hadd] at h
          obtain ⟨w, hw, hplace, rfl⟩ := (addLine_eq_ok_iff hskipped).mp hadd
          obtain ⟨ws, hgives, hcontiguous, hwords⟩ := (ih (p := ⟨w :: p.words⟩) (.cons hp hplace)).mp h
          exact ⟨w :: ws, .cons hw hgives, hcontiguous, by simpa using hwords⟩
      · rintro ⟨_, hgives, hcontiguous, hwords⟩
        cases hgives with
        | @cons _ w _ ws hw hgives =>
          have hsplit : q.places = ws.reverse.map (·.place) ++ (w.place :: p.places) := by
            simp [places, hwords]
          -- the words after this one are added to words that are contiguous with it
          cases (hsplit ▸ hcontiguous).of_append with
          | cons _ hplace =>
            rw [(addLine_eq_ok_iff hskipped).mpr ⟨w, hw, hplace, rfl⟩]
            exact (ih (p := ⟨w :: p.words⟩) (.cons hp hplace)).mpr
              ⟨ws, hgives, hcontiguous, by simpa using hwords⟩

end Progress

theorem Corpus.ofLines_eq_ok_iff {lines : List Text} {c : Corpus Text} : ofLines lines = .ok c ↔
    ∃ ws, List.Forall₂ LineGives (contentLines lines) ws ∧
      Contiguous (ws.reverse.map (·.place)) ∧ c = ofLocated ws.reverse := by
  rw [ofLines]
  constructor
  · intro h
    obtain ⟨p, hp, rfl⟩ := ok_of_map h
    obtain ⟨ws, hgives, hcontiguous, hwords⟩ := (Progress.addLines_eq_ok_iff (p := {}) .nil).mp hp
    rw [List.append_nil] at hwords
    exact ⟨ws, hgives, by rwa [Progress.places, hwords] at hcontiguous, by rw [hwords]⟩
  · rintro ⟨ws, hgives, hcontiguous, rfl⟩
    rw [(Progress.addLines_eq_ok_iff (p := {}) (q := ⟨ws.reverse⟩) .nil).mpr
      ⟨ws, hgives, hcontiguous, (List.append_nil _).symm⟩]
    rfl

end VerseSearch
