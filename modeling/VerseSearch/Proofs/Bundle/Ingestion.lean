import Mathlib.Control.Monad.Basic
import Mathlib.Data.Nat.Notation
import VerseSearch.Lexicon.Table
import VerseSearch.Proofs.Corpus.Rereading
import VerseSearch.Proofs.Lexicon.Entries
import VerseSearch.Proofs.Wire.WordBytes

/-! # What reading establishes

A corpus that was read from lines and a lexicon that was read from a table hold only what has a
byte form.

* `Corpus.Encodable`: a corpus all of whose words are encodable; `Corpus.encodable_iff`,
  `Corpus.encodable_of_read`.
* `Entry.Ingested`: a sentinel, or a known category with a word and the searchable form of it.
* `Lexicon.Ingested`: a table of ingested entries in which places are numbers;
  `Lexicon.ingested_of_ofLines`.
-/

namespace VerseSearch
set_option autoImplicit false

/-! ## Corpora -/

namespace Corpus

/-- The words of books in order. -/
def wordsOf {ν : Type} (books : List (Book ν)) : List TaggedWord :=
  books.flatMap fun b => b.chapters.flatten.flatten

/-- Every word of the corpus is encodable. -/
def Encodable {ν : Type} (c : Corpus ν) : Prop := ∀ w ∈ wordsOf c.books, w.Encodable .hebrew

theorem encodable_iff {ν : Type} {c : Corpus ν} : c.Encodable ↔
    ∀ b ∈ c.books, ∀ ch ∈ b.chapters, ∀ v ∈ ch, ∀ w ∈ v, w.Encodable .hebrew := by
  constructor
  · intro h b hb ch hch v hv w hw
    refine h w (List.mem_flatMap.mpr ⟨b, hb, ?_⟩)
    exact List.mem_flatten_of_mem (List.mem_flatten_of_mem hch hv) hw
  · intro h w hw
    obtain ⟨b, hb, hw⟩ := List.mem_flatMap.mp hw
    obtain ⟨v, hv, hw⟩ := List.mem_flatten.mp hw
    obtain ⟨ch, hch, hv⟩ := List.mem_flatten.mp hv
    exact h b hb ch hch v hv w hw

@[simp] theorem encodable_mapNames {ν μ : Type} (f : ν → μ) (c : Corpus ν) :
    (c.mapNames f).Encodable ↔ c.Encodable := by
  rw [Encodable, Encodable, mapNames, wordsOf, wordsOf, List.flatMap_map]

end Corpus

@[simp] theorem map_word_locateVerses (book : Text) (chapter verse : ℕ) (verses : List Verse) :
    (locateVerses book chapter verse verses).map (·.word) = verses.flatten := by
  induction verses generalizing verse with
  | nil => rfl
  | cons words verses ih => simp [locateVerses, ih, Function.comp_def]

@[simp] theorem map_word_locateChapters (book : Text) (chapter verse : ℕ) (chapters : List Chapter) :
    (locateChapters book chapter verse chapters).map (·.word) = chapters.flatten.flatten := by
  induction chapters generalizing chapter verse with
  | nil => rfl
  | cons verses chapters ih => simp [locateChapters, ih]

@[simp] theorem map_word_locateBooks (chapter verse : ℕ) (books : List (Book Text)) :
    (locateBooks chapter verse books).map (·.word) = Corpus.wordsOf books := by
  induction books generalizing chapter verse with
  | nil => rfl
  | cons b books ih => simp [locateBooks, ih, Corpus.wordsOf]

theorem LocatedWord.Readable.encodable {w : LocatedWord} (h : w.Readable) :
    w.word.Encodable .hebrew := by
  obtain ⟨hne, hsymbols⟩ := Corpus.Row.readWord_spec h.word
  obtain ⟨hnonneg, hle⟩ := Corpus.Row.readTag_spec h.tag
  exact ⟨hne, hsymbols, hnonneg, Int.lt_of_le_of_lt hle (by decide)⟩

theorem Corpus.encodable_of_read [Pattern.CharNames] {bookFilter : Option Text} {lines : List Text}
    {c : Corpus Text} (h : read bookFilter lines = .ok c) : c.Encodable := by
  intro w hw
  rw [← map_word_locateBooks 1 1, ← located_eq] at hw
  obtain ⟨located, hlocated, rfl⟩ := List.mem_map.mp hw
  exact ((read_spec h).2 located hlocated).encodable

/-! ## Lexicons -/

/-- An entry that reading a table makes: the one of a number without word, or a known category with
a word of symbols and the searchable form of that word. -/
inductive Entry.Ingested : Entry → Prop
  | sentinel (tag : ℕ) : Ingested (.sentinel tag)
  | word {e : Entry} (known : e.category ∈ Category.known) (word_ne_nil : e.word ≠ [])
      (contains : ∀ c ∈ e.word, Alphabet.hebrew.contains c = true)
      (searchable : Hebrew.searchable e.word = .ok e.searchable) : Ingested e

namespace Lexicon

/-- A table of ingested entries in which the entry at each place has the place as its number. -/
def Ingested (l : Lexicon) : Prop :=
  ∀ (n : ℕ) (e : Entry), l.entries[n]? = some e → e.tag = n ∧ e.Ingested

theorem Table.entryOf_ingested {number : ℕ} {line word category digits : Text} {e : Entry}
    (h : Table.entryOf number line word category digits = .ok e) : e.Ingested := by
  rw [Table.entryOf] at h
  cases hcat : Category.ofKnownName? category with
  | none => rw [hcat] at h; cases h
  | some known =>
    rw [hcat] at h
    cases hd : Text.readNat digits with
    | error failure => rw [hd] at h; cases failure <;> cases h
    | ok tag =>
      simp only [hd] at h
      split at h
      · cases h
      · cases hn : Hebrew.normalize word with
        | error failure => rw [hn] at h; cases h
        | ok normalized =>
          simp only [hn] at h
          split at h
          · cases h
          · next hne =>
            cases hs : Hebrew.searchable normalized with
            | error failure => rw [hs] at h; cases h
            | ok searchable =>
              rw [hs] at h
              obtain rfl := Except.ok.inj h
              exact .word (List.mem_of_find?_eq_some hcat) (by simpa using hne)
                (Hebrew.contains_of_normalize hn) hs

theorem Table.readLines_ingested {number : ℕ} {done : List Entry} {lines : List Text}
    {es : List Entry} (hdone : ∀ e ∈ done, e.Ingested)
    (h : Table.readLines number done lines = .ok es) : ∀ e ∈ es, e.Ingested := by
  induction lines generalizing number done with
  | nil =>
    obtain rfl := Except.ok.inj h
    simpa using hdone
  | cons line rest ih =>
    rw [Table.readLines] at h
    cases hl : Table.readLine number (Text.dropLineEnd line) with
    | error failure => rw [hl] at h; cases h
    | ok found =>
      rw [hl] at h
      cases found with
      | none => exact ih hdone h
      | some entry =>
        refine ih (List.forall_mem_cons.mpr ⟨?_, hdone⟩) h
        rw [Table.readLine] at hl
        cases hr : Table.readRow (Text.dropLineEnd line) with
        | none => rw [hr] at hl; cases hl
        | some row =>
          rw [hr] at hl
          obtain ⟨e, he, heq⟩ := ok_of_map hl
          obtain rfl := Option.some.inj heq
          exact Table.entryOf_ingested he

/-- Gaps are filled and of entries with one number one is kept, so places are numbers. -/
theorem ofEntries_ingested {es : List Entry} (h : ∀ e ∈ es, e.Ingested) :
    (ofEntries es).Ingested := by
  intro n e he
  obtain ⟨htag, hmem | rfl⟩ := getElem?_ofEntries_spec he
  · exact ⟨htag, h e hmem⟩
  · exact ⟨rfl, .sentinel n⟩

theorem ingested_of_ofLines {lines : List Text} {l : Lexicon} (h : ofLines lines = .ok l) :
    l.Ingested := by
  obtain ⟨es, hes, rfl⟩ := ok_of_map h
  exact ofEntries_ingested (Table.readLines_ingested (by simp) hes)

end Lexicon

end VerseSearch
