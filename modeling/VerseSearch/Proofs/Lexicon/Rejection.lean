import VerseSearch.Proofs.Lexicon.Rows

/-! # Tables that are not read

A table is read line by line, and the first row in which something is wrong ends the reading.

* `Table.IsRow`: the pattern of rows matches a line, and its groups hold a word, a category and digits.
* `Table.Gives`, `Table.Wrong`, `Table.Overlong`: the entry of a row, what is wrong with it, and digits
  that are too many to be converted.
* `Table.entryOf_outcome`: one of the three is the case, and reading the row says which.
* `Table.Reads`, `Table.Refuses`: lines that are read, with their entries, and a row that is refused.
* `Table.reads_or_refuses`: all lines are read, or some are read and the next one is refused.
* `Lexicon.ofLines_eq_ok_iff`: the lexicons that are read.
* `Lexicon.ofLines_outcome`: the lexicon of the lines, or the error of the first row that is refused.
-/

namespace VerseSearch.Lexicon
set_option autoImplicit false

namespace Table

/-! ## Rows -/

/-- The pattern of rows matches at the start of a line, and its three groups hold the word, the category
and the digits of the number. -/
def IsRow [Pattern.CharNames] (line word category digits : Text) : Prop :=
  ∃ p held, Pattern.parse rowSource = .ok p ∧ Pattern.heldAtStart p line = some held ∧
    held 1 = some word ∧ held 2 = some category ∧ held 3 = some digits

theorem isRow_iff [Pattern.CharNames] {line word category digits : Text}
    (hlast : line.getLast? ≠ some '\n') :
    IsRow line word category digits ↔ readRow line = some (word, category, digits) := by
  have hread := heldAtStart_rowNode hlast
  constructor
  · rintro ⟨p, held, hp, hheld, h₁, h₂, h₃⟩
    obtain rfl := Except.ok.inj (parse_rowSource.symm.trans hp)
    rw [hheld, Option.map_some, h₁, h₂, h₃] at hread
    obtain ⟨⟨w, c, d⟩, hrow, heq⟩ := Option.map_eq_some_iff.mp hread.symm
    simp only [Prod.mk.injEq, Option.some.injEq] at heq
    obtain ⟨rfl, rfl, rfl⟩ := heq
    exact hrow
  · intro hrow
    rw [hrow, Option.map_some] at hread
    obtain ⟨held, hheld, heq⟩ := Option.map_eq_some_iff.mp hread
    simp only [Prod.mk.injEq] at heq
    exact ⟨_, held, parse_rowSource, hheld, heq⟩

/-- The digits of a row are digits, and there is at least one. -/
theorem digits_of_readRow {line word category digits : Text}
    (h : readRow line = some (word, category, digits)) :
    digits ≠ [] ∧ ∀ c ∈ digits, Text.isDigit c = true := by
  rw [readRow_eq] at h
  obtain ⟨start, -, h⟩ := Option.bind_eq_some_iff.mp h
  obtain ⟨x, -, h⟩ := List.exists_of_findSome?_eq_some h
  obtain ⟨y, -, h⟩ := List.exists_of_findSome?_eq_some h
  obtain ⟨z, -, h⟩ := List.exists_of_findSome?_eq_some h
  obtain ⟨read, hlink, heq⟩ := Option.map_eq_some_iff.mp h
  obtain rfl : read = digits := (Prod.mk.inj (Prod.mk.inj heq).2).2
  rw [readLink_eq] at hlink
  obtain ⟨inner, -, hlink⟩ := Option.bind_eq_some_iff.mp hlink
  obtain ⟨⟨taken, rest⟩, htaken, hlink⟩ := Option.bind_eq_some_iff.mp hlink
  obtain ⟨_, -, hlink⟩ := Option.bind_eq_some_iff.mp hlink
  obtain ⟨_, -, hlink⟩ := Option.bind_eq_some_iff.mp hlink
  obtain ⟨_, -, hlink⟩ := Option.bind_eq_some_iff.mp hlink
  obtain rfl : taken = read := by
    split at hlink
    · exact Option.some.inj hlink
    · cases hlink
  rw [readDigits?_eq] at htaken
  split at htaken
  · cases htaken
  · next hne =>
    obtain ⟨rfl, -⟩ := Prod.mk.inj (Option.some.inj htaken)
    exact ⟨by simpa using hne, fun c => List.mem_takeWhile_imp⟩

/-! ## What a row says -/

/-- A known category and its name. -/
def Names (category : Text) (known : Category) : Prop := known ∈ Category.known ∧ known.toName = category

theorem ofKnownName?_eq_some_iff {category : Text} {known : Category} :
    Category.ofKnownName? category = some known ↔ Names category known := by
  constructor
  · intro h
    exact ⟨List.mem_of_find?_eq_some h, by simpa using List.find?_some h⟩
  · rintro ⟨hknown, rfl⟩
    exact Category.ofKnownName?_toName known hknown

/-- Digits that are not too many to be converted, and their number. -/
def Numbers (digits : Text) (tag : ℕ) : Prop :=
  digits.length ≤ Text.maxIntegerDigits ∧ Text.valueOf digits = tag

/-- The entry of a row in which nothing is wrong: its category is known, its number is not too great, and
something is left of its word when the word is normalized. -/
structure Gives (word category digits : Text) (e : Entry) : Prop where
  names : Names category e.category
  numbers : Numbers digits e.tag
  tag_le : e.tag ≤ maxTag
  normalize : Hebrew.normalize word = .ok e.word
  word_ne_nil : e.word ≠ []
  searchable : e.searchable = Hebrew.regularize (Hebrew.keepLetters e.word)

/-- What is wrong with a row: its category is not known; or it is, and the number is too great; or that is
not so either, and the word has a character that is no symbol, or nothing is left of it. -/
inductive Wrong (word category digits : Text) : Problem → Prop
  | unknownCategory (unknown : ∀ known, ¬ Names category known) :
      Wrong word category digits (.unknownCategory category)
  | tagOutOfRange {known : Category} {tag : ℕ} (names : Names category known)
      (numbers : Numbers digits tag) (large : maxTag < tag) :
      Wrong word category digits (.tagOutOfRange tag)
  | invalidCharacter {known : Category} {tag : ℕ} {e : Hebrew.InvalidCharacter}
      (names : Names category known) (numbers : Numbers digits tag) (tag_le : tag ≤ maxTag)
      (normalize : Hebrew.normalize word = .error e) :
      Wrong word category digits (.invalidCharacter e)
  | missingWord {known : Category} {tag : ℕ} (names : Names category known)
      (numbers : Numbers digits tag) (tag_le : tag ≤ maxTag)
      (normalize : Hebrew.normalize word = .ok []) :
      Wrong word category digits .missingWord

/-- The category of a row is known, and its digits are too many to be converted. -/
def Overlong (category digits : Text) : Prop :=
  (∃ known, Names category known) ∧ Text.maxIntegerDigits < digits.length

theorem entryOf_of_gives {word category digits : Text} {e : Entry} (h : Gives word category digits e)
    (hne : digits ≠ []) (hdigits : ∀ c ∈ digits, Text.isDigit c = true) (number : ℕ) (line : Text) :
    entryOf number line word category digits = .ok e := by
  have hform := Hebrew.searchable_of_normalize (Hebrew.normalize_of_normalize h.normalize)
  have hread : Text.readNat digits = .ok e.tag := by
    rw [Text.readNat_of_isDigit hne hdigits, if_pos h.numbers.1, h.numbers.2]
  simp only [entryOf, ofKnownName?_eq_some_iff.mpr h.names, hread, if_neg (Nat.not_lt.mpr h.tag_le),
    h.normalize, List.isEmpty_eq_false_iff.mpr h.word_ne_nil, Bool.false_eq_true, if_false, hform,
    ← h.searchable]

/-- A normalized word has a searchable form, so a row with such a word lacks nothing. -/
theorem entryOf_outcome (number : ℕ) (line word category : Text) {digits : Text} (hne : digits ≠ [])
    (hdigits : ∀ c ∈ digits, Text.isDigit c = true) :
    (∃ e, Gives word category digits e ∧ entryOf number line word category digits = .ok e) ∨
    (∃ problem, Wrong word category digits problem ∧
      entryOf number line word category digits = .error (.row ⟨number, line, problem⟩)) ∨
    Overlong category digits ∧
      entryOf number line word category digits = .error (.tagTooLong digits.length) := by
  unfold entryOf
  cases hcategory : Category.ofKnownName? category with
  | none =>
    refine .inr (.inl ⟨_, .unknownCategory fun known hknown => ?_, rfl⟩)
    rw [ofKnownName?_eq_some_iff.mpr hknown] at hcategory
    cases hcategory
  | some known =>
    have hnames := ofKnownName?_eq_some_iff.mp hcategory
    by_cases hshort : digits.length ≤ Text.maxIntegerDigits
    · have hnumbers : Numbers digits (Text.valueOf digits) := ⟨hshort, rfl⟩
      simp only [Text.readNat_of_isDigit hne hdigits, if_pos hshort]
      by_cases hlarge : maxTag < Text.valueOf digits
      · rw [if_pos hlarge]
        exact .inr (.inl ⟨_, .tagOutOfRange hnames hnumbers hlarge, rfl⟩)
      · have htag := Nat.le_of_not_lt hlarge
        rw [if_neg hlarge]
        cases hnormalize : Hebrew.normalize word with
        | error e => exact .inr (.inl ⟨_, .invalidCharacter hnames hnumbers htag hnormalize, rfl⟩)
        | ok normalized =>
          have hform := Hebrew.searchable_of_normalize (Hebrew.normalize_of_normalize hnormalize)
          cases normalized with
          | nil => exact .inr (.inl ⟨_, .missingWord hnames hnumbers htag hnormalize, rfl⟩)
          | cons c rest =>
            simp only [List.isEmpty_cons, Bool.false_eq_true, if_false, hform]
            exact .inl ⟨_, ⟨hnames, hnumbers, htag, hnormalize, by simp, rfl⟩, rfl⟩
    · rw [Text.readNat_of_isDigit hne hdigits, if_neg hshort]
      exact .inr (.inr ⟨⟨⟨known, hnames⟩, Nat.lt_of_not_le hshort⟩, rfl⟩)

/-! ## Lines -/

section
variable [Pattern.CharNames]

/-- Lines that are read, and the entries of the rows among them. A line that the pattern of rows does not
match has none. -/
inductive Reads : List Text → List Entry → Prop
  | nil : Reads [] []
  | row {line word category digits : Text} {lines : List Text} {e : Entry} {es : List Entry}
      (isRow : IsRow (Text.dropLineEnd line) word category digits) (gives : Gives word category digits e)
      (rest : Reads lines es) : Reads (line :: lines) (e :: es)
  | other {line : Text} {lines : List Text} {es : List Entry}
      (hline : ¬ MatchesRow (Text.dropLineEnd line)) (rest : Reads lines es) : Reads (line :: lines) es

/-- The error that a row ends the reading with, in the line with a given number. -/
inductive Refuses (number : ℕ) (line : Text) : Error → Prop
  | wrong {word category digits : Text} {problem : Problem} (isRow : IsRow line word category digits)
      (wrong : Wrong word category digits problem) : Refuses number line (.row ⟨number, line, problem⟩)
  | overlong {word category digits : Text} (isRow : IsRow line word category digits)
      (overlong : Overlong category digits) : Refuses number line (.tagTooLong digits.length)

theorem readLine_outcome (number : ℕ) {line : Text} (hlast : line.getLast? ≠ some '\n') :
    (¬ MatchesRow line ∧ readLine number line = .ok none) ∨
    (∃ word category digits e, IsRow line word category digits ∧ Gives word category digits e ∧
      readLine number line = .ok (some e)) ∨
    ∃ error, Refuses number line error ∧ readLine number line = .error error := by
  cases hrow : readRow line with
  | none => exact .inl ⟨(readRow_eq_none_iff hlast).mp hrow, by rw [readLine, hrow]⟩
  | some row =>
    obtain ⟨word, category, digits⟩ := row
    have hisRow := (isRow_iff hlast).mpr hrow
    have hread : readLine number line = (entryOf number line word category digits).map some := by
      rw [readLine, hrow]
    obtain ⟨hne, hdigits⟩ := digits_of_readRow hrow
    obtain ⟨e, hgives, he⟩ | ⟨problem, hwrong, he⟩ | ⟨hoverlong, he⟩ :=
      entryOf_outcome number line word category hne hdigits
    · exact .inr (.inl ⟨word, category, digits, e, hisRow, hgives, by rw [hread, he]; rfl⟩)
    · exact .inr (.inr ⟨_, .wrong hisRow hwrong, by rw [hread, he]; rfl⟩)
    · exact .inr (.inr ⟨_, .overlong hisRow hoverlong, by rw [hread, he]; rfl⟩)

/-- Each entry is the one of a row among the lines. -/
theorem Reads.exists_row {lines : List Text} {es : List Entry} (h : Reads lines es) : ∀ e ∈ es,
    ∃ line ∈ lines, ∃ word category digits, IsRow (Text.dropLineEnd line) word category digits ∧
      Gives word category digits e := by
  induction h with
  | nil => exact nofun
  | row hrow he _ ih =>
    refine List.forall_mem_cons.mpr ⟨⟨_, List.mem_cons_self .., _, _, _, hrow, he⟩, fun e' he' => ?_⟩
    obtain ⟨line, hline, hgives⟩ := ih e' he'
    exact ⟨line, List.mem_cons_of_mem _ hline, hgives⟩
  | other _ _ ih =>
    intro e he
    obtain ⟨line, hline, hgives⟩ := ih e he
    exact ⟨line, List.mem_cons_of_mem _ hline, hgives⟩

theorem Reads.append {lines more : List Text} {es es' : List Entry} (h : Reads lines es)
    (hmore : Reads more es') : Reads (lines ++ more) (es ++ es') := by
  induction h with
  | nil => exact hmore
  | row hrow he _ ih => exact .row hrow he ih
  | other hline _ ih => exact .other hline ih

theorem readLine_of_gives {line word category digits : Text} {e : Entry}
    (hrow : IsRow (Text.dropLineEnd line) word category digits) (h : Gives word category digits e)
    (number : ℕ) : readLine number (Text.dropLineEnd line) = .ok (some e) := by
  have hread := (isRow_iff (dropLineEnd_getLast? line)).mp hrow
  obtain ⟨hne, hdigits⟩ := digits_of_readRow hread
  rw [readLine, hread]
  simp only [entryOf_of_gives h hne hdigits, Except.map]

/-- Lines that are read add their entries to those read before, whatever lines come after them. -/
theorem Reads.readLines_append {lines : List Text} {es : List Entry} (h : Reads lines es) (number : ℕ)
    (done : List Entry) (more : List Text) : readLines number done (lines ++ more) =
      readLines (number + lines.length) (es.reverse ++ done) more := by
  induction h generalizing number done with
  | nil => rfl
  | @row line word category digits lines e es hrow he _ ih =>
    rw [List.cons_append, readLines, readLine_of_gives hrow he]
    simp only [ih, List.length_cons, List.reverse_cons, List.append_assoc, List.singleton_append]
    rw [Nat.add_assoc, Nat.add_comm 1]
  | @other line lines es hline _ ih =>
    rw [List.cons_append, readLines, readLine_of_not_matchesRow hline]
    simp only [ih, List.length_cons]
    rw [Nat.add_assoc, Nat.add_comm 1]

/-- All lines are read, or some are read and the next one is refused. -/
theorem reads_or_refuses (number : ℕ) (lines : List Text) : (∃ es, Reads lines es) ∨
    ∃ before line after es error, lines = before ++ line :: after ∧ Reads before es ∧
      Refuses (number + before.length) (Text.dropLineEnd line) error ∧
      readLine (number + before.length) (Text.dropLineEnd line) = .error error := by
  induction lines generalizing number with
  | nil => exact .inl ⟨[], .nil⟩
  | cons line lines ih =>
    -- what the first line adds is put in front of what becomes of the others
    have hcons : ∀ es' : List Entry → List Entry, (∀ {ls es}, Reads ls es → Reads (line :: ls) (es' es)) →
        (∃ es, Reads (line :: lines) es) ∨ ∃ before bad after es error,
          line :: lines = before ++ bad :: after ∧ Reads before es ∧
          Refuses (number + before.length) (Text.dropLineEnd bad) error ∧
          readLine (number + before.length) (Text.dropLineEnd bad) = .error error := by
      intro es' hadd
      obtain ⟨es, hes⟩ | ⟨before, bad, after, es, error, rfl, hbefore, hrefuses, hbad⟩ := ih (number + 1)
      · exact .inl ⟨_, hadd hes⟩
      · rw [Nat.add_assoc, Nat.add_comm 1] at hrefuses hbad
        exact .inr ⟨line :: before, bad, after, _, error, rfl, hadd hbefore, hrefuses, hbad⟩
    obtain ⟨hother, -⟩ | ⟨word, category, digits, e, hrow, he, -⟩ | ⟨error, hrefuses, hbad⟩ :=
      readLine_outcome number (dropLineEnd_getLast? line)
    · exact hcons id (.other hother)
    · exact hcons _ (.row hrow he)
    · exact .inr ⟨[], line, lines, [], error, rfl, .nil, hrefuses, hbad⟩

end

end Table

/-! ## Lexicons -/

section
variable [Pattern.CharNames]

theorem ofLines_of_reads {lines : List Text} {es : List Entry} (h : Table.Reads lines es) :
    ofLines lines = .ok (ofEntries es) := by
  have hread := h.readLines_append 1 [] []
  rw [List.append_nil, List.append_nil, Table.readLines, List.reverse_reverse] at hread
  rw [ofLines, hread]
  rfl

theorem ofLines_of_error {before : List Text} {line : Text} {es : List Entry} {error : Table.Error}
    (hbefore : Table.Reads before es)
    (hbad : Table.readLine (1 + before.length) (Text.dropLineEnd line) = .error error) (after : List Text) :
    ofLines (before ++ line :: after) = .error error := by
  rw [ofLines, hbefore.readLines_append, Table.readLines, hbad]
  rfl

theorem ofLines_eq_ok_iff {lines : List Text} {l : Lexicon} :
    ofLines lines = .ok l ↔ ∃ es, Table.Reads lines es ∧ ofEntries es = l := by
  constructor
  · intro h
    obtain ⟨es, hes⟩ | ⟨before, line, after, es, error, rfl, hbefore, -, hbad⟩ := Table.reads_or_refuses 1 lines
    · exact ⟨es, hes, Except.ok.inj ((ofLines_of_reads hes).symm.trans h)⟩
    · rw [ofLines_of_error hbefore hbad] at h
      cases h
  · rintro ⟨es, hes, rfl⟩
    exact ofLines_of_reads hes

end

/-- The lines of a table are all read, and the lexicon is the one of their entries; or there is a first
line that is refused. This is a row, and reading ends with its error whatever lines come after it. The error
has the number and the text of the line and says what is wrong with the row, unless the category of the row
is known and its digits are too many to be converted. The lines before are read, and they add the same
entries before any other lines that are read. -/
theorem ofLines_outcome [Pattern.CharNames] (lines : List Text) :
    (∃ es, Table.Reads lines es ∧ ofLines lines = .ok (ofEntries es)) ∨
    ∃ before line after es error, lines = before ++ line :: after ∧ Table.Reads before es ∧
      (∀ more es', Table.Reads more es' → ofLines (before ++ more) = .ok (ofEntries (es ++ es'))) ∧
      Table.Refuses (before.length + 1) (Text.dropLineEnd line) error ∧
      ∀ other, ofLines (before ++ line :: other) = .error error := by
  obtain ⟨es, hes⟩ | ⟨before, line, after, es, error, rfl, hbefore, hrefuses, hbad⟩ :=
    Table.reads_or_refuses 1 lines
  · exact .inl ⟨es, hes, ofLines_of_reads hes⟩
  · refine .inr ⟨before, line, after, es, error, rfl, hbefore, fun more es' hmore => ?_, ?_, fun other => ?_⟩
    · exact ofLines_of_reads (hbefore.append hmore)
    · rwa [Nat.add_comm]
    · exact ofLines_of_error hbefore hbad other

set_option maxRecDepth 20000 in
example : Table.readLine 7 ("| אב | אב | Noun | [ ".toList ++ List.replicate 4301 '7' ++
    " ](https://biblehub.com/hebrew/1.htm) |".toList) = .error (.tagTooLong 4301) := by
  decide +kernel

end VerseSearch.Lexicon
