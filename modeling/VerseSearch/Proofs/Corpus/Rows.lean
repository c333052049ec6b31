import Mathlib.Control.Monad.Basic
import Mathlib.Data.Int.Notation
import Mathlib.Data.List.Forall2
import VerseSearch.Corpus.Lines
import VerseSearch.Proofs.Hebrew.Normalization

/-! # Rows as they are read and written

* `Row.Gives`: a row gives a word with its place; `LineGives` says so of a line.
* `contentLines`: the lines that hold rows, without their line ends.
* `LocatedWord.line`: a word with its place, written as a row; `LocatedWord.Readable`: the row gives
  the word back.
* `LineGives.readable`: what a line gives, the row that is written for it gives again.
-/

namespace VerseSearch
set_option autoImplicit false

/-! ## Lists -/

theorem exists_of_forall₂ {α β : Type} {R : α → β → Prop} {xs : List α} {ys : List β}
    (h : List.Forall₂ R xs ys) : ∀ y ∈ ys, ∃ x ∈ xs, R x y := by
  induction h with
  | nil => exact nofun
  | @cons x y xs ys hxy _ ih =>
    refine List.forall_mem_cons.mpr ⟨⟨x, List.mem_cons_self .., hxy⟩, fun y' hy' => ?_⟩
    obtain ⟨x', hx', hxy'⟩ := ih y' hy'
    exact ⟨x', List.mem_cons_of_mem x hx', hxy'⟩

namespace Corpus.Row

/-! ## Fields -/

theorem readWord_eq_ok_iff {field word : Text} : readWord field = .ok word ↔
    word ≠ [] ∧ ∃ completed, completeShin field = .ok completed ∧
      Hebrew.normalize completed = .ok word := by
  unfold readWord
  cases hc : completeShin field with
  | error e => simp
  | ok completed =>
    cases hn : Hebrew.normalize completed with
    | error e => simp [hn]
    | ok normalized =>
      by_cases hempty : normalized = []
      · simp only [hn, hempty, List.isEmpty_nil, if_true, Except.ok.injEq, exists_eq_left']
        exact ⟨nofun, fun ⟨hne, heq⟩ => absurd heq.symm hne⟩
      · simp only [hn, List.isEmpty_iff, if_neg hempty, Except.ok.injEq, exists_eq_left']
        exact ⟨fun heq => ⟨heq ▸ hempty, heq⟩, And.right⟩

theorem readWord_spec {field word : Text} (h : readWord field = .ok word) :
    word ≠ [] ∧ ∀ c ∈ word, Alphabet.hebrew.contains c = true := by
  obtain ⟨hne, completed, -, hn⟩ := readWord_eq_ok_iff.mp h
  exact ⟨hne, Hebrew.contains_of_normalize hn⟩

theorem readWord_of_readWord {field word : Text} (h : readWord field = .ok word) :
    readWord word = .ok word := by
  obtain ⟨hne, completed, -, hn⟩ := readWord_eq_ok_iff.mp h
  have hsymbols := Hebrew.contains_of_normalize hn
  have hcomplete : completeShin word = .ok word := by
    -- a bare shin is no symbol, so there is none to complete
    have hbare : Hebrew.bareShin ∉ word := Hebrew.not_mem_of_contains hsymbols (by decide)
    rw [completeShin]
    simp only [Hebrew.compose_of_contains hsymbols, if_pos hbare]
  exact readWord_eq_ok_iff.mpr ⟨hne, word, hcomplete, Hebrew.normalize_of_normalize hn⟩

theorem readTag_spec {field : Text} {tag : ℤ} (h : readTag field = .ok tag) :
    0 ≤ tag ∧ tag ≤ maxTag := by
  rw [readTag] at h
  split at h
  · obtain rfl := Except.ok.inj h
    exact ⟨Int.le_refl 0, by decide⟩
  · cases hi : Text.readInt field.strip with
    | error e => rw [hi] at h; cases h
    | ok n =>
      simp only [hi] at h
      split at h
      · cases h
      · obtain rfl := Except.ok.inj h
        omega

theorem readTag_ofNat {n : ℕ} (h : (n : ℤ) ≤ maxTag) : readTag (Text.ofNat n) = .ok n := by
  have hread : Text.readInt (Text.ofNat n) = .ok n :=
    Text.readInt_ofNat (Text.lt_of_lt_fiveDigits (by rw [maxTag] at h; omega))
  rw [readTag, Text.strip_ofNat, if_neg (by simp), hread]
  simp only [if_neg (show ¬((n : ℤ) < 0 ∨ maxTag < n) by omega)]

@[simp] theorem readSequence_eq_ok_iff {kind field : Text} {n : ℕ} :
    readSequence kind field = .ok n ↔ 0 < n ∧ Text.readInt field = .ok n := by
  rw [readSequence]
  cases Text.readInt field with
  | error e => simp
  | ok m =>
    simp only [Except.ok.injEq]
    split
    · simp only [reduceCtorEq, false_iff]
      omega
    · rw [Except.ok.injEq]
      omega

theorem readSequence_spec {kind field : Text} {n : ℕ} (h : readSequence kind field = .ok n) :
    0 < n ∧ n < 10 ^ Text.maxIntegerDigits := by
  obtain ⟨hpos, hread⟩ := readSequence_eq_ok_iff.mp h
  exact ⟨hpos, Text.readInt_lt hread⟩

theorem readSequence_ofNat {n : ℕ} (h0 : 0 < n) (h1 : n < 10 ^ Text.maxIntegerDigits)
    (kind : Text) : readSequence kind (Text.ofNat n) = .ok n :=
  readSequence_eq_ok_iff.mpr ⟨h0, Text.readInt_ofNat h1⟩

/-! ## Rows -/

def line (r : Row) : Text := List.intercalate ['\t'] [r.book, r.chapter, r.verse, r.word, r.tag]

theorem splitOn_line {r : Row} (h : ∀ t ∈ [r.book, r.chapter, r.verse, r.word, r.tag], '\t' ∉ t) :
    List.splitOn '\t' r.line = [r.book, r.chapter, r.verse, r.word, r.tag] :=
  List.splitOn_intercalate _ h (by simp)

/-- What a row says: a word with its place. -/
structure Gives (r : Row) (w : LocatedWord) : Prop where
  book : BookName.hebrew? r.book = some w.place.book
  chapter : readSequence "chapter".toList r.chapter = .ok w.place.chapter
  verse : readSequence "verse".toList r.verse = .ok w.place.verse
  word : readWord r.word = .ok w.word.word
  tag : readTag r.tag = .ok w.word.tag

end Corpus.Row

/-! ## Names of books -/

namespace BookName

/-- The English name of a book. -/
def english (hebrew : Text) : Text := ((table.find? fun e => e.2 = hebrew).map (·.1)).getD []

theorem table_spec : ∀ e ∈ table, hebrew? (english e.2) = some e.2 ∧ '\t' ∉ english e.2 ∧
    english e.2 ≠ Corpus.Row.heading ∧ (english e.2).isAllBlank = false := by
  decide +kernel

theorem english_spec {name book : Text} (h : hebrew? name = some book) :
    hebrew? (english book) = some book ∧ '\t' ∉ english book ∧
      english book ≠ Corpus.Row.heading ∧ (english book).isAllBlank = false := by
  obtain ⟨before, after, hsplit, -⟩ := List.lookup_eq_some_iff.mp h
  exact table_spec (name, book) (by simp [hsplit])

end BookName

/-! ## Lines -/

/-- What a line gives: the word and the place of its row. -/
def LineGives (line : Text) (w : LocatedWord) : Prop :=
  ∃ r, Corpus.Row.ofLine line = .ok r ∧ r.Gives w

/-- The lines that hold rows, without their line ends. -/
def contentLines (lines : List Text) : List Text :=
  (lines.map Text.dropLineEnd).filter fun line => !Corpus.Row.isSkipped line

section
variable {line : Text} (rest : List Text)

theorem contentLines_cons_of_isSkipped
    (h : Corpus.Row.isSkipped (Text.dropLineEnd line) = true) :
    contentLines (line :: rest) = contentLines rest := by
  simp [contentLines, h]

theorem contentLines_cons (h : Corpus.Row.isSkipped (Text.dropLineEnd line) = false) :
    contentLines (line :: rest) = Text.dropLineEnd line :: contentLines rest := by
  simp [contentLines, h]

end

namespace LocatedWord

def row (w : LocatedWord) : Corpus.Row where
  book := BookName.english w.place.book
  chapter := Text.ofNat w.place.chapter
  verse := Text.ofNat w.place.verse
  word := w.word.word
  tag := Text.ofInt w.word.tag

def line (w : LocatedWord) : Text := w.row.line

/-- The row of the word gives the word. -/
def Readable (w : LocatedWord) : Prop := w.row.Gives w

end LocatedWord

theorem LineGives.readable {line : Text} {w : LocatedWord} (h : LineGives line w) : w.Readable := by
  obtain ⟨r, -, hbook, hchapter, hverse, hword, htag⟩ := h
  obtain ⟨hchapter0, hchapter1⟩ := Corpus.Row.readSequence_spec hchapter
  obtain ⟨hverse0, hverse1⟩ := Corpus.Row.readSequence_spec hverse
  obtain ⟨htag0, htag1⟩ := Corpus.Row.readTag_spec htag
  obtain ⟨n, hn⟩ := Int.eq_ofNat_of_zero_le htag0
  exact {
    book := (BookName.english_spec hbook).1
    chapter := Corpus.Row.readSequence_ofNat hchapter0 hchapter1 _
    verse := Corpus.Row.readSequence_ofNat hverse0 hverse1 _
    word := Corpus.Row.readWord_of_readWord hword
    tag := by
      rw [LocatedWord.row, hn]
      exact Corpus.Row.readTag_ofNat (hn ▸ htag1) }

namespace LocatedWord.Readable

variable {w : LocatedWord} (h : w.Readable)
include h

theorem tag_eq : ∃ n : ℕ, w.row.tag = Text.ofNat n := by
  obtain ⟨n, hn⟩ := Int.eq_ofNat_of_zero_le (Corpus.Row.readTag_spec h.tag).1
  exact ⟨n, by rw [row, hn]; rfl⟩

theorem splitOn_line : List.splitOn '\t' w.line =
    [w.row.book, w.row.chapter, w.row.verse, w.row.word, w.row.tag] := by
  have hdigits : ∀ n, '\t' ∉ Text.ofNat n := Text.not_mem_ofNat (by decide)
  have hword : '\t' ∉ w.row.word :=
    Hebrew.not_mem_of_contains (Corpus.Row.readWord_spec h.word).2 (by decide)
  obtain ⟨n, hn⟩ := h.tag_eq
  apply Corpus.Row.splitOn_line
  simp only [List.forall_mem_cons]
  exact ⟨(BookName.english_spec h.book).2.1, hdigits _, hdigits _, hword, hn ▸ hdigits n, nofun⟩

theorem lineGives : LineGives w.line w :=
  ⟨w.row, by rw [Corpus.Row.ofLine, h.splitOn_line]; rfl, h⟩

theorem dropLineEnd_line : Text.dropLineEnd w.line = w.line := by
  obtain ⟨n, hn⟩ := h.tag_eq
  -- the tag stands last, and a digit ends no line
  have hends : ∀ c ∈ Text.ofNat n, (c = '\r' || c = '\n') = false := fun c hc => by
    have hreturn : c ≠ '\r' := ne_of_mem_of_not_mem hc (Text.not_mem_ofNat (by decide) n)
    have hfeed : c ≠ '\n' := ne_of_mem_of_not_mem hc (Text.not_mem_ofNat (by decide) n)
    simp [hreturn, hfeed]
  rw [line, Corpus.Row.line, hn]
  simp only [List.intercalate_cons_cons, List.intercalate_singleton, ← List.append_assoc]
  exact Text.dropRightWhile_append (Text.ofNat_ne_nil n) hends _

theorem isSkipped_line : Corpus.Row.isSkipped w.line = false := by
  obtain ⟨-, -, hheading, hblank⟩ := BookName.english_spec h.book
  have hline : w.line.isAllBlank = false := by
    rw [line, Corpus.Row.line, List.intercalate_cons_cons, List.append_assoc, Text.isAllBlank,
      List.all_append]
    exact Bool.and_eq_false_imp.mpr fun hbook => absurd hbook (Bool.eq_false_iff.mp hblank)
  rw [Corpus.Row.isSkipped, hline, h.splitOn_line, Bool.false_or]
  exact decide_eq_false fun heq => hheading (Option.some.inj heq)

end LocatedWord.Readable

theorem contentLines_line {ws : List LocatedWord} (h : ∀ w ∈ ws, w.Readable) :
    contentLines (ws.map (·.line)) = ws.map (·.line) := by
  have hends : (ws.map (·.line)).map Text.dropLineEnd = ws.map (·.line) := by
    rw [List.map_map]
    exact List.map_congr_left fun w hw => (h w hw).dropLineEnd_line
  rw [contentLines, hends]
  apply List.filter_eq_self.mpr
  simp only [List.forall_mem_map]
  exact fun w hw => by rw [(h w hw).isSkipped_line]; rfl

theorem forall₂_lineGives_line {ws : List LocatedWord} (h : ∀ w ∈ ws, w.Readable) :
    List.Forall₂ LineGives (ws.map (·.line)) ws :=
  List.forall₂_map_left_iff.mpr (List.forall₂_same.mpr fun w hw => (h w hw).lineGives)

end VerseSearch
