import Mathlib.Order.Bounds.Basic
import VerseSearch.Proofs.Corpus.Rereading

/-! # Which lines are rejected, and which line is blamed

* `Corpus.Acceptable`: lines whose rows name contiguous places and hold readable words and tags.
* `Corpus.acceptable_iff`: these are the lines that make a corpus.
* `Progress.addLines_append`: the lines of a first part are added before those of the rest.
* `Corpus.ofLines_error`: the line of an error is the first one that cannot be added.
* `Corpus.read_blames_first_bad_row`: what is not acceptable is rejected, with the number of the line
  that ends the shortest part that is not acceptable.
-/

namespace VerseSearch
set_option autoImplicit false

/-! ## Acceptable lines -/

/-- The row names a known book and holds the integers of a place, and its word and its tag can be
read. -/
structure Corpus.Row.Names (r : Row) (p : Place) : Prop where
  book : BookName.hebrew? r.book = some p.book
  chapter : Text.readInt r.chapter = .ok p.chapter
  verse : Text.readInt r.verse = .ok p.verse
  word : ∃ word, readWord r.word = .ok word
  tag : ∃ tag, readTag r.tag = .ok tag

/-- The line has at least four fields, and its row names a place. A fifth field is the tag. -/
def LineNames (line : Text) (p : Place) : Prop :=
  ∃ book chapter verse word more,
    List.splitOn '\t' line = book :: chapter :: verse :: word :: more ∧
      (Corpus.Row.mk book chapter verse word (more.head?.getD [])).Names p

/-- The rows name places each of which continues those before it. -/
def Corpus.Acceptable (lines : List Text) : Prop :=
  ∃ places, List.Forall₂ LineNames (contentLines lines) places ∧ Contiguous places.reverse

theorem Corpus.Row.ofLine_eq_ok_iff {line : Text} {r : Row} : ofLine line = .ok r ↔
    ∃ book chapter verse word more,
      List.splitOn '\t' line = book :: chapter :: verse :: word :: more ∧
        r = ⟨book, chapter, verse, word, more.head?.getD []⟩ := by
  unfold ofLine
  split
  · next hfields => simp [hfields, eq_comm]
  · next hfew =>
    simp only [reduceCtorEq, false_iff]
    rintro ⟨book, chapter, verse, word, more, hfields, -⟩
    exact hfew book chapter verse word more hfields

/-! ## Acceptable lines make a corpus -/

theorem Continues.pos {earlier : List Place} {p : Place} (h : Continues earlier p)
    (hpos : ∀ q ∈ earlier, 0 < q.chapter ∧ 0 < q.verse) : 0 < p.chapter ∧ 0 < p.verse := by
  cases h with
  | sameVerse => exact hpos p (by simp)
  | nextVerse q => exact ⟨(hpos q (by simp)).1, Nat.succ_pos _⟩
  | nextChapter q => exact ⟨Nat.succ_pos _, Nat.one_pos⟩
  | newBook => exact ⟨Nat.one_pos, Nat.one_pos⟩

theorem Contiguous.pos {places : List Place} (h : Contiguous places) :
    ∀ p ∈ places, 0 < p.chapter ∧ 0 < p.verse := by
  induction h with
  | nil => simp
  | cons before last ih => exact List.forall_mem_cons.mpr ⟨last.pos ih, ih⟩

theorem LineGives.names {line : Text} {w : LocatedWord} (h : LineGives line w) :
    LineNames line w.place := by
  obtain ⟨r, hr, hbook, hchapter, hverse, hword, htag⟩ := h
  obtain ⟨book, chapter, verse, word, more, hfields, rfl⟩ := Corpus.Row.ofLine_eq_ok_iff.mp hr
  exact ⟨book, chapter, verse, word, more, hfields, hbook,
    (Corpus.Row.readSequence_eq_ok_iff.mp hchapter).2,
    (Corpus.Row.readSequence_eq_ok_iff.mp hverse).2, ⟨_, hword⟩, ⟨_, htag⟩⟩

theorem LineNames.gives {line : Text} {p : Place} (h : LineNames line p)
    (hpos : 0 < p.chapter ∧ 0 < p.verse) : ∃ w, LineGives line ⟨p, w⟩ := by
  obtain ⟨book, chapter, verse, word, more, hfields, hbook, hchapter, hverse, ⟨w, hw⟩, tag, htag⟩ := h
  have hr := Corpus.Row.ofLine_eq_ok_iff.mpr ⟨book, chapter, verse, word, more, hfields, rfl⟩
  exact ⟨⟨w, tag⟩, _, hr, hbook, Corpus.Row.readSequence_eq_ok_iff.mpr ⟨hpos.1, hchapter⟩,
    Corpus.Row.readSequence_eq_ok_iff.mpr ⟨hpos.2, hverse⟩, hw, htag⟩

theorem exists_words_of_names {lines : List Text} {places : List Place}
    (h : List.Forall₂ LineNames lines places) (hpos : ∀ p ∈ places, 0 < p.chapter ∧ 0 < p.verse) :
    ∃ ws : List LocatedWord, List.Forall₂ LineGives lines ws ∧ ws.map (·.place) = places := by
  induction h with
  | nil => exact ⟨[], .nil, rfl⟩
  | cons hline _ ih =>
    obtain ⟨hp, hrest⟩ := List.forall_mem_cons.mp hpos
    obtain ⟨w, hw⟩ := hline.gives hp
    obtain ⟨ws, hws, hplaces⟩ := ih hrest
    exact ⟨_ :: ws, .cons hw hws, by rw [List.map_cons, hplaces]⟩

theorem Corpus.acceptable_iff {lines : List Text} :
    Acceptable lines ↔ ∃ c, ofLines lines = .ok c := by
  constructor
  · rintro ⟨places, hnames, hcontiguous⟩
    have hpos : ∀ p ∈ places, 0 < p.chapter ∧ 0 < p.verse := fun p hp =>
      hcontiguous.pos p (List.mem_reverse.mpr hp)
    obtain ⟨ws, hgives, rfl⟩ := exists_words_of_names hnames hpos
    rw [← List.map_reverse] at hcontiguous
    exact ⟨_, ofLines_eq_ok_iff.mpr ⟨ws, hgives, hcontiguous, rfl⟩⟩
  · rintro ⟨c, hc⟩
    obtain ⟨ws, hgives, hcontiguous, -⟩ := ofLines_eq_ok_iff.mp hc
    refine ⟨ws.map (·.place), ?_, by rwa [← List.map_reverse]⟩
    exact List.forall₂_map_right_iff.mpr (hgives.imp fun _ _ => LineGives.names)

/-! ## The line of an error -/

namespace Progress

theorem addLines_append {p q : Progress} {number : ℕ} {before : List Text}
    (h : p.addLines number before = .ok q) (after : List Text) :
    p.addLines number (before ++ after) = q.addLines (number + before.length) after := by
  induction before generalizing p number with
  | nil =>
    obtain rfl := Except.ok.inj h
    rfl
  | cons line before ih =>
    rw [addLines] at h
    rw [List.cons_append, addLines, List.length_cons]
    cases hadd : p.addLine (Text.dropLineEnd line) with
    | error problem => rw [hadd] at h; cases h
    | ok next =>
      rw [hadd] at h
      simp only [ih h]
      rw [Nat.add_assoc, Nat.add_comm 1]

theorem addLines_of_bad {p q : Progress} {number : ℕ} {before : List Text} {line : Text}
    {problem : Corpus.Row.Problem} (h : p.addLines number before = .ok q)
    (hbad : q.addLine (Text.dropLineEnd line) = .error problem) (after : List Text) :
    p.addLines number (before ++ line :: after) =
      .error ⟨number + before.length, Text.dropLineEnd line, problem⟩ := by
  rw [addLines_append h, addLines, hbad]

-- By induction on the lines: the first one is the bad one, or the bad one is among the rest.
theorem exists_bad {p : Progress} {number : ℕ} {lines : List Text}
    {e : LineError Corpus.Row.Problem} (h : p.addLines number lines = .error e) :
    ∃ before line after q, lines = before ++ line :: after ∧ p.addLines number before = .ok q ∧
      q.addLine (Text.dropLineEnd line) = .error e.problem := by
  induction lines generalizing p number with
  | nil => cases h
  | cons line rest ih =>
    rw [addLines] at h
    cases hadd : p.addLine (Text.dropLineEnd line) with
    | error problem =>
      rw [hadd] at h
      obtain rfl := Except.error.inj h
      exact ⟨[], line, rest, p, rfl, rfl, hadd⟩
    | ok next =>
      rw [hadd] at h
      obtain ⟨before, bad, after, q, rfl, hq, hbad⟩ := ih h
      exact ⟨line :: before, bad, after, q, rfl, by rw [addLines, hadd]; exact hq, hbad⟩

end Progress

namespace Corpus

theorem ofLines_isOk_of_append {before after : List Text}
    (h : ∃ c, ofLines (before ++ after) = .ok c) : ∃ c, ofLines before = .ok c := by
  obtain ⟨c, hc⟩ := h
  cases hbefore : ({} : Progress).addLines 1 before with
  | ok q => exact ⟨_, by rw [ofLines, hbefore]; rfl⟩
  | error e =>
    -- the bad line of the first part is one of the whole
    obtain ⟨first, line, rest, q, rfl, hq, hbad⟩ := Progress.exists_bad hbefore
    rw [List.append_assoc, List.cons_append, ofLines, Progress.addLines_of_bad hq hbad] at hc
    cases hc

theorem ofLines_error {lines : List Text} {e : LineError Row.Problem}
    (h : ofLines lines = .error e) :
    ∃ before line after, lines = before ++ line :: after ∧ (∃ c, ofLines before = .ok c) ∧
      e.number = before.length + 1 ∧ e.line = Text.dropLineEnd line ∧
      ∀ other, ofLines (before ++ line :: other) = .error e := by
  rw [ofLines] at h
  cases hadd : ({} : Progress).addLines 1 lines with
  | ok q => rw [hadd] at h; cases h
  | error e' =>
    rw [hadd] at h
    obtain rfl := Except.error.inj h
    obtain ⟨before, line, after, q, rfl, hq, hbad⟩ := Progress.exists_bad hadd
    have hall := Progress.addLines_of_bad hq hbad
    have he := Except.error.inj (hadd.symm.trans (hall after))
    refine ⟨before, line, after, rfl, ⟨_, by rw [ofLines, hq]; rfl⟩, ?_, ?_, fun other => ?_⟩
    · rw [he, Nat.add_comm]
    · rw [he]
    · rw [ofLines, hall other, he]
      rfl

/-! ## Files -/

theorem read_eq_map [Pattern.CharNames] {bookFilter : Option Text}
    (hfilter : ∀ source ∈ bookFilter, ∃ p, Pattern.parse source = .ok p) :
    ∃ keep : Corpus Text → Corpus Text, ∀ lines,
      read bookFilter lines = ((ofLines lines).mapError ReadError.row).map keep := by
  cases bookFilter with
  | none => exact ⟨id, fun lines => by rw [read]; cases ofLines lines <;> rfl⟩
  | some source =>
    obtain ⟨p, hp⟩ := hfilter source rfl
    exact ⟨(·.restrict p), fun lines => read_some hp lines⟩

/-- Lines are read, with any filter that is a pattern, if and only if they are acceptable. Otherwise
one of them is blamed: its number is the length of the shortest beginning of the lines that is not
acceptable, and whatever other lines come after this beginning, the error is the same. -/
theorem read_blames_first_bad_row [Pattern.CharNames] (lines : List Text) {bookFilter : Option Text}
    (hfilter : ∀ source ∈ bookFilter, ∃ p, Pattern.parse source = .ok p) :
    ((∃ c, read bookFilter lines = .ok c) ↔ Acceptable lines) ∧
    (¬ Acceptable lines → ∃ e, read bookFilter lines = .error (.row e) ∧
      IsLeast {k | ¬ Acceptable (lines.take k)} e.number ∧
      (∃ line, lines[e.number - 1]? = some line ∧ e.line = Text.dropLineEnd line) ∧
      ∀ other, other.take e.number = lines.take e.number →
        read bookFilter other = .error (.row e)) := by
  obtain ⟨keep, hread⟩ := read_eq_map hfilter
  have herror : ∀ {ls e}, ofLines ls = .error e → read bookFilter ls = .error (.row e) :=
    fun h => by rw [hread, h]; rfl
  refine ⟨?_, fun hrejected => ?_⟩
  · rw [acceptable_iff, hread]
    cases ofLines lines <;> simp [Except.map, Except.mapError]
  · rw [acceptable_iff] at hrejected
    cases hlines : ofLines lines with
    | ok c => exact absurd ⟨c, hlines⟩ hrejected
    | error e =>
      obtain ⟨before, line, after, rfl, hbefore, hnumber, hline, hall⟩ := ofLines_error hlines
      have htake : (before ++ line :: after).take e.number = before ++ [line] := by
        rw [hnumber, List.take_append, List.take_of_length_le (Nat.le_succ _), Nat.add_sub_cancel_left]
        rfl
      refine ⟨e, herror hlines, ⟨?_, fun k hk => ?_⟩, ⟨line, ?_, hline⟩, fun other hother => ?_⟩
      · simp [htake, acceptable_iff, hall []]
      · by_contra hlt
        have hbeginning : (before ++ line :: after).take k = before.take k :=
          List.take_append_of_le_length (by omega)
        refine hk (acceptable_iff.mpr ?_)
        rw [hbeginning]
        have hwhole : ∃ c, ofLines (before.take k ++ before.drop k) = .ok c := by
          rwa [List.take_append_drop]
        exact ofLines_isOk_of_append hwhole
      · rw [hnumber, Nat.add_sub_cancel, List.getElem?_append_right (Nat.le_refl _), Nat.sub_self]
        rfl
      · have hsplit : other = before ++ line :: other.drop e.number := by
          rw [List.append_cons, ← htake, ← hother, List.take_append_drop]
        exact herror (by rw [hsplit]; exact hall _)

/-- A verse is left out, after a blank line and before a line that is no row at all. -/
theorem read_blames_first_bad_row_of_gap :
    let lines := ["Genesis\t1\t1\tאור\t216\n".toList, " ".toList, "Genesis\t1\t3\tאב\n".toList,
      "Exodus".toList]
    let e : LineError Row.Problem :=
      ⟨3, "Genesis\t1\t3\tאב".toList, .unexpectedSequence "verse".toList 3 2⟩
    (∀ source ∈ some ['ו'], ∃ p, Pattern.parse source = .ok p) ∧ ¬ Acceptable lines ∧
      read (some ['ו']) lines = .error (.row e) ∧ IsLeast {k | ¬ Acceptable (lines.take k)} 3 ∧
      ∀ other, other.take 3 = lines.take 3 → read (some ['ו']) other = .error (.row e) := by
  intro lines e
  have hp : Pattern.parse ['ו'] = .ok ⟨.cat (.one { items := [.code 0x5d5] }) .empty⟩ := by
    decide +kernel
  have hread : read (some ['ו']) lines = .error (.row e) := by decide +kernel
  have hfilter : ∀ source ∈ some ['ו'], ∃ p, Pattern.parse source = .ok p := fun _ hsource =>
    Option.some.inj hsource ▸ ⟨_, hp⟩
  obtain ⟨haccepted, hrejected⟩ := read_blames_first_bad_row lines hfilter
  have hbad : ¬ Acceptable lines := fun h => by
    obtain ⟨c, hc⟩ := haccepted.mpr h
    rw [hread] at hc
    cases hc
  obtain ⟨e', he', hleast, -, hother⟩ := hrejected hbad
  obtain rfl : e = e' := by
    rw [hread] at he'
    exact ReadError.row.inj (Except.error.inj he')
  exact ⟨hfilter, hbad, hread, hleast, hother⟩

end Corpus

end VerseSearch
