import Mathlib.Order.Bounds.Basic
import VerseSearch.Proofs.Search.Offsets

/-! # The words that a span covers

* `wordRange_of_trimmed`, `wordRange_of_separator`: the words at the ends of a span without its outer
  separators, and the word of a span that is one separator.
* `wordRange_within`: a span inside the part of a word covers that word alone.
* `wordRange_cases`: a span covers the words from the first to the last one whose part it touches, and
  one separator covers the word after it, or the last word.
* `mem_coverFrom`, `coverFrom_isOk_iff`: the words that spans cover, and which spans have them.
* `coveredWords_of_inside`: spans inside any text cover some of its words.
* `spans_cover_touched_words`: the words of spans and offsets in the search string of a verse.
-/

namespace VerseSearch.Highlight
set_option autoImplicit false

open SearchString (assemble body Parted)

/-! ## Spans -/

section
variable {s : Text}

theorem wordAt_of_lt {k : ℤ} (hk : 0 ≤ k) (hlt : k < s.length) :
    wordAt s k = .ok (separatorsBefore s k.toNat - 1) := by
  obtain ⟨j, rfl⟩ := Int.eq_ofNat_of_zero_le hk
  exact wordAt_eq (Int.ofNat_lt.mp hlt)

/-- Every span inside a text covers words, of which none comes after that of the last offset. -/
theorem wordRange_of_inside {start stop : ℤ} (hstart : 0 ≤ start) (hlt : start < stop)
    (hstop : stop ≤ s.length) : ∃ first last, wordRange s start stop = .ok (first, last) ∧
      first ≤ last ∧ last ≤ separatorsBefore s (s.length - 1) - 1 := by
  have htrim : ∀ (P : Prop) [Decidable P], start ≤ (if P then start + 1 else start) ∧
      (if P then start + 1 else start) ≤ stop := by
    intro P _
    split <;> omega
  have htrim' : ∀ (i : ℤ) (P : Prop) [Decidable P], i ≤ stop →
      i ≤ (if i < stop ∧ P then stop - 1 else stop) ∧
        (if i < stop ∧ P then stop - 1 else stop) ≤ stop := by
    intro i P _ hi
    split <;> omega
  rw [wordRange, if_neg (by omega)]
  obtain ⟨hi, hi'⟩ := htrim (start < stop ∧ s[start.toNat]? = some Hebrew.separator)
  obtain ⟨hj, hj'⟩ := htrim' _ (s[stop.toNat - 1]? = some Hebrew.separator) hi'
  simp only
  generalize (if start < stop ∧ s[start.toNat]? = some Hebrew.separator then start + 1
    else start) = i at *
  generalize (if i < stop ∧ s[stop.toNat - 1]? = some Hebrew.separator then stop - 1
    else stop) = j at *
  rw [wordAt_of_lt (by omega) (by omega), wordAt_of_lt (by omega) (by omega)]
  refine ⟨_, _, rfl, Nat.sub_le_sub_right (separatorsBefore_mono s ?_) 1,
    Nat.sub_le_sub_right (separatorsBefore_mono s ?_) 1⟩
  · omega
  · omega

/-- The words at the ends of a span whose outer separators are taken off. -/
theorem wordRange_of_trimmed {start stop i j : ℕ}
    (hstart : start = i ∧ s[i]? ≠ some Hebrew.separator ∨
      start + 1 = i ∧ s[start]? = some Hebrew.separator)
    (hstop : stop = j ∧ s[j - 1]? ≠ some Hebrew.separator ∨
      stop = j + 1 ∧ s[j]? = some Hebrew.separator) (hij : i < j) (hj : j < s.length) :
    wordRange s start stop = .ok (separatorsBefore s i - 1, separatorsBefore s j - 1) := by
  have hi := wordAt_eq (s := s) (Nat.lt_trans hij hj)
  have hwordj := wordAt_eq hj
  have hmini : min (i : ℤ) ((s.length : ℤ) - 1) = i := min_eq_left (by omega)
  have hminj : min (j : ℤ) ((s.length : ℤ) - 1) = j := min_eq_left (by omega)
  have htrim : (if (start : ℤ) < stop ∧ s[(start : ℤ).toNat]? = some Hebrew.separator then
      (start : ℤ) + 1 else start) = i := by
    rw [Int.toNat_natCast]
    obtain ⟨rfl, hsep⟩ | ⟨rfl, hsep⟩ := hstart
    · exact if_neg fun h => hsep h.2
    · exact if_pos ⟨by omega, hsep⟩
  have htrim' : (if (i : ℤ) < stop ∧ s[(stop : ℤ).toNat - 1]? = some Hebrew.separator then
      (stop : ℤ) - 1 else stop) = j := by
    rw [Int.toNat_natCast]
    obtain ⟨rfl, hsep⟩ | ⟨rfl, hsep⟩ := hstop
    · exact if_neg fun h => hsep h.2
    · rw [if_pos ⟨by omega, hsep⟩]
      omega
  rw [wordRange, if_neg (by omega)]
  simp only [htrim, htrim', hmini, hminj, hi, hwordj]

/-- A span of one separator covers the word after it, and the last separator the word before it. -/
theorem wordRange_of_separator {k : ℕ} (hk : s[k]? = some Hebrew.separator) :
    wordRange s k (k + 1) = .ok (separatorsBefore s (min (k + 1) (s.length - 1)) - 1,
      separatorsBefore s (min (k + 1) (s.length - 1)) - 1) := by
  obtain ⟨hlt, -⟩ := List.getElem?_eq_some_iff.mp hk
  have hword := wordAt_eq (s := s) (k := min (k + 1) (s.length - 1)) (by omega)
  have hmin : min ((k : ℤ) + 1) ((s.length : ℤ) - 1) = (min (k + 1) (s.length - 1) : ℕ) := by
    omega
  have htrim : (if (k : ℤ) < (k : ℤ) + 1 ∧ s[(k : ℤ).toNat]? = some Hebrew.separator then
      (k : ℤ) + 1 else k) = k + 1 := if_pos ⟨by omega, hk⟩
  rw [wordRange, if_neg (by omega)]
  simp only [htrim, lt_irrefl, false_and, if_false, hmin, hword]

end

section
variable {segs : List Text} (hparted : Parted segs)
include hparted

theorem wordRange_within {pre post : List Text} {a u c : Text}
    (hsegs : segs = pre ++ (a ++ (u ++ c)) :: post) (hne : u ≠ []) :
    wordRange (assemble segs) ((assemble pre ++ a).length : ℕ)
      ((assemble pre ++ a).length + u.length : ℕ) = .ok (pre.length, pre.length) := by
  have hseg : Hebrew.separator ∉ a ++ (u ++ c) := hparted _ (by simp [hsegs])
  have hpos := List.length_pos_iff.mpr hne
  have hlength : (assemble pre ++ a).length + u.length < (assemble segs).length := by
    rw [assemble_split hsegs]
    simp only [List.length_append, List.length_cons]
    omega
  have hinside : ∀ k < u.length,
      (assemble segs)[(assemble pre ++ a).length + k]? ≠ some Hebrew.separator := by
    intro k hk h
    rw [assemble_split hsegs, List.getElem?_append_right (by omega), Nat.add_sub_cancel_left,
      List.getElem?_append_left hk] at h
    exact hseg (List.mem_append_right _ (List.mem_append_left _ (List.mem_of_getElem? h)))
  have hstart := hinside 0 hpos
  have hstop := hinside (u.length - 1) (by omega)
  rw [← Nat.add_sub_assoc hpos] at hstop
  have hfirst : separatorsBefore _ _ = _ := count_take_within hparted hsegs (Nat.zero_le _)
  have hlast : separatorsBefore _ _ = _ := count_take_within hparted hsegs (Nat.le_refl _)
  rw [Nat.add_zero] at hfirst hstart
  rw [wordRange_of_trimmed (.inl ⟨rfl, hstart⟩) (.inl ⟨rfl, hstop⟩) (by omega) hlength, hfirst,
    hlast, Nat.add_sub_cancel]

end

/-- The words whose parts a span touches. -/
def touched (segs : List Text) (start stop : ℤ) : Set ℕ :=
  {n | ∃ k : ℕ, start ≤ k ∧ k < stop ∧ InPart segs n k}

/-- The word of a span that is one separator: the one after it, or the last one. -/
def IsNextWord (segs : List Text) (k n : ℕ) : Prop :=
  InPart segs n (k + 1) ∨ (k + 1 = (assemble segs).length ∧ n + 1 = segs.length)

section
variable {segs : List Text} (hparted : Parted segs)
include hparted

/-- A span between characters of parts covers the words from the first to the last one it touches. -/
theorem isLeast_isGreatest_of_trimmed {start stop i j : ℕ} (hi : start ≤ i) (hij : i < j)
    (hj : j ≤ stop) (hlength : j < (assemble segs).length)
    (hfirst : (assemble segs)[i]? ≠ some Hebrew.separator)
    (hlast : (assemble segs)[j - 1]? ≠ some Hebrew.separator)
    (hbetween : ∀ k, start ≤ k → k < stop → (assemble segs)[k]? ≠ some Hebrew.separator →
      i ≤ k ∧ k < j) :
    IsLeast (touched segs start stop) (separatorsBefore (assemble segs) i - 1) ∧
      IsGreatest (touched segs start stop) (separatorsBefore (assemble segs) j - 1) := by
  have hwithin : ∀ {n k : ℕ}, start ≤ k → k < stop → InPart segs n k →
      i ≤ k ∧ k ≤ j - 1 ∧ separatorsBefore (assemble segs) k = n + 1 := by
    intro n k hk hk' hpart
    obtain ⟨d, hd, hne, hcount⟩ := (inPart_iff hparted).mp hpart
    have hsep : (assemble segs)[k]? ≠ some Hebrew.separator := by
      rw [hd]
      exact fun h => hne (Option.some.inj h)
    obtain ⟨hik, hkj⟩ := hbetween k hk hk' hsep
    exact ⟨hik, by omega, hcount⟩
  constructor
  · refine ⟨⟨i, by omega, by omega, exists_inPart hparted (by omega) hfirst⟩, ?_⟩
    rintro n ⟨k, hk, hk', hpart⟩
    obtain ⟨hik, -, hcount⟩ := hwithin (by omega) (by omega) hpart
    have hmono := separatorsBefore_mono (assemble segs) hik
    omega
  · have hpart := exists_inPart hparted (k := j - 1) (by omega) hlast
    have hget : (assemble segs)[j - 1]? = some (assemble segs)[j - 1] :=
      List.getElem?_eq_getElem (by omega)
    have hsucc := separatorsBefore_succ hget fun h => hlast (by rw [hget, h])
    rw [Nat.sub_add_cancel (by omega)] at hsucc
    rw [hsucc]
    refine ⟨⟨j - 1, by omega, by omega, hpart⟩, ?_⟩
    rintro n ⟨k, hk, hk', hpart⟩
    obtain ⟨-, hkj, hcount⟩ := hwithin (by omega) (by omega) hpart
    have hmono := separatorsBefore_mono (assemble segs) hkj
    omega

variable (hfilled : ∀ seg ∈ segs, seg ≠ [])
include hfilled

theorem isNextWord_of_separator {k : ℕ} (hwords : segs ≠ [])
    (hk : (assemble segs)[k]? = some Hebrew.separator) :
    IsNextWord segs k
      (separatorsBefore (assemble segs) (min (k + 1) ((assemble segs).length - 1)) - 1) := by
  obtain ⟨hlt, -⟩ := List.getElem?_eq_some_iff.mp hk
  have hpos := List.length_pos_iff.mpr hwords
  obtain ⟨hlength, hcount⟩ | hpart := separator_cases hparted hfilled hk
  · right
    have hmin : min (k + 1) ((assemble segs).length - 1) = k := by omega
    rw [hmin, hcount]
    exact ⟨hlength, by omega⟩
  · left
    obtain ⟨d, hd, hne, hcount⟩ := (inPart_iff hparted).mp hpart
    obtain ⟨hlt', -⟩ := List.getElem?_eq_some_iff.mp hd
    have hend : k + 1 ≠ (assemble segs).length - 1 := by
      intro h
      rw [h, getElem?_last segs] at hd
      exact hne (Option.some.inj hd).symm
    have hmin : min (k + 1) ((assemble segs).length - 1) = k + 1 := by omega
    rwa [hmin, hcount, Nat.add_sub_cancel]

/-- A span is one separator, or without its outer separators it begins and ends in parts. -/
theorem exists_trimmed {start stop : ℕ} (hlt : start < stop) (hle : stop ≤ (assemble segs).length)
    (hmore : ¬ (stop = start + 1 ∧ (assemble segs)[start]? = some Hebrew.separator)) :
    ∃ i j, (start = i ∧ (assemble segs)[i]? ≠ some Hebrew.separator ∨
        start + 1 = i ∧ (assemble segs)[start]? = some Hebrew.separator) ∧
      (stop = j ∧ (assemble segs)[j - 1]? ≠ some Hebrew.separator ∨
        stop = j + 1 ∧ (assemble segs)[j]? = some Hebrew.separator) ∧
      i < j ∧ j < (assemble segs).length ∧ (assemble segs)[i]? ≠ some Hebrew.separator ∧
      (assemble segs)[j - 1]? ≠ some Hebrew.separator := by
  have hleft : ∃ i < stop, (start = i ∧ (assemble segs)[i]? ≠ some Hebrew.separator ∨
      start + 1 = i ∧ (assemble segs)[start]? = some Hebrew.separator) ∧
      (assemble segs)[i]? ≠ some Hebrew.separator := by
    by_cases hstart : (assemble segs)[start]? = some Hebrew.separator
    · have hone : stop ≠ start + 1 := fun h => hmore ⟨h, hstart⟩
      exact ⟨start + 1, by omega, .inr ⟨rfl, hstart⟩, separator_apart hparted hfilled hstart⟩
    · exact ⟨start, hlt, .inl ⟨rfl, hstart⟩, hstart⟩
  obtain ⟨i, hi, hstart, hfirst⟩ := hleft
  by_cases hstop : (assemble segs)[stop - 1]? = some Hebrew.separator
  · have hne : i ≠ stop - 1 := by
      rintro rfl
      exact hfirst hstop
    refine ⟨i, stop - 1, hstart, .inr ⟨by omega, hstop⟩, by omega, by omega, hfirst, fun h => ?_⟩
    have hapart := separator_apart hparted hfilled h
    rw [Nat.sub_add_cancel (by omega)] at hapart
    exact hapart hstop
  · have hend : stop ≠ (assemble segs).length := by
      rintro rfl
      exact hstop (getElem?_last segs)
    exact ⟨i, stop, hstart, .inl ⟨rfl, hstop⟩, hi, by omega, hfirst, hstop⟩

/-- A span covers the words from the first to the last one whose part it touches. One separator covers
the word after it, or the last word. -/
theorem wordRange_cases (hwords : segs ≠ []) {start stop : ℕ} (hlt : start < stop)
    (hle : stop ≤ (assemble segs).length) :
    ∃ first last, wordRange (assemble segs) start stop = .ok (first, last) ∧
      (IsLeast (touched segs start stop) first ∧ IsGreatest (touched segs start stop) last ∨
        (stop = start + 1 ∧ (assemble segs)[start]? = some Hebrew.separator) ∧ first = last ∧
          IsNextWord segs start last) := by
  by_cases hone : stop = start + 1 ∧ (assemble segs)[start]? = some Hebrew.separator
  · obtain ⟨rfl, hstart⟩ := hone
    exact ⟨_, _, wordRange_of_separator hstart,
      .inr ⟨⟨rfl, hstart⟩, rfl, isNextWord_of_separator hparted hfilled hwords hstart⟩⟩
  · obtain ⟨i, j, hstart, hstop, hij, hj, hfirst, hlast⟩ :=
      exists_trimmed hparted hfilled hlt hle hone
    refine ⟨_, _, wordRange_of_trimmed hstart hstop hij hj, .inl ?_⟩
    refine isLeast_isGreatest_of_trimmed hparted (by omega) hij (by omega) hj hfirst hlast ?_
    intro k hk hk' hsep
    constructor
    · obtain ⟨rfl, -⟩ | ⟨rfl, houter⟩ := hstart
      · exact hk
      · have hne : k ≠ start := by
          rintro rfl
          exact hsep houter
        omega
    · obtain ⟨rfl, -⟩ | ⟨rfl, houter⟩ := hstop
      · exact hk'
      · have hne : k ≠ j := by
          rintro rfl
          exact hsep houter
        omega

end

/-! ## Covered words -/

@[simp] theorem mem_insertWord {m n : ℕ} {ns : List ℕ} : m ∈ insertWord n ns ↔ m = n ∨ m ∈ ns := by
  induction ns with
  | nil => simp [insertWord]
  | cons k ns ih =>
    rw [insertWord]
    split
    · simp
    · split
      · next heq => simp [heq]
      · simp [ih, or_left_comm]

theorem pairwise_insertWord {n : ℕ} {ns : List ℕ} (h : ns.Pairwise (· < ·)) :
    (insertWord n ns).Pairwise (· < ·) := by
  induction ns with
  | nil => simp [insertWord]
  | cons k ns ih =>
    obtain ⟨hk, hns⟩ := List.pairwise_cons.mp h
    rw [insertWord]
    split
    · next hlt =>
      refine List.pairwise_cons.mpr ⟨fun m hm => ?_, h⟩
      obtain rfl | hm := List.mem_cons.mp hm
      · exact hlt
      · exact Nat.lt_trans hlt (hk m hm)
    · split
      · exact h
      · refine List.pairwise_cons.mpr ⟨fun m hm => ?_, ih hns⟩
        obtain rfl | hm := mem_insertWord.mp hm
        · omega
        · exact hk m hm

@[simp] theorem mem_insertFrom {covered : List ℕ} {first count n : ℕ} :
    n ∈ insertFrom covered first count ↔ n ∈ covered ∨ first ≤ n ∧ n < first + count := by
  induction count generalizing covered first with
  | zero =>
    rw [insertFrom]
    exact ⟨.inl, fun h => h.elim id fun h => by omega⟩
  | succ count ih =>
    rw [insertFrom, ih, mem_insertWord]
    constructor
    · rintro ((rfl | h) | h)
      · exact .inr (by omega)
      · exact .inl h
      · exact .inr (by omega)
    · rintro (h | h)
      · exact .inl (.inr h)
      · obtain rfl | hlt := Nat.eq_or_lt_of_le h.1
        · exact .inl (.inl rfl)
        · exact .inr (by omega)

theorem pairwise_insertFrom {covered : List ℕ} {first count : ℕ} (h : covered.Pairwise (· < ·)) :
    (insertFrom covered first count).Pairwise (· < ·) := by
  induction count generalizing covered first with
  | zero => exact h
  | succ count ih => exact ih (pairwise_insertWord h)

/-- The span is not empty and covers the word. -/
def Covers (s : Text) (x : ℤ × ℤ) (n : ℕ) : Prop :=
  x.1 < x.2 ∧ ∃ first last, wordRange s x.1 x.2 = .ok (first, last) ∧ first ≤ n ∧ n ≤ last

theorem covers_iff_of_range {s : Text} {x : ℤ × ℤ} {first last n : ℕ} (hlt : x.1 < x.2)
    (hrange : wordRange s x.1 x.2 = .ok (first, last)) : Covers s x n ↔ first ≤ n ∧ n ≤ last := by
  rw [Covers, hrange]
  constructor
  · rintro ⟨-, _, _, heq, hn⟩
    obtain ⟨rfl, rfl⟩ := Prod.mk.inj (Except.ok.inj heq)
    exact hn
  · intro hn
    exact ⟨hlt, first, last, rfl, hn⟩

theorem mem_coverFrom {s : Text} {covered marked : List ℕ} {spans : List (ℤ × ℤ)}
    (h : coverFrom s covered spans = .ok marked) (hsorted : covered.Pairwise (· < ·)) :
    marked.Pairwise (· < ·) ∧ ∀ n, n ∈ marked ↔ n ∈ covered ∨ ∃ x ∈ spans, Covers s x n := by
  induction spans generalizing covered with
  | nil =>
    obtain rfl := Except.ok.inj h
    exact ⟨hsorted, by simp⟩
  | cons x spans ih =>
    rw [coverFrom] at h
    split at h
    · next hempty =>
      obtain ⟨hmarked, hmem⟩ := ih h hsorted
      refine ⟨hmarked, fun n => ?_⟩
      have hnot : ¬ Covers s x n := fun hcovers => absurd hcovers.1 (not_lt.mpr hempty)
      rw [hmem, List.exists_mem_cons_iff, or_iff_right hnot]
    · next hfull =>
      cases hrange : wordRange s x.1 x.2 with
      | error e => rw [hrange] at h; cases h
      | ok range =>
        obtain ⟨first, last⟩ := range
        rw [hrange] at h
        obtain ⟨hmarked, hmem⟩ := ih h (pairwise_insertFrom hsorted)
        refine ⟨hmarked, fun n => ?_⟩
        have hcovers : Covers s x n ↔ first ≤ n ∧ n < first + (last + 1 - first) := by
          rw [covers_iff_of_range (not_le.mp hfull) hrange]
          omega
        rw [hmem, mem_insertFrom, List.exists_mem_cons_iff, hcovers, or_assoc]

theorem coverFrom_isOk_iff {s : Text} {covered : List ℕ} {spans : List (ℤ × ℤ)} :
    (∃ marked, coverFrom s covered spans = .ok marked) ↔
      ∀ x ∈ spans, x.1 < x.2 → ∃ range, wordRange s x.1 x.2 = .ok range := by
  induction spans generalizing covered with
  | nil => exact ⟨by simp, fun _ => ⟨_, rfl⟩⟩
  | cons x spans ih =>
    rw [coverFrom, List.forall_mem_cons]
    split
    · next hempty =>
      rw [ih]
      exact (and_iff_right fun hfull => absurd hfull (not_lt.mpr hempty)).symm
    · next hfull =>
      cases hrange : wordRange s x.1 x.2 with
      | error e =>
        refine ⟨fun ⟨_, h⟩ => (by cases h), fun h => ?_⟩
        obtain ⟨_, h⟩ := h.1 (not_le.mp hfull)
        cases h
      | ok range =>
        obtain ⟨first, last⟩ := range
        simp only
        rw [ih]
        exact (and_iff_right fun _ => ⟨_, rfl⟩).symm

/-- Spans inside a text cover words, of which none comes after that of the last offset. -/
theorem coveredWords_of_inside {s : Text} {spans : List (ℤ × ℤ)}
    (h : ∀ x ∈ spans, 0 ≤ x.1 ∧ x.1 < x.2 ∧ x.2 ≤ s.length) :
    ∃ covered, coveredWords s spans = .ok covered ∧ covered.Pairwise (· < ·) ∧
      (spans ≠ [] → covered ≠ []) ∧ ∀ n ∈ covered, n ≤ separatorsBefore s (s.length - 1) - 1 := by
  have hranges : ∀ x ∈ spans, ∃ first last, wordRange s x.1 x.2 = .ok (first, last) ∧
      first ≤ last ∧ last ≤ separatorsBefore s (s.length - 1) - 1 := fun x hx =>
    wordRange_of_inside (h x hx).1 (h x hx).2.1 (h x hx).2.2
  have hok : ∀ x ∈ spans, x.1 < x.2 → ∃ range, wordRange s x.1 x.2 = .ok range := fun x hx _ => by
    obtain ⟨first, last, hrange, -⟩ := hranges x hx
    exact ⟨_, hrange⟩
  obtain ⟨covered, hcovered⟩ := (@coverFrom_isOk_iff s [] _).mpr hok
  obtain ⟨hsorted, hmem⟩ := mem_coverFrom hcovered .nil
  refine ⟨covered, hcovered, hsorted, fun hne => ?_, fun n hn => ?_⟩
  · obtain ⟨x, hx⟩ := List.exists_mem_of_ne_nil spans hne
    obtain ⟨first, last, hrange, hle, -⟩ := hranges x hx
    have hcovers := (covers_iff_of_range (h x hx).2.1 hrange).mpr ⟨Nat.le_refl first, hle⟩
    exact List.ne_nil_of_mem ((hmem first).mpr (.inr ⟨x, hx, hcovers⟩))
  · obtain ⟨x, hx, hcovers⟩ := ((hmem n).mp hn).resolve_left List.not_mem_nil
    obtain ⟨first, last, hrange, -, hlast⟩ := hranges x hx
    exact ((covers_iff_of_range (h x hx).2.1 hrange).mp hcovers).2.trans hlast

/-- Spans that each cover one word cover these words, in order. -/
theorem coveredWords_of_ranges {s : Text} (word : ℕ × ℕ → ℕ) {spans : List (ℕ × ℕ)}
    (h : ∀ x ∈ spans, x.1 < x.2 ∧ wordRange s x.1 x.2 = .ok (word x, word x)) :
    ∃ marked, coveredWords s (spans.map fun (a, b) => ((a : ℤ), (b : ℤ))) = .ok marked ∧
      marked.Pairwise (· < ·) ∧ ∀ n, n ∈ marked ↔ ∃ x ∈ spans, word x = n := by
  have hranges : ∀ x ∈ spans.map fun (a, b) => ((a : ℤ), (b : ℤ)),
      x.1 < x.2 → ∃ range, wordRange s x.1 x.2 = .ok range := by
    rintro x hx -
    obtain ⟨y, hy, rfl⟩ := List.mem_map.mp hx
    exact ⟨_, (h y hy).2⟩
  obtain ⟨marked, hmarked⟩ := (@coverFrom_isOk_iff s [] _).mpr hranges
  obtain ⟨hsorted, hmem⟩ := mem_coverFrom hmarked .nil
  refine ⟨marked, hmarked, hsorted, fun n => ?_⟩
  have hcovers : ∀ x ∈ spans, Covers s ((x.1 : ℤ), (x.2 : ℤ)) n ↔ word x = n := by
    intro x hx
    obtain ⟨hlt, hrange⟩ := h x hx
    rw [covers_iff_of_range (Int.ofNat_lt.mpr hlt) hrange]
    omega
  rw [hmem, or_iff_right List.not_mem_nil]
  constructor
  · rintro ⟨x, hx, hword⟩
    obtain ⟨y, hy, rfl⟩ := List.mem_map.mp hx
    exact ⟨y, hy, (hcovers y hy).mp hword⟩
  · rintro ⟨y, hy, hword⟩
    exact ⟨_, List.mem_map_of_mem hy, (hcovers y hy).mpr hword⟩

/-! ## The search string of a verse -/

theorem wordRange_isOk_iff {segs : List Text} (hparted : Parted segs)
    (hfilled : ∀ seg ∈ segs, seg ≠ []) (hwords : segs ≠ []) {start stop : ℤ} (hlt : start < stop) :
    (∃ range, wordRange (assemble segs) start stop = .ok range) ↔
      0 ≤ start ∧ stop ≤ (assemble segs).length := by
  constructor
  · rintro ⟨range, h⟩
    unfold wordRange at h
    split at h
    · cases h
    · omega
  · rintro ⟨hstart, hstop⟩
    obtain ⟨i, rfl⟩ := Int.eq_ofNat_of_zero_le hstart
    obtain ⟨j, rfl⟩ := Int.eq_ofNat_of_zero_le (hstart.trans hlt.le)
    obtain ⟨first, last, hrange, -⟩ :=
      wordRange_cases hparted hfilled hwords (Int.ofNat_lt.mp hlt) (Int.ofNat_le.mp hstop)
    exact ⟨_, hrange⟩

/-- A span that is not empty covers the words from the first to the last one whose part of the search
string it touches; one separator covers the word after it, or the last word. Offsets have words, and
later offsets have no earlier ones. Spans inside the search string cover what those that are not empty
cover one by one. -/
theorem spans_cover_touched_words {ws : List TaggedWord} (hne : ws ≠ [])
    (hwords : ∀ w ∈ ws, ∃ n, Hebrew.normalize w.word = .ok n) (htags : ∀ w ∈ ws, 0 ≤ w.tag) :
    ∃ segs, SearchString.Lays ws segs ∧ SearchString.ofWords ws = .ok (assemble segs) ∧
      (∀ start stop : ℤ, 0 ≤ start → start < stop → stop ≤ (assemble segs).length →
        ∃ first last, wordRange (assemble segs) start stop = .ok (first, last) ∧
          (IsLeast (touched segs start stop) first ∧ IsGreatest (touched segs start stop) last ∨
            (stop = start + 1 ∧ (assemble segs)[start.toNat]? = some Hebrew.separator) ∧
              first = last ∧ IsNextWord segs start.toNat last)) ∧
      (∀ k : ℤ, 0 ≤ k → k < (assemble segs).length →
        ∃ n < ws.length, wordAt (assemble segs) k = .ok n) ∧
      (∀ (j k : ℤ) (m n : ℕ), j ≤ k → wordAt (assemble segs) j = .ok m →
        wordAt (assemble segs) k = .ok n → m ≤ n) ∧
      ∀ spans : List (ℤ × ℤ),
        ((∃ covered, coveredWords (assemble segs) spans = .ok covered) ↔
          ∀ x ∈ spans, x.1 < x.2 → 0 ≤ x.1 ∧ x.2 ≤ (assemble segs).length) ∧
        ∀ covered, coveredWords (assemble segs) spans = .ok covered →
          covered.Pairwise (· < ·) ∧ ∀ n, n ∈ covered ↔ ∃ x ∈ spans, Covers (assemble segs) x n := by
  obtain ⟨segs, hlays, hstring⟩ := SearchString.exists_lays hwords htags
  have hlength : ws.length = segs.length := hlays.length_eq
  have hsegs : segs ≠ [] := by
    rintro rfl
    exact hne (List.length_eq_zero_iff.mp hlength)
  refine ⟨segs, hlays, hstring, fun start stop hstart hlt hle => ?_, fun k hk hlt => ?_,
    fun j k m n => wordAt_mono, fun spans => ⟨?_, fun covered h => ?_⟩⟩
  · obtain ⟨i, rfl⟩ := Int.eq_ofNat_of_zero_le hstart
    obtain ⟨j, rfl⟩ := Int.eq_ofNat_of_zero_le (hstart.trans hlt.le)
    obtain ⟨first, last, hrange, hcases⟩ := wordRange_cases hlays.parted hlays.ne_nil hsegs
      (Int.ofNat_lt.mp hlt) (Int.ofNat_le.mp hle)
    refine ⟨first, last, hrange, hcases.imp id fun ⟨⟨hstop, hsep⟩, hword⟩ => ?_⟩
    exact ⟨⟨congrArg Nat.cast hstop, hsep⟩, hword⟩
  · obtain ⟨i, rfl⟩ := Int.eq_ofNat_of_zero_le hk
    rw [hlength]
    exact wordAt_lt hlays.parted hlays.ne_nil hsegs (Int.ofNat_lt.mp hlt)
  · rw [coveredWords, coverFrom_isOk_iff]
    exact forall₂_congr fun x _ => forall_congr' fun hlt =>
      wordRange_isOk_iff hlays.parted hlays.ne_nil hsegs hlt
  · obtain ⟨hsorted, hmem⟩ := mem_coverFrom h .nil
    exact ⟨hsorted, fun n => (hmem n).trans (or_iff_right List.not_mem_nil)⟩

/-- A word with a letter and one without any, in the search string ` א<1> <2> `. -/
theorem spans_cover_touched_words_of_bare_tag :
    [(⟨['א'], 1⟩ : TaggedWord), ⟨['\u05b0'], 2⟩] ≠ [] ∧
      (∀ w ∈ [(⟨['א'], 1⟩ : TaggedWord), ⟨['\u05b0'], 2⟩],
        ∃ n, Hebrew.normalize w.word = .ok n) ∧
      (∀ w ∈ [(⟨['א'], 1⟩ : TaggedWord), ⟨['\u05b0'], 2⟩], 0 ≤ w.tag) ∧
      ∃ segs, SearchString.Lays [⟨['א'], 1⟩, ⟨['\u05b0'], 2⟩] segs ∧
        SearchString.ofWords [⟨['א'], 1⟩, ⟨['\u05b0'], 2⟩] = .ok (assemble segs) ∧
        ∃ first last, wordRange (assemble segs) 4 8 = .ok (first, last) ∧
          (IsLeast (touched segs 4 8) first ∧ IsGreatest (touched segs 4 8) last ∨
            ((8 : ℤ) = 4 + 1 ∧ (assemble segs)[(4 : ℤ).toNat]? = some Hebrew.separator) ∧
              first = last ∧ IsNextWord segs (4 : ℤ).toNat last) := by
  have hne : [(⟨['א'], 1⟩ : TaggedWord), ⟨['\u05b0'], 2⟩] ≠ [] := by simp
  have hwords : ∀ w ∈ [(⟨['א'], 1⟩ : TaggedWord), ⟨['\u05b0'], 2⟩],
      ∃ n, Hebrew.normalize w.word = .ok n := by
    simp only [List.forall_mem_cons, List.not_mem_nil, false_implies, implies_true, and_true]
    exact ⟨⟨['א'], by decide +kernel⟩, ['\u05b0'], by decide +kernel⟩
  have htags : ∀ w ∈ [(⟨['א'], 1⟩ : TaggedWord), ⟨['\u05b0'], 2⟩], 0 ≤ w.tag := by decide
  obtain ⟨segs, hlays, hstring, hspans, -⟩ := spans_cover_touched_words hne hwords htags
  have hlength : (assemble segs).length = 10 := by
    have h : SearchString.ofWords [⟨['א'], 1⟩, ⟨['\u05b0'], 2⟩] = .ok " א<1> <2> ".toList := by
      decide +kernel
    rw [Except.ok.inj (hstring.symm.trans h)]
    rfl
  refine ⟨hne, hwords, htags, segs, hlays, hstring, hspans 4 8 (by omega) (by omega) ?_⟩
  rw [hlength]
  omega

end VerseSearch.Highlight
