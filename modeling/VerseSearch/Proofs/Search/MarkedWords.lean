import VerseSearch.Engine
import VerseSearch.Proofs.Matching.Scanning
import VerseSearch.Proofs.Search.Spans

/-! # The words that a search marks

* `Marks`: the words that a search marks in a verse.
* `marks_of_matches`, `word_of_match_iff`: a pattern for texts inside words marks the words in whose
  parts such a text stands.
-/

namespace VerseSearch
set_option autoImplicit false

open SearchString (assemble body Parted)

/-! ## Matches that are not empty -/

theorem nonemptyMatches_eq_findAll {p : Pattern} (hplain : p.node.IsPlain) (hp : p.Progressive)
    (s : Text) : nonemptyMatches p s = p.findAll s := by
  refine List.filter_eq_self.mpr fun x hx => ?_
  simpa using (Pattern.mem_findAll hplain hp hx).lt hp

/-- A pattern has a match if a text of its language stands somewhere. -/
theorem nonemptyMatches_ne_nil_iff {p : Pattern} {L : Language Char} (hp : p.node.Denotes L)
    (hne : ∀ u ∈ L, u ≠ []) {s : Text} : nonemptyMatches p s ≠ [] ↔ ∃ u ∈ L, u <:+: s := by
  have hprogressive := hp.progressive hne
  rw [nonemptyMatches_eq_findAll hp.1 hprogressive]
  constructor
  · intro h
    obtain ⟨x, hx⟩ := List.exists_mem_of_ne_nil _ h
    obtain ⟨before, u, after, rfl, -, -, hu⟩ := Pattern.mem_findAll hp.1 hprogressive hx
    exact ⟨u, (hp.2 _ _ _).mp hu, before, after, by rw [List.append_assoc]⟩
  · rintro ⟨u, hu, before, after, rfl⟩
    have hmatch : p.MatchesAt (before ++ u ++ after) before.length (before ++ u).length :=
      ⟨before, u, after, by rw [List.append_assoc], rfl, rfl, (hp.2 _ _ _).mpr hu⟩
    obtain ⟨x, hx, -⟩ := Pattern.findAll_covers hp.1 hprogressive hmatch
    exact List.ne_nil_of_mem hx

/-! ## Matches inside words -/

/-- The span `x` holds the text `u` in the part of the word with number `n`, between `a` and `c`. -/
def SpanAt (segs : List Text) (x : ℕ × ℕ) (n : ℕ) (a u c : Text) : Prop :=
  ∃ pre post, segs = pre ++ (a ++ (u ++ c)) :: post ∧ pre.length = n ∧
    x = ((assemble pre ++ a).length, (assemble pre ++ a).length + u.length)

theorem SpanAt.getElem? {segs : List Text} {x : ℕ × ℕ} {n : ℕ} {a u c : Text}
    (h : SpanAt segs x n a u c) : segs[n]? = some (a ++ (u ++ c)) := by
  obtain ⟨pre, post, rfl, rfl, -⟩ := h
  simp

/-- The number of the word at the start of a span. -/
def wordOf (segs : List Text) (x : ℕ × ℕ) : ℕ :=
  ((assemble segs).take x.1).count Hebrew.separator - 1

/-- A pattern for a language of texts that stand inside words. -/
structure WordPattern (p : Pattern) (L : Language Char) : Prop where
  denotes : p.node.Denotes L
  inner : ∀ u ∈ L, u ≠ [] ∧ Hebrew.separator ∉ u

theorem WordPattern.progressive {p : Pattern} {L : Language Char} (hp : WordPattern p L) :
    p.Progressive := hp.denotes.progressive fun u hu => (hp.inner u hu).1

theorem WordPattern.nonemptyMatches_eq {p : Pattern} {L : Language Char} (hp : WordPattern p L)
    (s : Text) : nonemptyMatches p s = p.findAll s :=
  nonemptyMatches_eq_findAll hp.denotes.1 hp.progressive s

theorem spanAt_of_match {p : Pattern} {L : Language Char} (hp : WordPattern p L) {segs : List Text}
    {x : ℕ × ℕ} (hx : x ∈ nonemptyMatches p (assemble segs)) :
    ∃ n a u c, u ∈ L ∧ SpanAt segs x n a u c := by
  rw [hp.nonemptyMatches_eq] at hx
  obtain ⟨before, u, after, hs, hstart, hstop, hu⟩ :=
    Pattern.mem_findAll hp.denotes.1 hp.progressive hx
  have huL := (hp.denotes.2 _ _ _).mp hu
  obtain ⟨hne, hsep⟩ := hp.inner u huL
  obtain ⟨pre, a, c, post, hsegs, rfl, -⟩ := SearchString.split_within hne hsep hs
  refine ⟨pre.length, a, u, c, huL, pre, post, hsegs, rfl, ?_⟩
  rw [List.length_append] at hstop
  exact Prod.ext hstart hstop

section
variable {segs : List Text} (hparted : Parted segs)
include hparted

theorem SpanAt.wordOf_eq {x : ℕ × ℕ} {n : ℕ} {a u c : Text} (h : SpanAt segs x n a u c) :
    wordOf segs x = n := by
  obtain ⟨pre, post, hsegs, rfl, rfl⟩ := h
  have hcount := Highlight.count_take_within (k := 0) hparted hsegs (Nat.zero_le _)
  rw [wordOf, ← Nat.add_zero (assemble pre ++ a).length, hcount, Nat.add_sub_cancel]

/-- Spans of which one begins inside the other belong to one word. -/
theorem SpanAt.word_eq_of_mem {x y : ℕ × ℕ} {m n : ℕ} {a b u v c d : Text}
    (hx : SpanAt segs x m a u c) (hy : SpanAt segs y n b v d) (hle : x.1 ≤ y.1) (hlt : y.1 < x.2) :
    m = n := by
  obtain ⟨pre, post, hsegs, rfl, rfl⟩ := hx
  obtain ⟨pre', post', hsegs', rfl, rfl⟩ := hy
  have hx := Highlight.count_take_within (k := (assemble pre' ++ b).length - (assemble pre ++ a).length)
    hparted hsegs (by simp only at hle hlt; omega)
  have hy := Highlight.count_take_within (k := 0) hparted hsegs' (Nat.zero_le _)
  rw [Nat.add_sub_cancel' hle, ← Nat.add_zero (assemble pre' ++ b).length, hy] at hx
  omega

variable {p : Pattern} {L : Language Char} (hp : WordPattern p L)
include hp

theorem exists_match {n : ℕ} {a u c : Text} (hn : segs[n]? = some (a ++ (u ++ c))) (hu : u ∈ L) :
    ∃ x ∈ nonemptyMatches p (assemble segs), wordOf segs x = n := by
  obtain ⟨hlt, hget⟩ := List.getElem?_eq_some_iff.mp hn
  have hsegs : segs = segs.take n ++ (a ++ (u ++ c)) :: segs.drop (n + 1) := by
    rw [← hget, ← List.drop_eq_getElem_cons hlt, List.take_append_drop]
  have hspan : SpanAt segs _ n a u c :=
    ⟨segs.take n, segs.drop (n + 1), hsegs, List.length_take_of_le (by omega), rfl⟩
  have hmatch : p.MatchesAt (assemble segs) (assemble (segs.take n) ++ a).length
      ((assemble (segs.take n) ++ a).length + u.length) := by
    exact ⟨_, u, _, Highlight.assemble_split hsegs, rfl, List.length_append.symm,
      (hp.denotes.2 _ _ _).mpr hu⟩
  obtain ⟨x, hx, hle, hlt'⟩ := Pattern.findAll_covers hp.denotes.1 hp.progressive hmatch
  rw [← hp.nonemptyMatches_eq] at hx
  obtain ⟨m, b, v, d, -, hxspan⟩ := spanAt_of_match hp hx
  refine ⟨x, hx, (hxspan.wordOf_eq hparted).trans ?_⟩
  exact hxspan.word_eq_of_mem hparted hspan hle hlt'

theorem wordRange_of_match {x : ℕ × ℕ} (hx : x ∈ nonemptyMatches p (assemble segs)) : x.1 < x.2 ∧
    Highlight.wordRange (assemble segs) x.1 x.2 = .ok (wordOf segs x, wordOf segs x) := by
  obtain ⟨n, a, u, c, hu, hspan⟩ := spanAt_of_match hp hx
  rw [hspan.wordOf_eq hparted]
  obtain ⟨pre, post, hsegs, rfl, rfl⟩ := hspan
  have hne := (hp.inner u hu).1
  have := List.length_pos_iff.mpr hne
  exact ⟨by omega, Highlight.wordRange_within hparted hsegs hne⟩

end

/-! ## Marks -/

/-- A search marks the given words of a verse: without any the verse is no result, and with some it
is a result that covers them, unless its place has no numeral. -/
structure Marks (p : Pattern) (v : IndexedVerse) (marked : List ℕ) : Prop where
  none : marked = [] → matchVerse p v = .ok none
  some : marked ≠ [] → ∀ place, v.location = .ok place →
    ∃ r, matchVerse p v = .ok (some r) ∧ r.coveredWords = marked
  unplaced : marked ≠ [] → ∀ e, v.location = .error e → matchVerse p v = .error (.numeral e)

theorem marks_of_coveredWords {p : Pattern} {v : IndexedVerse} {marked : List ℕ}
    (h : Highlight.coveredWords v.searchString
      ((nonemptyMatches p v.searchString).map fun (a, b) => ((a : ℤ), (b : ℤ))) = .ok marked)
    (hne : nonemptyMatches p v.searchString = [] ↔ marked = []) : Marks p v marked := by
  cases hm : nonemptyMatches p v.searchString with
  | nil =>
    have hnil : marked = [] := hne.mp hm
    refine ⟨fun _ => ?_, fun h => absurd hnil h, fun h => absurd hnil h⟩
    rw [matchVerse, hm]
  | cons x spans =>
    have hmarked : marked ≠ [] := fun h => List.cons_ne_nil x spans (hm ▸ hne.mpr h)
    rw [hm] at h
    refine ⟨fun hnil => absurd hnil hmarked, fun _ place hplace => ?_, fun _ e he => ?_⟩
    · obtain ⟨chapter, hchapter, hrest⟩ := ok_of_bind hplace
      obtain ⟨verse, hverse, -⟩ := ok_of_bind hrest
      rw [matchVerse, hm]
      simp only [h, hchapter, hverse, hplace]
      exact ⟨_, rfl, rfl⟩
    · rw [matchVerse, hm]
      simp only [h, he]
      rw [IndexedVerse.location] at he
      cases hchapter : Numeral.ofIndex v.chapter with
      | error e' =>
        rw [hchapter] at he
        rw [Except.error.inj he]
      | ok chapter =>
        rw [hchapter] at he
        cases hverse : Numeral.ofIndex v.verse with
        | error e' =>
          simp only [hverse] at he
          rw [Except.error.inj he]
        | ok verse =>
          simp only [hverse] at he
          cases he

/-- Matches that each cover one word mark these words. -/
theorem marks_of_ranges {p : Pattern} {v : IndexedVerse} (word : ℕ × ℕ → ℕ)
    (h : ∀ x ∈ nonemptyMatches p v.searchString, x.1 < x.2 ∧
      Highlight.wordRange v.searchString x.1 x.2 = .ok (word x, word x)) :
    ∃ marked, Marks p v marked ∧ marked.Pairwise (· < ·) ∧
      ∀ n, n ∈ marked ↔ ∃ x ∈ nonemptyMatches p v.searchString, word x = n := by
  obtain ⟨marked, hcovered, hsorted, hmem⟩ := Highlight.coveredWords_of_ranges word h
  refine ⟨marked, marks_of_coveredWords hcovered ?_, hsorted, hmem⟩
  rw [List.eq_nil_iff_forall_not_mem, List.eq_nil_iff_forall_not_mem]
  constructor
  · rintro h n hn
    obtain ⟨x, hx, -⟩ := (hmem n).mp hn
    exact h x hx
  · rintro h x hx
    exact h _ ((hmem _).mpr ⟨x, hx, rfl⟩)

section
variable {p : Pattern} {L : Language Char} (hp : WordPattern p L) {segs : List Text}
  (hparted : Parted segs)
include hp hparted

/-- A pattern for texts inside words marks the words of its matches. -/
theorem marks_of_matches {v : IndexedVerse} (hv : v.searchString = assemble segs) :
    ∃ marked, Marks p v marked ∧ marked.Pairwise (· < ·) ∧
      ∀ n, n ∈ marked ↔ ∃ x ∈ nonemptyMatches p (assemble segs), wordOf segs x = n := by
  rw [← hv]
  refine marks_of_ranges (wordOf segs) fun x hx => ?_
  rw [hv] at hx ⊢
  exact wordRange_of_match hparted hp hx

/-- The words of the matches are those in whose parts a text of the language stands. -/
theorem word_of_match_iff {n : ℕ} : (∃ x ∈ nonemptyMatches p (assemble segs), wordOf segs x = n) ↔
    ∃ seg, segs[n]? = some seg ∧ ∃ u ∈ L, u <:+: seg := by
  constructor
  · rintro ⟨x, hx, rfl⟩
    obtain ⟨n, a, u, c, hu, hspan⟩ := spanAt_of_match hp hx
    rw [hspan.wordOf_eq hparted]
    exact ⟨_, hspan.getElem?, u, hu, a, c, by rw [List.append_assoc]⟩
  · rintro ⟨seg, hseg, u, hu, a, c, rfl⟩
    exact exists_match hparted hp (by rwa [← List.append_assoc]) hu

/-- If every match ends with the part of its word, no word has two matches. -/
theorem pairwise_wordOf (hend : ∀ x n a u c, u ∈ L → SpanAt segs x n a u c → c = []) :
    (nonemptyMatches p (assemble segs)).Pairwise fun x y => wordOf segs x < wordOf segs y := by
  have hpairs := Pattern.findAll_pairwise hp.denotes.1 hp.progressive (s := assemble segs)
  rw [← hp.nonemptyMatches_eq] at hpairs
  refine hpairs.imp_of_mem fun {x y} hx hy hle => ?_
  obtain ⟨m, a, u, c, hu, hxspan⟩ := spanAt_of_match hp hx
  obtain ⟨n, b, w, d, hw, hyspan⟩ := spanAt_of_match hp hy
  have hle' : wordOf segs x ≤ wordOf segs y := by
    have hlt := (wordRange_of_match hparted hp hx).1
    exact Nat.sub_le_sub_right (List.Sublist.count_le _ (List.take_sublist_take_left (by omega))) 1
  refine lt_of_le_of_ne hle' fun heq => ?_
  rw [hxspan.wordOf_eq hparted, hyspan.wordOf_eq hparted] at heq
  obtain rfl := hend x m a u c hu hxspan
  obtain rfl := hend y n b w d hw hyspan
  obtain ⟨pre, post, hsegs, rfl, rfl⟩ := hxspan
  obtain ⟨pre', post', hsegs', rfl, rfl⟩ := hyspan
  obtain ⟨rfl, hparts⟩ := List.append_inj (hsegs.symm.trans hsegs') heq
  have hlength := congrArg List.length (List.cons.inj hparts).1
  have hpos := List.length_pos_iff.mpr (hp.inner w hw).1
  simp only [List.length_append, List.length_nil] at hle hlength
  omega

end

end VerseSearch
