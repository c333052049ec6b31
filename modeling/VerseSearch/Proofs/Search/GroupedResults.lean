import VerseSearch.Proofs.Search.FirstResults
import VerseSearch.Proofs.Search.Grouping

/-! # Searches for words in parentheses

With the tag before the words, a match takes in the end of the word that it belongs to.

* `wordRange_widen`: a span that begins before a separator covers one word more.
* `tagStart_lt_iff`: which words have a tag that is taken into a match.
* `mem_marked_grouped`: the words that are marked.
* `GroupedResult`: the two results in one verse.
* `search_grouped`: what a search for words in parentheses gives.
-/

namespace VerseSearch.Query
set_option autoImplicit false

open Pattern (SpanOf)
open SearchString (assemble body Parted)
open Highlight (Covers covers_iff_of_range separatorsBefore separatorsBefore_of_between
  separatorsBefore_succ_of_separator wordRange)

/-! ## Words before matches -/

/-- The place at which the last word of a span is looked up. -/
def lastPlace (s : Text) (j : ℕ) : ℤ :=
  min (if s[j - 1]? = some Hebrew.separator then (j : ℤ) - 1 else j) ((s.length : ℤ) - 1)

/-- A span that begins with a separator covers words from the one after it on. -/
theorem wordRange_lead {s : Text} {i j first last : ℕ} (hij : i + 1 < j)
    (hi : s[i]? = some Hebrew.separator) (h : wordRange s i j = .ok (first, last)) :
    j ≤ s.length ∧ first = separatorsBefore s i ∧ Highlight.wordAt s (lastPlace s j) = .ok last := by
  rw [wordRange] at h
  split at h
  · cases h
  next hbounds =>
  have htrim : (if (i : ℤ) < j ∧ s[(i : ℤ).toNat]? = some Hebrew.separator then (i : ℤ) + 1 else i) =
      i + 1 := if_pos ⟨by omega, hi⟩
  have hstop : ((i : ℤ) + 1 < j ∧ s[(j : ℤ).toNat - 1]? = some Hebrew.separator) =
      (s[j - 1]? = some Hebrew.separator) := by
    rw [eq_true (show (i : ℤ) + 1 < j by omega), true_and, Int.toNat_natCast]
  have hmin : min ((i : ℤ) + 1) ((s.length : ℤ) - 1) = (i + 1 : ℕ) := by omega
  have hfirst := Highlight.wordAt_eq (s := s) (k := i + 1) (by omega)
  rw [separatorsBefore_succ_of_separator hi, Nat.add_sub_cancel] at hfirst
  simp only [htrim, hmin, hfirst, hstop] at h
  split at h
  · next h' => cases h'
  · cases h
  · next first' final hok hlast =>
    obtain ⟨rfl, rfl⟩ := Prod.mk.inj (Except.ok.inj h)
    exact ⟨by omega, (Except.ok.inj hok).symm, hlast⟩

/-- A span that begins before a separator, after the separator before it, covers one word more. -/
theorem wordRange_widen {s : Text} {k i j first last : ℕ} (hk : k < i) (hij : i + 1 < j)
    (hi : s[i]? = some Hebrew.separator)
    (hbetween : ∀ m, k ≤ m → m < i → s[m]? ≠ some Hebrew.separator)
    (h : wordRange s i j = .ok (first, last)) : wordRange s k j = .ok (first - 1, last) := by
  obtain ⟨hj, rfl, hlast⟩ := wordRange_lead hij hi h
  have htrim : (if (k : ℤ) < j ∧ s[(k : ℤ).toNat]? = some Hebrew.separator then (k : ℤ) + 1 else k) =
      k := if_neg fun h => hbetween k le_rfl hk h.2
  have hstop : ((k : ℤ) < j ∧ s[(j : ℤ).toNat - 1]? = some Hebrew.separator) =
      (s[j - 1]? = some Hebrew.separator) := by
    rw [eq_true (show (k : ℤ) < j by omega), true_and, Int.toNat_natCast]
  have hmin : min (k : ℤ) ((s.length : ℤ) - 1) = k := by omega
  have hfirst := Highlight.wordAt_eq (s := s) (k := k) (by omega)
  rw [← separatorsBefore_of_between hk.le (by omega) hbetween] at hfirst
  rw [lastPlace] at hlast
  rw [wordRange, if_neg (by omega)]
  simp only [htrim, hstop, hmin, hfirst, hlast]

/-! ## Tags in search strings -/

/-- The part of a word in a search string. -/
def IsPart (w : TaggedWord) (seg : Text) : Prop :=
  ∃ form, Hebrew.searchable w.word = .ok form ∧ seg = SearchString.segment form (Text.ofInt w.tag)

theorem parts_of_segments {ws : List TaggedWord} {segs : List Text}
    (h : SearchString.segments (ws.map fun w => (w.word, Text.ofInt w.tag)) = .ok segs) :
    List.Forall₂ IsPart ws segs := by
  induction ws generalizing segs with
  | nil =>
    obtain rfl := Except.ok.inj h
    exact .nil
  | cons w ws ih =>
    rw [List.map_cons, SearchString.segments] at h
    cases hform : Hebrew.searchable w.word with
    | error e =>
      rw [hform] at h
      cases h
    | ok form =>
      rw [hform] at h
      obtain ⟨rest, hrest, rfl⟩ := ok_of_map h
      exact .cons ⟨form, hform, rfl⟩ (ih hrest)

/-- Whatever its tags, the search string of a verse is made of the parts of its words. -/
theorem parts_of_indexVerse {index : ℕ} {book : Text} {chapter verse : ℕ} {ws : List TaggedWord}
    {v : IndexedVerse} (h : VerseIndex.indexVerse index book chapter verse ws = .ok v) :
    ∃ segs, List.Forall₂ IsPart ws segs ∧ v.searchString = assemble segs := by
  obtain ⟨ns, s, -, hs, rfl⟩ := VerseIndex.indexVerse_eq_ok_iff.mp h
  rw [SearchString.ofWords, SearchString.ofTexts] at hs
  obtain ⟨segs, hsegs, rfl⟩ := ok_of_map hs
  exact ⟨segs, parts_of_segments hsegs, rfl⟩

theorem mem_ofInt {n : ℤ} {c : Char} (hc : c ∈ Text.ofInt n) : c = '-' ∨ c ∈ Text.digits := by
  cases n with
  | ofNat n => exact .inr (Text.mem_digits_of_mem_ofNat hc)
  | negSucc n => exact (List.mem_cons.mp hc).imp_right Text.mem_digits_of_mem_ofNat

theorem IsPart.separator_not_mem {w : TaggedWord} {seg : Text} (h : IsPart w seg) :
    Hebrew.separator ∉ seg := by
  obtain ⟨form, hform, rfl⟩ := h
  rw [SearchString.segment_eq]
  simp only [List.mem_append, List.mem_cons, List.not_mem_nil, or_false]
  rintro (h | h | h | h)
  · exact absurd (SearchString.letters_of_searchable hform _ h) (by decide)
  · exact absurd h (by decide)
  · obtain h | h := mem_ofInt h
    · exact absurd h (by decide)
    · exact absurd h (by decide)
  · exact absurd h (by decide)

theorem exists_part {ws : List TaggedWord} {segs : List Text} (h : List.Forall₂ IsPart ws segs) {n : ℕ}
    {seg : Text} (hseg : segs[n]? = some seg) : ∃ w, ws[n]? = some w ∧ IsPart w seg := by
  induction h generalizing n with
  | nil => simp at hseg
  | @cons w seg' ws segs hpart _ ih =>
    cases n with
    | zero =>
      obtain rfl := Option.some.inj hseg
      exact ⟨w, rfl, hpart⟩
    | succ n => exact ih hseg

theorem parted_of_parts {ws : List TaggedWord} {segs : List Text} (h : List.Forall₂ IsPart ws segs) :
    Parted segs := by
  intro seg hseg
  obtain ⟨w, -, hpart⟩ := exists_of_forall₂ h seg hseg
  exact hpart.separator_not_mem

/-- A part ends with a tag that a slot admits if its tag is not negative. -/
theorem IsPart.ends_with_slot_iff {w : TaggedWord} {seg : Text} (h : IsPart w seg) :
    (∃ a slot, slot ∈ slotLanguage ∧ slot ≠ [] ∧ seg = a ++ slot) ↔ 0 ≤ w.tag := by
  obtain ⟨form, hform, rfl⟩ := h
  rw [SearchString.segment_eq]
  constructor
  · rintro ⟨a, slot, hslot, hne, heq⟩
    obtain rfl | ⟨digits, -, hdigits, rfl⟩ := mem_slotLanguage.mp hslot
    · exact absurd rfl hne
    -- '<' stands in the part only once, so the tag of the part and the slot begin at one place
    have hopen : '<' ∉ form := fun h =>
      absurd (SearchString.letters_of_searchable hform _ h) (by decide)
    have hrest : '<' ∉ Text.ofInt w.tag ++ ['>'] := by
      simp only [List.mem_append, List.mem_singleton]
      rintro (h | h)
      · obtain h | h := mem_ofInt h
        · exact absurd h (by decide)
        · exact absurd h (by decide)
      · exact absurd h (by decide)
    have htags : Text.ofInt w.tag ++ ['>'] = digits ++ ['>'] := by
      obtain ⟨c, -, hc⟩ | ⟨c, hc', hc⟩ := List.append_eq_append_iff.mp heq
      · cases c with
        | nil => exact (List.cons.inj hc).2
        | cons d c => exact absurd ((List.cons.inj hc).2 ▸ by simp) hrest
      · cases c with
        | nil => exact (List.cons.inj hc).2.symm
        | cons d c =>
          obtain rfl : '<' = d := (List.cons.inj hc).1
          exact absurd (hc' ▸ by simp) hopen
    rw [← List.append_cancel_right htags] at hdigits
    cases htag : w.tag with
    | ofNat n => exact Int.natCast_nonneg n
    | negSucc n =>
      rw [htag] at hdigits
      exact absurd (hdigits '-' (by simp [Text.ofInt])) (by decide)
  · intro htag
    obtain ⟨n, hn⟩ := Int.eq_ofNat_of_zero_le htag
    rw [hn]
    exact ⟨form, _, tag_mem_slotLanguage n, by simp, rfl⟩

/-- A text with a slot at its end that ends with a part has the slot at the end of the part. -/
theorem part_ends_with_slot {before seg b slot : Text} (hslot : slot ∈ slotLanguage)
    (h : b ++ slot = (before ++ [Hebrew.separator]) ++ seg) : ∃ a, seg = a ++ slot := by
  obtain ⟨c, hc, rfl⟩ | ⟨c, -, rfl⟩ := List.append_eq_append_iff.mp h
  · obtain rfl | ⟨c, d, rfl⟩ := List.eq_nil_or_concat c
    · exact ⟨[], rfl⟩
    · rw [List.concat_eq_append, ← List.append_assoc] at hc
      obtain ⟨-, hd⟩ := List.append_inj' hc rfl
      refine absurd ?_ (SearchString.separator_not_mem_slot hslot)
      simp [List.cons.inj hd]
  · exact ⟨c, rfl⟩

/-- The tag before a separator is that of the word before it. -/
theorem tagStart_lt_iff {ws : List TaggedWord} {segs : List Text} (h : List.Forall₂ IsPart ws segs)
    {i : ℕ} (hi : (assemble segs)[i]? = some Hebrew.separator) :
    tagStart (assemble segs) i < i ↔ ∃ n w, separatorsBefore (assemble segs) i = n + 1 ∧
      ws[n]? = some w ∧ 0 ≤ w.tag := by
  have hparted := parted_of_parts h
  obtain ⟨hlt, hget⟩ := List.getElem?_eq_some_iff.mp hi
  obtain ⟨pre, post, hsegs, hbefore, -, hcount⟩ := Highlight.parts_of_separator hparted hi
  have hlength : ((assemble segs).take i).length = i := List.length_take_of_le hlt.le
  rw [hcount]
  -- the first separator has no part before it, so neither side holds there
  obtain rfl | ⟨pre, seg, rfl⟩ := List.eq_nil_or_concat pre
  · have hzero : i = 0 := by
      have := congrArg List.length hbefore
      rw [List.length_append, hlength] at this
      simpa [SearchString.assemble_eq, body] using this
    simp [hzero]
  · rw [List.concat_eq_append] at hsegs hbefore ⊢
    have hseg : segs[pre.length]? = some seg := by simp [hsegs]
    obtain ⟨w, hw, hpart⟩ := exists_part h hseg
    have hbefore : (assemble segs).take i = assemble pre ++ seg := by
      rw [SearchString.assemble_append, SearchString.body_cons, ← List.append_assoc] at hbefore
      exact List.append_inj_left' hbefore rfl
    have htag : (∃ n w, (pre ++ [seg]).length = n + 1 ∧ ws[n]? = some w ∧ 0 ≤ w.tag) ↔ 0 ≤ w.tag := by
      simp [hw]
    rw [htag, ← hpart.ends_with_slot_iff]
    constructor
    · intro hstart
      obtain ⟨b, slot, after, heq, hb, hstop, hslot⟩ := tagStart_spec (Nat.le_of_lt hlt)
      obtain ⟨before, hends⟩ := SearchString.assemble_ends pre
      have hne : slot ≠ [] := by
        rintro rfl
        rw [List.append_nil] at hstop
        omega
      have htake : (assemble segs).take i = b ++ slot := by
        rw [heq, ← List.append_assoc, hstop, List.take_left]
      rw [htake, hends] at hbefore
      obtain ⟨a, ha⟩ := part_ends_with_slot hslot hbefore
      exact ⟨a, slot, hslot, hne, ha⟩
    · rintro ⟨a, slot, hslot, hne, rfl⟩
      rw [← List.append_assoc] at hbefore
      have hpos := List.length_pos_iff.mpr hne
      have hstop : i = ((assemble pre ++ a) ++ slot).length := by rw [← hbefore, hlength]
      have hspan : SpanOf slotLanguage (assemble segs) (assemble pre ++ a).length i := by
        refine ⟨_, slot, Hebrew.separator :: (assemble segs).drop (i + 1), ?_, rfl, hstop, hslot⟩
        rw [← List.append_assoc, ← hbefore, ← hget, ← List.drop_eq_getElem_cons hlt,
          List.take_append_drop]
      have hle := tagStart_le hspan
      rw [List.length_append] at hstop
      omega

/-! ## Marked words -/

/-- A match that is not empty begins with the word. -/
def IsFirstWord (p : Pattern) (s : Text) (n : ℕ) : Prop :=
  ∃ x ∈ nonemptyMatches p s, ∃ last, wordRange s x.1 x.2 = .ok (n, last)

section
variable {p q : Pattern} {trail : Bool} {words : List Text} (hwords : words ≠ [])
  (hletters : ∀ w ∈ words, w ≠ [] ∧ IsLetters w)
  (hp : p.node.Denotes (phraseLanguage true trail words))
include hwords hletters hp

theorem match_lead {s : Text} {x : ℕ × ℕ} (hx : x ∈ nonemptyMatches p s) :
    s[x.1]? = some Hebrew.separator ∧ x.1 + 1 < x.2 ∧ x.2 ≤ s.length := by
  have hprog := hp.progressive (ne_nil_of_mem_phrase hwords hletters true trail)
  have hmatch := Pattern.mem_findAll hp.1 hprog (List.mem_of_mem_filter hx)
  exact spanOf_lead hwords hletters ((Pattern.matchesAt_iff_spanOf hp).mp hmatch)

theorem wordRange_of_match_lead {s : Text} {x : ℕ × ℕ} (hx : x ∈ nonemptyMatches p s) :
    ∃ last, separatorsBefore s x.1 ≤ last ∧
      wordRange s x.1 x.2 = .ok (separatorsBefore s x.1, last) := by
  obtain ⟨hsep, hlt, hle⟩ := match_lead hwords hletters hp hx
  obtain ⟨first, last, hrange, hwords, -⟩ := Highlight.wordRange_of_inside (s := s)
    (Int.natCast_nonneg x.1) (show (x.1 : ℤ) < x.2 by omega) (by omega)
  obtain ⟨-, rfl, -⟩ := wordRange_lead hlt hsep hrange
  exact ⟨last, hwords, hrange⟩

theorem isFirstWord_iff {s : Text} {n : ℕ} : IsFirstWord p s n ↔
    ∃ x ∈ nonemptyMatches p s, separatorsBefore s x.1 = n := by
  refine exists_congr fun x => and_congr_right fun hx => ?_
  obtain ⟨last, -, hrange⟩ := wordRange_of_match_lead hwords hletters hp hx
  simp [hrange]

variable (hq : q.node.Denotes (slotLanguage * phraseLanguage true trail words))
include hq

theorem nonemptyMatches_grouped (s : Text) :
    nonemptyMatches q s = (nonemptyMatches p s).map fun x => (tagStart s x.1, x.2) := by
  have hne := ne_nil_of_mem_phrase hwords hletters true trail
  have hne' := ne_nil_of_mem_slot_phrase hwords hletters trail
  rw [nonemptyMatches_eq_findAll hp.1 (hp.progressive hne),
    nonemptyMatches_eq_findAll hq.1 (hq.progressive hne'), findAll_grouped hwords hletters hp hq]

omit hq in
/-- In parentheses, a match covers the word of the tag before it, too. -/
theorem covers_grouped {s : Text} {i j : ℕ} (hx : (i, j) ∈ nonemptyMatches p s) (n : ℕ) :
    Covers s (tagStart s i, j) n ↔
      Covers s (i, j) n ∨ tagStart s i < i ∧ separatorsBefore s i = n + 1 := by
  obtain ⟨hsep, hlt, hle⟩ := match_lead hwords hletters hp hx
  obtain ⟨last, hlast, hrange⟩ := wordRange_of_match_lead hwords hletters hp hx
  simp only at hsep hlt hle hlast hrange
  have hspan : (i : ℤ) < j := by omega
  rw [@covers_iff_of_range s (i, j) _ _ n hspan hrange]
  obtain heq | hwide := Nat.eq_or_lt_of_le (tagStart_spec (s := s) (i := i) (by omega)).le
  · rw [heq, @covers_iff_of_range s (i, j) _ _ n hspan hrange]
    omega
  · have hbetween : ∀ m, tagStart s i ≤ m → m < i → s[m]? ≠ some Hebrew.separator := fun m =>
      not_separator_of_tagStart_le (by omega)
    have hspan' : (tagStart s i : ℤ) < j := by omega
    have hrange' := wordRange_widen hwide hlt hsep hbetween hrange
    rw [@covers_iff_of_range s (tagStart s i, j) _ _ n hspan' hrange']
    omega

/-- In parentheses, a search marks also the word before each match, if it has a tag that is not
negative. -/
theorem mem_marked_grouped {index : ℕ} {book : Text} {chapter verse : ℕ} {ws : List TaggedWord}
    {v : IndexedVerse} (hv : VerseIndex.indexVerse index book chapter verse ws = .ok v)
    {marked marked' : List ℕ}
    (h : Highlight.coveredWords v.searchString (matchSpans p v.searchString) = .ok marked)
    (h' : Highlight.coveredWords v.searchString (matchSpans q v.searchString) = .ok marked') (n : ℕ) :
    n ∈ marked' ↔ n ∈ marked ∨
      (∃ tag, v.tags[n]? = some tag ∧ 0 ≤ tag) ∧ IsFirstWord p v.searchString (n + 1) := by
  obtain ⟨segs, hparts, hstring⟩ := parts_of_indexVerse hv
  obtain ⟨ns, s, -, -, hverse⟩ := VerseIndex.indexVerse_eq_ok_iff.mp hv
  -- the separator that a match begins with ends word `n`, whose tag decides whether the slot takes it
  have htags : ∀ x ∈ nonemptyMatches p v.searchString, separatorsBefore v.searchString x.1 = n + 1 →
      (tagStart v.searchString x.1 < x.1 ↔ ∃ tag, v.tags[n]? = some tag ∧ 0 ≤ tag) := by
    intro x hx hn
    have hsep := (match_lead hwords hletters hp hx).1
    rw [hstring] at hsep hn ⊢
    rw [tagStart_lt_iff hparts hsep, hn, hverse]
    simp
  obtain ⟨-, hmem⟩ := Highlight.mem_coverFrom h .nil
  obtain ⟨-, hmem'⟩ := Highlight.mem_coverFrom h' .nil
  rw [hmem, hmem', or_iff_right List.not_mem_nil, or_iff_right List.not_mem_nil,
    isFirstWord_iff hwords hletters hp, matchSpans, matchSpans,
    nonemptyMatches_grouped hwords hletters hp hq]
  rw [List.map_map]
  constructor
  · rintro ⟨y, hy, hcover⟩
    obtain ⟨⟨i, j⟩, hx, rfl⟩ := List.mem_map.mp hy
    obtain hcover | ⟨hlt, hn⟩ := (covers_grouped hwords hletters hp hx n).mp hcover
    · exact .inl ⟨_, List.mem_map_of_mem hx, hcover⟩
    · exact .inr ⟨(htags _ hx hn).mp hlt, _, hx, hn⟩
  · rintro (⟨y, hy, hcover⟩ | ⟨htag, ⟨i, j⟩, hx, hn⟩)
    · obtain ⟨⟨i, j⟩, hx, rfl⟩ := List.mem_map.mp hy
      exact ⟨_, List.mem_map_of_mem hx, (covers_grouped hwords hletters hp hx n).mpr (.inl hcover)⟩
    · exact ⟨_, List.mem_map_of_mem hx,
        (covers_grouped hwords hletters hp hx n).mpr (.inr ⟨(htags _ hx hn).mpr htag, hn⟩)⟩

end

/-! ## Results -/

/-- The results of a query and of the query in parentheses that show one verse. In parentheses, a query
that begins with a space marks also the word before each match, if it has a tag that is not negative. -/
structure GroupedResult (lead : Bool) (p q : Pattern) (v : IndexedVerse) (r r' : VerseResult) : Prop where
  left : Shows p v r
  right : Shows q v r'
  same : lead = false → r' = r
  sorted : r'.coveredWords.Pairwise (· < ·)
  marked : ∀ n, n ∈ r'.coveredWords ↔ n ∈ r.coveredWords ∨ lead = true ∧
    (∃ tag, r.tags[n]? = some tag ∧ 0 ≤ tag) ∧ IsFirstWord p v.searchString (n + 1)

/-- The results of a query and of the query in parentheses that show one verse of those given. -/
def GroupedIn (lead : Bool) (p q : Pattern) (vs : List IndexedVerse) (r r' : VerseResult) : Prop :=
  ∃ v ∈ vs, GroupedResult lead p q v r r'

section
variable {p q : Pattern} {lead trail : Bool} {words : List Text} (hwords : words ≠ [])
  (hletters : ∀ w ∈ words, w ≠ [] ∧ IsLetters w)
  (hp : p.node.Denotes (phraseLanguage lead trail words))
  (hq : q.node.Denotes ((if lead then slotLanguage else 1) * phraseLanguage lead trail words))
include hwords hletters hp hq

theorem nonemptyMatches_eq_of_not_lead (hlead : lead = false) (s : Text) :
    nonemptyMatches q s = nonemptyMatches p s := by
  subst hlead
  rw [if_neg Bool.false_ne_true, one_mul] at hq
  rw [nonemptyMatches, nonemptyMatches, Pattern.findAll_eq_of_denotes hq hp
    (prefixFree_phrase hletters false trail) (ne_nil_of_mem_phrase hwords hletters false trail)]

theorem found_grouped_iff (s : Text) : nonemptyMatches q s = [] ↔ nonemptyMatches p s = [] := by
  cases lead with
  | false => rw [nonemptyMatches_eq_of_not_lead hwords hletters hp hq rfl]
  | true => rw [nonemptyMatches_grouped hwords hletters hp hq, List.map_eq_nil_iff]

theorem groupedResult_of_shows {index : ℕ} {book : Text} {chapter verse : ℕ} {ws : List TaggedWord}
    {v : IndexedVerse} (hv : VerseIndex.indexVerse index book chapter verse ws = .ok v)
    {r r' : VerseResult} (h : Shows p v r) (h' : Shows q v r') : GroupedResult lead p q v r r' := by
  have hsorted := (Highlight.mem_coverFrom h'.coveredWords .nil).1
  cases lead with
  | false =>
    have heq : r' = r := by
      have hmatches := nonemptyMatches_eq_of_not_lead hwords hletters hp hq rfl v.searchString
      have hsame : matchVerse q v = matchVerse p v := by rw [matchVerse, matchVerse, hmatches]
      rw [← matchVerse_eq_some_iff] at h h'
      exact Option.some.inj (Except.ok.inj (h'.symm.trans (hsame.trans h)))
    exact ⟨h, h', fun _ => heq, hsorted, fun n => by simp [heq]⟩
  | true =>
    refine ⟨h, h', fun hfalse => absurd hfalse (by decide), hsorted, fun n => ?_⟩
    rw [mem_marked_grouped hwords hletters hp hq hv h.coveredWords h'.coveredWords, h.tags]
    simp

/-- A verse has a result of the query if it has one of the query in parentheses. -/
theorem resultIn_grouped {index : ℕ} {book : Text} {chapter verse : ℕ} {ws : List TaggedWord}
    {v : IndexedVerse} (hv : VerseIndex.indexVerse index book chapter verse ws = .ok v)
    {vs : List IndexedVerse} (hmem : v ∈ vs) :
    Option.Rel (GroupedIn lead p q vs) (resultIn p v) (resultIn q v) := by
  have hiff := found_grouped_iff hwords hletters hp hq v.searchString
  by_cases hfound : nonemptyMatches p v.searchString = []
  · rw [resultIn_of_not_found hfound, resultIn_of_not_found (hiff.mpr hfound)]
    exact .none
  · have hfound' : nonemptyMatches q v.searchString ≠ [] := fun h => hfound (hiff.mp h)
    by_cases hplace : HasNumerals v
    · obtain ⟨r, hr⟩ := exists_shows hfound hplace
      obtain ⟨r', hr'⟩ := exists_shows hfound' hplace
      rw [resultIn_eq_some_iff.mpr hr, resultIn_eq_some_iff.mpr hr']
      exact .some ⟨v, hmem, groupedResult_of_shows hwords hletters hp hq hv hr hr'⟩
    · rw [resultIn, resultIn, matchVerse_of_not_hasNumerals hfound hplace,
        matchVerse_of_not_hasNumerals hfound' hplace]
      exact .none

end

/-! ## Searches -/

/-- Both searches end with the same failure, or both have results that agree one by one, and tell alike
whether there are more. -/
inductive AgreesUpTo (R : VerseResult → VerseResult → Prop) :
    Except SearchError SearchResponse → Except SearchError SearchResponse → Prop
  | error (e : SearchError) : AgreesUpTo R (.error e) (.error e)
  | ok {r r' : SearchResponse} (htruncated : r'.truncated = r.truncated)
      (hresults : List.Forall₂ R r.results r'.results) : AgreesUpTo R (.ok r) (.ok r')

/-- Words in parentheses are found in the same verses as the words. If no space stands before the words,
the results are the same. If one does, the word before each match is marked as well if it has a tag that
is not negative. -/
theorem search_grouped [Pattern.CharNames] [Text.Ranking] {c : Corpus Text} {l : Lexicon}
    {maxResults : ℤ} {e : Engine}
    (he : Engine.ofCorpus c l maxResults = .ok e) {words : List Text} (hwords : words ≠ [])
    (hletters : ∀ w ∈ words, w ≠ [] ∧ IsLetters w) (lead trail verbsOnly : Bool) (cap : Option ℤ) :
    let query := spaced [] lead trail words
    ∃ compiled compiled', compile l query verbsOnly = .ok compiled ∧
      compile l (grouped query) verbsOnly = .ok compiled' ∧
      AgreesUpTo (GroupedIn lead compiled.pattern compiled'.pattern e.index.verses)
        (e.search query cap verbsOnly).2 (e.search (grouped query) cap verbsOnly).2 := by
  intro query
  have hsigns : ∀ w ∈ words, w ≠ [] ∧ ∀ c ∈ w, isSign c = true := fun w hw =>
    ⟨(hletters w hw).1, (@Item.signs_of_isSound _ l verbsOnly w (hletters w hw)).1⟩
  obtain ⟨compiled, hcompile, hp⟩ :=
    compile_phrase hwords hsigns lead trail l verbsOnly defaultSuggestions
  obtain ⟨compiled', hcompile', hq⟩ :=
    compile_grouped hwords hsigns lead trail l verbsOnly defaultSuggestions
  refine ⟨compiled, compiled', hcompile, hcompile', ?_⟩
  obtain ⟨i, hi, rfl⟩ := Engine.ofCorpus_eq_ok_iff.mp he
  have hindexed := VerseIndex.ofCorpus_eq_ok_iff.mp hi
  -- both searches find the same verses, so the cap stops them at the same one
  have hlooked : Engine.lookedAt ⟨i, l, maxResults, {}⟩ compiled' cap =
      Engine.lookedAt ⟨i, l, maxResults, {}⟩ compiled cap := by
    simp only [Engine.lookedAt, foundIn, found_grouped_iff hwords hletters hp hq, ne_eq]
  have hresults : List.Forall₂ (GroupedIn lead compiled.pattern compiled'.pattern i.verses)
      (i.verses.filterMap (resultIn compiled.pattern))
      (i.verses.filterMap (resultIn compiled'.pattern)) := by
    have hsame : List.Forall₂ (fun v u => v = u ∧ v ∈ i.verses) i.verses i.verses :=
      List.forall₂_same.mpr fun v hv => ⟨rfl, hv⟩
    refine List.rel_filterMap ?_ hsame
    rintro v _ ⟨rfl, hv⟩
    obtain ⟨ws, -, hverse⟩ := VerseIndex.place_of_mem hindexed hv
    exact resultIn_grouped hwords hletters hp hq hverse hv
  rw [Engine.search_outcome hcompile, Engine.search_outcome hcompile', hlooked]
  cases (Engine.lookedAt ⟨i, l, maxResults, {}⟩ compiled cap).find? (¬HasNumerals ·) with
  | some v => exact .error _
  | none =>
    refine .ok ?_ (List.forall₂_take _ hresults)
    rw [hresults.length_eq]

/-- With a space before the words, the results differ in the words that they mark. -/
theorem grouped_marks_differ :
    let c : Corpus Text := ⟨[⟨['א'], [[[⟨['ב'], 1⟩, ⟨['א'], 2⟩]]]⟩]⟩
    let marks (query : Text) := (Engine.ofCorpus c ⟨[]⟩ 10).map fun e =>
      (e.search query none false).2.map fun r => r.results.map (·.coveredWords)
    marks [' ', 'א'] = .ok (.ok [[1]]) ∧ marks (grouped [' ', 'א']) = .ok (.ok [[0, 1]]) := by
  decide +kernel

/-- A match of which the word before it has a tag, so that both are marked in parentheses. -/
theorem search_grouped_of_two_words :
    let c : Corpus Text := ⟨[⟨['א'], [[[⟨['ב'], 1⟩, ⟨['א'], 2⟩]]]⟩]⟩
    ∃ e r r', Engine.ofCorpus c ⟨[]⟩ 10 = .ok e ∧ (e.search [' ', 'א'] none false).2 = .ok r ∧
      (e.search (grouped [' ', 'א']) none false).2 = .ok r' ∧ r.results.map (·.coveredWords) = [[1]] ∧
      r'.results.length = 1 ∧ ∀ b ∈ r'.results, 0 ∈ b.coveredWords ∧ 1 ∈ b.coveredWords := by
  intro c
  let p : Pattern :=
    ⟨.cat (.one { items := [.code 0x20] }) (.cat (.one { items := [.code 0x5d0] }) .empty)⟩
  let verse : IndexedVerse := ⟨0, ['א'], 0, 0, [['ב'], ['א']], [1, 2], " ב<1> א<2> ".toList⟩
  let e : Engine := ⟨⟨[verse]⟩, ⟨[]⟩, 10, {}⟩
  have he : Engine.ofCorpus c ⟨[]⟩ 10 = .ok e := by decide +kernel
  have hcompile : compile ⟨[]⟩ [' ', 'א'] false = .ok ⟨[' ', 'א'], p, false, []⟩ := by decide +kernel
  have hletters : ∀ w ∈ [['א']], w ≠ [] ∧ IsLetters w := by
    unfold IsLetters
    decide
  have hquery : spaced [] true false [['א']] = [' ', 'א'] := rfl
  have hmarks : (e.search [' ', 'א'] none false).2.map (fun r => r.results.map (·.coveredWords)) =
      .ok [[1]] := by decide +kernel
  have hmatches : nonemptyMatches p verse.searchString = [(5, 7)] := by decide +kernel
  have hrange : wordRange verse.searchString 5 7 = .ok (1, 1) := by decide +kernel
  obtain ⟨compiled, compiled', hok, -, hagree⟩ :=
    search_grouped he (List.cons_ne_nil _ _) hletters true false false none
  rw [hquery] at hok hagree
  obtain rfl := Except.ok.inj (hok.symm.trans hcompile)
  obtain ⟨r, hr, hone⟩ := ok_of_map hmarks
  rw [hr] at hagree
  generalize hr' : (e.search (grouped [' ', 'א']) none false).2 = outcome at hagree
  obtain - | ⟨-, hresults⟩ := hagree
  next r' =>
  refine ⟨e, r, r', he, hr, hr', hone, ?_, fun b hb => ?_⟩
  · have hlength := congrArg List.length hone
    rwa [List.length_map, hresults.length_eq] at hlength
  · obtain ⟨a, ha, v, hv, hgrouped⟩ := exists_of_forall₂ hresults b hb
    obtain rfl := List.mem_singleton.mp hv
    have hcovered : a.coveredWords = [1] := by
      have hmem : a.coveredWords ∈ r.results.map (·.coveredWords) := List.mem_map_of_mem ha
      rw [hone] at hmem
      exact List.mem_singleton.mp hmem
    have hfirst : IsFirstWord p verse.searchString 1 := ⟨(5, 7), by simp [hmatches], 1, hrange⟩
    rw [hgrouped.marked, hgrouped.marked, hcovered, hgrouped.left.tags]
    exact ⟨.inr ⟨rfl, ⟨1, rfl, by decide⟩, hfirst⟩, .inl (by simp)⟩

end VerseSearch.Query
