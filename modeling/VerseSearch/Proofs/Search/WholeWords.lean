import Mathlib.Algebra.Group.Nat.Even
import VerseSearch.Proofs.Query.Forms
import VerseSearch.Proofs.Search.Phrases

/-! # Searches for whole words

The spaces around a word belong to its match, so a match takes the space before the next word with it,
and of equal words in a row only every other one is found.

* `isWordAt`: the words of a verse that a word of a query stands for.
* `matchesAt_around_iff`: a word between spaces matches around a part that it fits.
* `runBefore`: the number of words in a row before a word.
* `found_iff`, `iff_even_runBefore`: a word is found if it fits and an even number of words that fit
  stand right before it.
* `marks_whole_words`: the words that a search for a word between spaces marks.
-/

namespace VerseSearch.Query
set_option autoImplicit false

open SearchString (assemble body Parted Fits InWords)
open Highlight (separatorsBefore)

/-! ## Words of verses -/

/-- Whether a word of a query stands for the word with a given number. -/
def isWordAt (q : Text) (ws : List TaggedWord) (n : ℕ) : Bool :=
  ws[n]?.any fun w => (Hebrew.searchable w.word).toOption.any (isForm q)

theorem isWordAt_iff {q : Text} (hq : IsLetters q) {ws : List TaggedWord} {n : ℕ} :
    isWordAt q ws n = true ↔ ∃ w form, ws[n]? = some w ∧ Hebrew.searchable w.word = .ok form ∧
      form ∈ (q.map described).prod := by
  simp only [isWordAt, Option.any_eq_true, mem_described_iff hq]
  constructor
  · rintro ⟨w, hw, form, hform, h⟩
    refine ⟨w, form, hw, ?_, h⟩
    cases hs : Hebrew.searchable w.word with
    | error e => simp [hs, Except.toOption] at hform
    | ok f => simpa [hs, Except.toOption] using hform
  · rintro ⟨w, form, hw, hform, h⟩
    exact ⟨w, hw, form, by simp [hform, Except.toOption], h⟩

/-! ## Matches around words -/

/-- The place where the word with a given number begins. -/
def wordStart (segs : List Text) (n : ℕ) : ℕ := (assemble (segs.take n)).length

@[simp] theorem wordStart_pos (segs : List Text) (n : ℕ) : 0 < wordStart segs n := by
  simp [wordStart, SearchString.assemble_eq]

theorem wordStart_succ {segs : List Text} {n : ℕ} {seg : Text} (h : segs[n]? = some seg) :
    wordStart segs (n + 1) = wordStart segs n + seg.length + 1 := by
  rw [wordStart, List.take_add_one, h, Option.toList_some, SearchString.assemble_append,
    List.length_append, SearchString.body_cons]
  simp [wordStart, body, Nat.add_assoc]

theorem wordStart_mono (segs : List Text) {m n : ℕ} (h : m ≤ n) :
    wordStart segs m ≤ wordStart segs n := by
  obtain ⟨post, hpost⟩ := List.take_prefix_take_left (l := segs) h
  rw [wordStart, wordStart, ← hpost, SearchString.assemble_append, List.length_append]
  exact Nat.le_add_right _ _

theorem wordStart_lt {segs : List Text} {m n : ℕ} (hmn : m < n) (hm : m < segs.length) :
    wordStart segs m < wordStart segs n := by
  have hnext := wordStart_succ (List.getElem?_eq_getElem hm)
  have hmono := wordStart_mono segs (Nat.succ_le_of_lt hmn)
  simp only [Nat.succ_eq_add_one] at hmono
  omega

theorem wordStart_inj {segs : List Text} {m n : ℕ} (hm : m < segs.length)
    (h : wordStart segs m = wordStart segs n) : m = n := by
  obtain hlt | heq | hlt := Nat.lt_trichotomy m n
  · exact absurd h (Nat.ne_of_lt (wordStart_lt hlt hm))
  · exact heq
  · exact absurd h.symm (Nat.ne_of_lt (wordStart_lt hlt (Nat.lt_trans hlt hm)))

/-- A text of the language with a separator before it, and an optional tag and a separator after it. -/
def around (L : Language Char) : Language Char := {[' ']} * spacedLanguage true [L]

/-- A match that begins with the separator before a word is found. -/
def Found (p : Pattern) (segs : List Text) (n : ℕ) : Prop :=
  ∃ x ∈ p.findAll (assemble segs), x.1 + 1 = wordStart segs n

section
variable {p : Pattern} {L : Language Char} (hp : p.node.Denotes (around L)) (hL : InWords L)
  {segs : List Text} (hparted : Parted segs)
include hp hL hparted

/-- A match around a word takes the separators on both sides of its part. -/
theorem matchesAt_around_iff {i j : ℕ} : p.MatchesAt (assemble segs) i j ↔
    ∃ n seg, segs[n]? = some seg ∧ Fits L false false seg ∧ i + 1 = wordStart segs n ∧
      j = wordStart segs (n + 1) := by
  constructor
  · rintro ⟨before, _, after, hs, rfl, rfl, hu⟩
    obtain ⟨_, hrest, rfl⟩ := Pattern.mem_singleton_mul.mp ((hp.2 _ _ _).mp hu)
    obtain ⟨v, hv, _, htail, rfl⟩ := Language.mem_mul.mp hrest
    obtain ⟨slot, hslot, rfl⟩ := Pattern.mem_mul_singleton.mp htail
    have hsplit : assemble segs = before ++ Hebrew.separator :: (v ++ (slot ++ ' ' :: after)) := by
      rw [hs]
      simp [Hebrew.separator]
    obtain ⟨pre, post, rfl, hbefore, hbody⟩ := SearchString.split_at_separator hparted hsplit
    obtain ⟨b, post, rfl, hb⟩ := SearchString.prefix_of_body hL hv hbody.symm
    have hsep : Hebrew.separator ∉ b := fun h => hparted _ (by simp) (List.mem_append_right v h)
    -- neither the slot nor the rest of the part holds a separator, so the slot is that rest
    obtain ⟨rfl, -⟩ := SearchString.eq_of_not_mem (SearchString.separator_not_mem_slot hslot) hsep hb
    have hget : (pre ++ (v ++ slot) :: post)[pre.length]? = some (v ++ slot) := by simp
    have hstart : before.length + 1 = wordStart (pre ++ (v ++ slot) :: post) pre.length := by
      rw [wordStart, List.take_left, ← hbefore, List.length_append, List.length_singleton]
    refine ⟨pre.length, _, hget, ⟨[], v, slot, rfl, hv, fun _ => rfl, fun _ => hslot⟩, hstart, ?_⟩
    rw [wordStart_succ hget, ← hstart]
    simp only [List.length_append, List.length_singleton]
    omega
  · rintro ⟨n, seg, hget, ⟨a, v, slot, rfl, hv, ha, hslot⟩, hi, rfl⟩
    obtain rfl := ha rfl
    obtain ⟨hlt, hseg⟩ := List.getElem?_eq_some_iff.mp hget
    obtain ⟨before, hbefore⟩ := SearchString.assemble_ends (segs.take n)
    have hsplit : segs = segs.take n ++ (v ++ slot) :: segs.drop (n + 1) := by
      rw [← List.nil_append (v ++ slot), ← hseg, ← List.drop_eq_getElem_cons hlt,
        List.take_append_drop]
    have hlength : i = before.length := by
      rw [wordStart, hbefore, List.length_append, List.length_singleton] at hi
      omega
    refine ⟨before, [' '] ++ (v ++ (slot ++ [' '])), body (segs.drop (n + 1)), ?_, hlength, ?_, ?_⟩
    · conv_lhs => rw [hsplit, SearchString.assemble_append, hbefore, SearchString.body_cons]
      simp [Hebrew.separator]
    · rw [wordStart_succ hget, ← hi, hlength]
      simp only [List.length_append, List.length_singleton, List.nil_append]
      omega
    · refine (hp.2 _ _ _).mpr (Pattern.mem_singleton_mul.mpr ⟨_, ?_, rfl⟩)
      exact Language.append_mem_mul hv (Pattern.mem_mul_singleton.mpr ⟨slot, hslot rfl, rfl⟩)

omit hL hparted in
theorem around_progressive : p.Progressive := hp.progressive fun _ hu => by
  obtain ⟨_, -, rfl⟩ := Pattern.mem_singleton_mul.mp hu
  exact List.cons_ne_nil _ _

/-- A word is found if it fits, unless the match of the word before it has taken the separator. -/
theorem found_iff {n : ℕ} : Found p segs n ↔
    (∃ seg, segs[n]? = some seg ∧ Fits L false false seg) ∧ ∀ m, m + 1 = n → ¬ Found p segs m := by
  have hprogressive := around_progressive hp
  have hmatch : ∀ {x m}, x ∈ p.findAll (assemble segs) → x.1 + 1 = wordStart segs m →
      (∃ seg, segs[m]? = some seg ∧ Fits L false false seg) ∧ x.2 = wordStart segs (m + 1) := by
    intro x m hx hm
    obtain ⟨k, seg, hget, hfits, hk, hstop⟩ :=
      (matchesAt_around_iff hp hL hparted).mp (Pattern.mem_findAll hp.1 hprogressive hx)
    obtain rfl := wordStart_inj (List.getElem?_eq_some_iff.mp hget).1 (hk.symm.trans hm)
    exact ⟨⟨seg, hget, hfits⟩, hstop⟩
  constructor
  · rintro ⟨x, hx, hn⟩
    refine ⟨(hmatch hx hn).1, ?_⟩
    rintro m rfl ⟨y, hy, hm⟩
    obtain ⟨⟨seg, hget, -⟩, hstop⟩ := hmatch hy hm
    have hstop' := (hmatch hx hn).2
    have hlt := wordStart_lt (Nat.lt_succ_self m) (List.getElem?_eq_some_iff.mp hget).1
    have hmono := wordStart_mono segs (Nat.le_succ (m + 1))
    simp only [Nat.succ_eq_add_one] at hlt hmono
    -- two matches that are found stay apart, but these two would share a separator
    obtain rfl | h | h := Pattern.findAll_apart hp.1 hprogressive hx hy <;> omega
  · rintro ⟨⟨seg, hget, hfits⟩, hbefore⟩
    have hpos := wordStart_pos segs n
    have hat := (matchesAt_around_iff hp hL hparted).mpr
      ⟨n, seg, hget, hfits, Nat.sub_add_cancel hpos, rfl⟩
    obtain ⟨x, hx, hle, hlt⟩ := Pattern.findAll_covers hp.1 hprogressive hat
    obtain ⟨m, -, -, -, hm, hstop⟩ :=
      (matchesAt_around_iff hp hL hparted).mp (Pattern.mem_findAll hp.1 hprogressive hx)
    have hlength := (List.getElem?_eq_some_iff.mp hget).1
    -- the match that is found begins at this word or at the one before it
    have hmn : m ≤ n := Nat.not_lt.mp fun h => by
      have := wordStart_lt h hlength
      omega
    have hnm : n ≤ m + 1 := Nat.not_lt.mp fun h => by
      have := wordStart_lt h (Nat.lt_trans h hlength)
      omega
    obtain rfl | hprevious : m = n ∨ m + 1 = n := by omega
    · exact ⟨x, hx, hm⟩
    · exact absurd ⟨x, hx, hm⟩ (hbefore m hprevious)

end

/-! ## Words in a row -/

/-- The number of words in a row, right before a word, of which something holds. -/
def runBefore (P : ℕ → Bool) : ℕ → ℕ
  | 0 => 0
  | n + 1 => if P n then runBefore P n + 1 else 0

/-- If a word is found exactly if it fits and the word before it is not found, then of the words in a row
that fit every other one is found. -/
theorem iff_even_runBefore {F : ℕ → Prop} {P : ℕ → Bool}
    (h : ∀ n, F n ↔ P n = true ∧ ∀ m, m + 1 = n → ¬ F m) (n : ℕ) :
    F n ↔ P n = true ∧ Even (runBefore P n) := by
  induction n with
  | zero =>
    rw [h]
    simp [runBefore]
  | succ n ih =>
    have hbefore : (∀ m, m + 1 = n + 1 → ¬ F m) ↔ ¬ F n := by simp
    rw [h, hbefore, ih, runBefore]
    cases P n <;> simp [Nat.even_add_one]

/-- Of the words that fit all are found exactly if no two of them are neighbours. -/
theorem forall_even_runBefore_iff {P : ℕ → Bool} :
    (∀ n, P n = true ∧ Even (runBefore P n) ↔ P n = true) ↔ ∀ n, ¬ (P n = true ∧ P (n + 1) = true) := by
  constructor
  · rintro h n ⟨hn, hnext⟩
    have heven := ((h n).mpr hn).2
    have hodd := ((h (n + 1)).mpr hnext).2
    rw [runBefore, if_pos hn, Nat.even_add_one] at hodd
    exact hodd heven
  · intro h n
    refine and_iff_left_of_imp fun hn => ?_
    cases n with
    | zero => simp [runBefore]
    | succ n =>
      have hprevious : ¬ P n = true := fun hp => h n ⟨hp, hn⟩
      simp [runBefore, hprevious]

/-! ## Marks -/

section
variable {segs : List Text} (hparted : Parted segs)
include hparted

/-- As many words have begun from the start of a part to its end. -/
theorem separatorsBefore_within {n : ℕ} {seg : Text} (hn : segs[n]? = some seg) {k : ℕ}
    (hk : k ≤ seg.length) : separatorsBefore (assemble segs) (wordStart segs n + k) = n + 1 := by
  obtain ⟨hlt, hseg⟩ := List.getElem?_eq_some_iff.mp hn
  have hsegs : segs = segs.take n ++ ([] ++ (seg ++ [])) :: segs.drop (n + 1) := by
    rw [List.nil_append, List.append_nil, ← hseg, ← List.drop_eq_getElem_cons hlt,
      List.take_append_drop]
  have h := Highlight.count_take_within hparted hsegs hk
  rw [List.append_nil, List.length_take_of_le (by omega)] at h
  exact h

omit hparted in
theorem getElem?_around {n : ℕ} {seg : Text} (hn : segs[n]? = some seg) :
    (assemble segs)[wordStart segs n - 1]? = some Hebrew.separator ∧
      (assemble segs)[wordStart segs n + seg.length]? = some Hebrew.separator := by
  obtain ⟨hlt, hseg⟩ := List.getElem?_eq_some_iff.mp hn
  have hsplit : assemble segs =
      assemble (segs.take n) ++ (seg ++ Hebrew.separator :: body (segs.drop (n + 1))) := by
    rw [← SearchString.body_cons, ← SearchString.assemble_append, ← hseg,
      ← List.drop_eq_getElem_cons hlt, List.take_append_drop]
  constructor
  · obtain ⟨before, hends⟩ := SearchString.assemble_ends (segs.take n)
    rw [wordStart, hsplit, hends]
    simp
  · rw [wordStart, hsplit]
    simp

/-- A span from the separator before a part to the one after it covers the word of the part. -/
theorem wordRange_around {n : ℕ} {seg : Text} (hn : segs[n]? = some seg) (hne : seg ≠ [])
    {start stop : ℕ} (hstart : start + 1 = wordStart segs n) (hstop : stop = wordStart segs (n + 1)) :
    Highlight.wordRange (assemble segs) start stop = .ok (n, n) := by
  have hpos := List.length_pos_iff.mpr hne
  obtain ⟨hbefore, hafter⟩ := getElem?_around hn
  rw [← hstart, Nat.add_sub_cancel] at hbefore
  rw [wordStart_succ hn] at hstop
  have hlength := (List.getElem?_eq_some_iff.mp hafter).1
  have hfirst := separatorsBefore_within hparted hn (Nat.zero_le _)
  have hlast := separatorsBefore_within hparted hn le_rfl
  rw [Nat.add_zero] at hfirst
  rw [Highlight.wordRange_of_trimmed (.inr ⟨hstart, hbefore⟩) (.inr ⟨hstop, hafter⟩) (by omega)
    hlength, hfirst, hlast, Nat.add_sub_cancel]

end

/-- A pattern for a word between spaces marks the words that are found. -/
theorem marks_of_found {p : Pattern} {L : Language Char} (hp : p.node.Denotes (around L))
    (hL : InWords L) {segs : List Text} (hparted : Parted segs) {v : IndexedVerse}
    (hv : v.searchString = assemble segs) :
    ∃ marked, Marks p v marked ∧ marked.Pairwise (· < ·) ∧ ∀ n, n ∈ marked ↔ Found p segs n := by
  have hall := nonemptyMatches_eq_findAll hp.1 (around_progressive hp) v.searchString
  let word : ℕ × ℕ → ℕ := fun x => separatorsBefore (assemble segs) (x.1 + 1) - 1
  have hspans : ∀ x ∈ p.findAll (assemble segs), ∃ n < segs.length, x.1 < x.2 ∧
      x.1 + 1 = wordStart segs n ∧ word x = n ∧
      Highlight.wordRange (assemble segs) x.1 x.2 = .ok (n, n) := by
    intro x hx
    have hmatch := Pattern.mem_findAll hp.1 (around_progressive hp) hx
    obtain ⟨n, seg, hn, ⟨a, v, b, rfl, hv, -, -⟩, hstart, hstop⟩ :=
      (matchesAt_around_iff hp hL hparted).mp hmatch
    have hne : a ++ (v ++ b) ≠ [] := by simp [(hL v hv).1]
    have hcount := separatorsBefore_within hparted hn (Nat.zero_le _)
    rw [Nat.add_zero] at hcount
    refine ⟨n, (List.getElem?_eq_some_iff.mp hn).1, hmatch.lt (around_progressive hp), hstart, ?_,
      wordRange_around hparted hn hne hstart hstop⟩
    simp only [word, hstart, hcount, Nat.add_sub_cancel]
  rw [hv] at hall
  obtain ⟨marked, hmarks, hsorted, hmem⟩ := @marks_of_ranges p v word fun x hx => by
    rw [hv, hall] at hx
    obtain ⟨n, -, hlt, -, hword, hrange⟩ := hspans x hx
    rw [hv, hword]
    exact ⟨hlt, hrange⟩
  refine ⟨marked, hmarks, hsorted, fun n => ?_⟩
  rw [hmem, hv, hall]
  refine exists_congr fun x => and_congr_right fun hx => ?_
  obtain ⟨m, hm, -, hstart, hword, -⟩ := hspans x hx
  rw [hword, hstart]
  exact ⟨fun h => by rw [h], wordStart_inj hm⟩

theorem fits_iff_isWordAt [Pattern.CharNames] {l : Lexicon} {verbsOnly : Bool} {q : Text}
    (hq : (Item.word q).IsSound l verbsOnly) {ws : List TaggedWord} {segs : List Text}
    (hlays : SearchString.Lays ws segs) (htags : ∀ w ∈ ws, 0 ≤ w.tag) {n : ℕ} :
    (∃ seg, segs[n]? = some seg ∧ Fits ((Item.word q).language l verbsOnly) false false seg) ↔
      isWordAt q ws n = true := by
  rw [isWordAt_iff hq.2]
  have hfits : ∀ {form : Text} {tag : ℕ}, (∀ c ∈ form, c ∈ Hebrew.letters) →
      (Fits ((Item.word q).language l verbsOnly) false false
        (SearchString.segment form (Text.ofNat tag)) ↔ form ∈ (q.map described).prod) := by
    intro form tag hform
    rw [fits_word_iff hform hq]
    constructor
    · rintro ⟨a, u, b, rfl, hu, ha, hb⟩
      rwa [ha rfl, hb rfl, List.nil_append, List.append_nil]
    · intro hu
      exact ⟨[], form, [], by simp, hu, fun _ => rfl, fun _ => rfl⟩
  constructor
  · rintro ⟨seg, hseg, h⟩
    obtain ⟨w, form, hw, hform, -, rfl⟩ := hlays.getElem?_iff.mp hseg
    exact ⟨w, form, hw, hform, (hfits (SearchString.letters_of_searchable hform)).mp h⟩
  · rintro ⟨w, form, hw, hform, h⟩
    have htag := htags w (List.mem_of_getElem? hw)
    exact ⟨_, hlays.getElem?_iff.mpr ⟨w, form, hw, hform, htag, rfl⟩,
      (hfits (SearchString.letters_of_searchable hform)).mpr h⟩

/-- A search for a word between spaces marks those words that it stands for before which an even number
of such words stand in a row, so it marks all of them exactly if no two of them are neighbours. -/
theorem marks_whole_words [Pattern.CharNames] [Text.Ranking] (l : Lexicon) (verbsOnly : Bool)
    (limit : ℕ) {q : Text} (hne : q ≠ [])
    (hq : IsLetters q) {index : ℕ} {book : Text} {chapter verse : ℕ} {ws : List TaggedWord}
    {v : IndexedVerse} (hv : VerseIndex.indexVerse index book chapter verse ws = .ok v)
    (htags : ∀ w ∈ ws, 0 ≤ w.tag) :
    ∃ c marked, compile l (' ' :: q ++ [' ']) verbsOnly limit = .ok c ∧ Marks c.pattern v marked ∧
      marked.Pairwise (· < ·) ∧
      (∀ n, n ∈ marked ↔ isWordAt q ws n = true ∧ Even (runBefore (isWordAt q ws) n)) ∧
      ((∀ n, n ∈ marked ↔ isWordAt q ws n = true) ↔
        ∀ n, ¬ (isWordAt q ws n = true ∧ isWordAt q ws (n + 1) = true)) := by
  have hsound : (Item.word q).IsSound l verbsOnly := ⟨hne, hq⟩
  have hstands : ∀ item ∈ [Item.word q], Stands l verbsOnly limit item.text (item.resolved l verbsOnly)
      (item.blocks l verbsOnly) (item.language l verbsOnly) := by
    simpa using hsound.stands limit
  obtain ⟨c, hc, -, -, hp⟩ := compile_spaced (by simp) hstands true true
  replace hp : c.pattern.node.Denotes (around ((Item.word q).language l verbsOnly)) := hp
  have hspaced : spaced [] true true [q] = ' ' :: q ++ [' '] := by
    simp
  obtain ⟨segs, hlays, hstring⟩ := SearchString.lays_of_indexVerse hv htags
  obtain ⟨marked, hmarks, hsorted, hmem⟩ := marks_of_found hp hsound.inWords hlays.parted hstring
  have hmarked : ∀ n, n ∈ marked ↔ isWordAt q ws n = true ∧ Even (runBefore (isWordAt q ws) n) := by
    intro n
    rw [hmem]
    refine iff_even_runBefore (fun n => ?_) n
    rw [found_iff hp hsound.inWords hlays.parted, fits_iff_isWordAt hsound hlays htags]
  refine ⟨c, marked, hspaced ▸ hc, hmarks, hsorted, hmarked, ?_⟩
  simp only [hmarked]
  exact forall_even_runBefore_iff

/-- Of two equal words next to each other the second is not marked. -/
theorem marks_whole_words_of_two_equal :
    VerseIndex.indexVerse 0 ['א'] 0 0 [⟨['א', 'ב'], 1⟩, ⟨['א', 'ב'], 1⟩] =
        .ok ⟨0, ['א'], 0, 0, [['א', 'ב'], ['א', 'ב']], [1, 1], " אב<1> אב<1> ".toList⟩ ∧
      ∃ c marked, compile ⟨[]⟩ [' ', 'א', 'ב', ' '] false 5 = .ok c ∧
        Marks c.pattern ⟨0, ['א'], 0, 0, [['א', 'ב'], ['א', 'ב']], [1, 1], " אב<1> אב<1> ".toList⟩ marked ∧
        0 ∈ marked ∧ 1 ∉ marked ∧ isWordAt ['א', 'ב'] [⟨['א', 'ב'], 1⟩, ⟨['א', 'ב'], 1⟩] 1 = true := by
  have hv : VerseIndex.indexVerse 0 ['א'] 0 0 [⟨['א', 'ב'], 1⟩, ⟨['א', 'ב'], 1⟩] =
      .ok ⟨0, ['א'], 0, 0, [['א', 'ב'], ['א', 'ב']], [1, 1], " אב<1> אב<1> ".toList⟩ := by decide +kernel
  have hletters : IsLetters ['א', 'ב'] := by
    unfold IsLetters
    decide
  obtain ⟨c, marked, hc, hmarks, -, hmem, -⟩ :=
    marks_whole_words ⟨[]⟩ false 5 (by simp) hletters hv (by decide)
  have hfirst : isWordAt ['א', 'ב'] [⟨['א', 'ב'], 1⟩, ⟨['א', 'ב'], 1⟩] 0 = true := by decide +kernel
  have hsecond : isWordAt ['א', 'ב'] [⟨['א', 'ב'], 1⟩, ⟨['א', 'ב'], 1⟩] 1 = true := by decide +kernel
  refine ⟨hv, c, marked, hc, hmarks, (hmem 0).mpr ⟨hfirst, by simp [runBefore]⟩, fun h => ?_, hsecond⟩
  have heven := ((hmem 1).mp h).2
  simp [runBefore, hfirst] at heven

end VerseSearch.Query
