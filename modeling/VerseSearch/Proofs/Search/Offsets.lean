import VerseSearch.Highlight
import VerseSearch.Proofs.Search.Layout

/-! # The word at an offset of a search string

An offset tells its word by the separators before it.

* `count_take_within`: the separators before the offsets of a text inside a part.
* `InPart`: the offsets at which the part of a word stands; `inPart_iff`: they are those without a
  separator after as many separators.
* `separator_cases`: after a separator a part begins, or the search string ends.
* `wordAt_lt`, `wordAt_mono`: every offset has a word, and later offsets have no earlier words.
-/

namespace VerseSearch.Highlight
set_option autoImplicit false

open SearchString (assemble body Parted)

/-! ## Separators before an offset -/

/-- The separators before an offset. -/
def separatorsBefore (s : Text) (k : ℕ) : ℕ := (s.take k).count Hebrew.separator

theorem separatorsBefore_mono (s : Text) {j k : ℕ} (h : j ≤ k) :
    separatorsBefore s j ≤ separatorsBefore s k :=
  List.Sublist.count_le _ (List.take_sublist_take_left h)

theorem separatorsBefore_succ {s : Text} {k : ℕ} {d : Char} (hd : s[k]? = some d)
    (hne : d ≠ Hebrew.separator) : separatorsBefore s (k + 1) = separatorsBefore s k := by
  rw [separatorsBefore, List.take_add_one, hd, List.count_append, Option.toList_some,
    List.count_singleton, if_neg (by simpa using hne), Nat.add_zero, separatorsBefore]

theorem separatorsBefore_succ_of_separator {s : Text} {k : ℕ} (hk : s[k]? = some Hebrew.separator) :
    separatorsBefore s (k + 1) = separatorsBefore s k + 1 := by
  rw [separatorsBefore, List.take_add_one, hk, List.count_append]
  rfl

theorem separatorsBefore_of_between {s : Text} {k i : ℕ} (hki : k ≤ i) (hi : i ≤ s.length)
    (h : ∀ m, k ≤ m → m < i → s[m]? ≠ some Hebrew.separator) :
    separatorsBefore s i = separatorsBefore s k := by
  induction i, hki using Nat.le_induction with
  | base => rfl
  | succ i hki ih =>
    have hget : s[i]? = some s[i] := List.getElem?_eq_getElem (by omega)
    rw [separatorsBefore_succ hget fun heq => h i hki (Nat.lt_succ_self i) (by rw [hget, heq])]
    exact ih (by omega) fun m hm hlt => h m hm (by omega)

theorem wordAt_eq {s : Text} {k : ℕ} (h : k < s.length) :
    wordAt s k = .ok (separatorsBefore s k - 1) := by
  rw [wordAt, if_neg (by omega)]
  rfl

/-! ## Offsets inside parts -/

section
variable {segs pre post : List Text} {a u c : Text} (hparted : Parted segs)
  (hsegs : segs = pre ++ (a ++ (u ++ c)) :: post)
include hsegs

theorem assemble_split : assemble segs =
    (assemble pre ++ a) ++ (u ++ (c ++ Hebrew.separator :: body post)) := by
  rw [hsegs, SearchString.assemble_eq, SearchString.body_append, SearchString.body_cons,
    SearchString.assemble_eq]
  simp only [List.append_assoc, List.cons_append]

include hparted

theorem count_before : (assemble pre ++ a).count Hebrew.separator = pre.length + 1 := by
  have hpre : Parted pre := fun s hs => hparted s (by simp [hsegs, hs])
  have hseg : Hebrew.separator ∉ a ++ (u ++ c) := hparted _ (by simp [hsegs])
  have ha : a.count Hebrew.separator = 0 :=
    List.count_eq_zero.mpr fun h => hseg (List.mem_append_left _ h)
  rw [List.count_append, ha, SearchString.count_assemble hpre]

/-- At every place from the start to the end of a text in the part of a word, as many words have
begun. -/
theorem count_take_within {k : ℕ} (hk : k ≤ u.length) :
    ((assemble segs).take ((assemble pre ++ a).length + k)).count Hebrew.separator =
      pre.length + 1 := by
  have hseg : Hebrew.separator ∉ a ++ (u ++ c) := hparted _ (by simp [hsegs])
  have hu : (u.take k).count Hebrew.separator = 0 := List.count_eq_zero.mpr fun h =>
    hseg (List.mem_append_right _ (List.mem_append_left _ (List.mem_of_mem_take h)))
  rw [assemble_split hsegs, List.take_length_add_append, List.take_append_of_le_length hk,
    List.count_append, hu, count_before hparted hsegs]

end

/-- The offset `k` lies in the part of word `n`. -/
def InPart (segs : List Text) (n k : ℕ) : Prop :=
  ∃ seg, segs[n]? = some seg ∧ (assemble (segs.take n)).length ≤ k ∧
    k < (assemble (segs.take n)).length + seg.length

theorem inPart_iff_split {segs : List Text} {n k : ℕ} : InPart segs n k ↔
    ∃ pre a d c post, segs = pre ++ (a ++ ([d] ++ c)) :: post ∧ pre.length = n ∧
      (assemble pre ++ a).length = k := by
  constructor
  · rintro ⟨seg, hn, hle, hlt⟩
    obtain ⟨hlength, rfl⟩ := List.getElem?_eq_some_iff.mp hn
    obtain ⟨i, rfl⟩ := Nat.exists_eq_add_of_le hle
    have hi : i < segs[n].length := by omega
    refine ⟨segs.take n, segs[n].take i, segs[n][i], segs[n].drop (i + 1), segs.drop (n + 1), ?_,
      List.length_take_of_le (by omega), ?_⟩
    · rw [List.singleton_append, ← List.drop_eq_getElem_cons hi, List.take_append_drop,
        ← List.drop_eq_getElem_cons hlength, List.take_append_drop]
    · rw [List.length_append, List.length_take_of_le (by omega)]
  · rintro ⟨pre, a, d, c, post, rfl, rfl, rfl⟩
    refine ⟨a ++ ([d] ++ c), by simp, ?_, ?_⟩
    · rw [List.take_left, List.length_append]
      omega
    · rw [List.take_left]
      simp only [List.length_append, List.length_singleton]
      omega

@[simp] theorem getElem?_last (segs : List Text) :
    (assemble segs)[(assemble segs).length - 1]? = some Hebrew.separator := by
  obtain ⟨before, hbefore⟩ := SearchString.assemble_ends segs
  rw [hbefore, List.length_append, List.length_singleton, Nat.add_sub_cancel,
    List.getElem?_concat_length]

section
variable {segs : List Text} (hparted : Parted segs)
include hparted

theorem separatorsBefore_last :
    separatorsBefore (assemble segs) ((assemble segs).length - 1) = segs.length := by
  have hcount := SearchString.count_assemble hparted
  obtain ⟨before, hbefore⟩ := SearchString.assemble_ends segs
  rw [hbefore, List.count_append, List.count_singleton_self] at hcount
  rw [separatorsBefore, hbefore, List.length_append, List.length_singleton, Nat.add_sub_cancel,
    List.take_left]
  exact Nat.succ.inj hcount

/-- A character that is no separator stands in the part of the word that the separators before it
tell. -/
theorem inPart_iff {n k : ℕ} : InPart segs n k ↔
    ∃ d, (assemble segs)[k]? = some d ∧ d ≠ Hebrew.separator ∧
      separatorsBefore (assemble segs) k = n + 1 := by
  rw [inPart_iff_split]
  constructor
  · rintro ⟨pre, a, d, c, post, hsegs, rfl, rfl⟩
    have hseg : Hebrew.separator ∉ a ++ ([d] ++ c) := hparted _ (by simp [hsegs])
    refine ⟨d, ?_, ?_, count_take_within (k := 0) hparted hsegs (Nat.zero_le _)⟩
    · rw [assemble_split hsegs, List.getElem?_append_right (Nat.le_refl _), Nat.sub_self]
      rfl
    · rintro rfl
      simp at hseg
  · rintro ⟨d, hd, hne, hcount⟩
    obtain ⟨hk, rfl⟩ := List.getElem?_eq_some_iff.mp hd
    have hsplit : assemble segs = (assemble segs).take k ++
        ([(assemble segs)[k]] ++ (assemble segs).drop (k + 1)) := by
      rw [List.singleton_append, ← List.drop_eq_getElem_cons hk, List.take_append_drop]
    obtain ⟨pre, a, c, post, hsegs, hbefore, -⟩ :=
      SearchString.split_within (by simp) (by simpa using hne.symm) hsplit
    have hlength : (assemble pre ++ a).length = k := by
      rw [← hbefore, List.length_take_of_le (by omega)]
    have hpre := count_take_within (k := 0) hparted hsegs (Nat.zero_le _)
    rw [Nat.add_zero, hlength, ← separatorsBefore, hcount] at hpre
    exact ⟨pre, a, _, c, post, hsegs, by omega, hlength⟩

theorem exists_inPart {k : ℕ} (hk : k < (assemble segs).length)
    (hsep : (assemble segs)[k]? ≠ some Hebrew.separator) :
    InPart segs (separatorsBefore (assemble segs) k - 1) k := by
  have hget : (assemble segs)[k]? = some (assemble segs)[k] := List.getElem?_eq_getElem hk
  rw [inPart_iff hparted]
  refine ⟨_, hget, fun h => hsep (by rw [hget, h]), ?_⟩
  have hfirst : separatorsBefore (assemble segs) 1 = 1 := by
    rw [SearchString.assemble_eq]
    rfl
  have hpos : 1 ≤ k := by
    rcases Nat.eq_zero_or_pos k with rfl | h
    · exact absurd rfl hsep
    · exact h
  have hmono := separatorsBefore_mono (assemble segs) hpos
  omega

/-- A separator ends the parts of as many words as there are separators before it. -/
theorem parts_of_separator {k : ℕ} (hk : (assemble segs)[k]? = some Hebrew.separator) :
    ∃ pre post, segs = pre ++ post ∧ (assemble segs).take k ++ [Hebrew.separator] = assemble pre ∧
      (assemble segs).drop (k + 1) = body post ∧ separatorsBefore (assemble segs) k = pre.length := by
  obtain ⟨hlt, hget⟩ := List.getElem?_eq_some_iff.mp hk
  have hsplit : assemble segs = (assemble segs).take k ++
      Hebrew.separator :: (assemble segs).drop (k + 1) := by
    rw [← hget, ← List.drop_eq_getElem_cons hlt, List.take_append_drop]
  obtain ⟨pre, post, hsegs, hbefore, hrest⟩ := SearchString.split_at_separator hparted hsplit
  have hpre : Parted pre := fun t ht => hparted t (by simp [hsegs, ht])
  have hcount := congrArg (List.count Hebrew.separator) hbefore
  rw [SearchString.count_assemble hpre, List.count_append, List.count_singleton_self] at hcount
  exact ⟨pre, post, hsegs, hbefore, hrest, Nat.succ.inj hcount⟩

/-- After a separator the part of a word begins, or the search string ends. -/
theorem separator_cases (hne : ∀ seg ∈ segs, seg ≠ []) {k : ℕ}
    (hk : (assemble segs)[k]? = some Hebrew.separator) :
    (k + 1 = (assemble segs).length ∧ separatorsBefore (assemble segs) k = segs.length) ∨
      InPart segs (separatorsBefore (assemble segs) k) (k + 1) := by
  obtain ⟨hlt, -⟩ := List.getElem?_eq_some_iff.mp hk
  obtain ⟨pre, post, hsegs, hbefore, hrest, hcount⟩ := parts_of_separator hparted hk
  have hlength : (assemble pre).length = k + 1 := by
    rw [← hbefore, List.length_append, List.length_take_of_le (by omega), List.length_singleton]
  rw [hcount]
  cases post with
  | nil =>
    left
    have hend := List.drop_eq_nil_iff.mp hrest
    rw [List.append_nil] at hsegs
    exact ⟨by omega, by rw [hsegs]⟩
  | cons seg post =>
    right
    obtain ⟨d, c, hseg⟩ := List.exists_cons_of_ne_nil (hne seg (by simp [hsegs]))
    refine inPart_iff_split.mpr ⟨pre, [], d, c, post, ?_, rfl, ?_⟩
    · rw [hsegs, hseg]
      rfl
    · rw [List.append_nil, hlength]

theorem separator_apart (hne : ∀ seg ∈ segs, seg ≠ []) {k : ℕ}
    (hk : (assemble segs)[k]? = some Hebrew.separator) :
    (assemble segs)[k + 1]? ≠ some Hebrew.separator := by
  intro hnext
  obtain ⟨hlt, -⟩ := List.getElem?_eq_some_iff.mp hnext
  obtain ⟨hlength, -⟩ | hpart := separator_cases hparted hne hk
  · omega
  · obtain ⟨d, hd, hletter, -⟩ := (inPart_iff hparted).mp hpart
    rw [hd] at hnext
    exact hletter (Option.some.inj hnext)

theorem wordAt_lt (hne : ∀ seg ∈ segs, seg ≠ []) (hwords : segs ≠ []) {k : ℕ}
    (hk : k < (assemble segs).length) :
    ∃ n < segs.length, wordAt (assemble segs) k = .ok n := by
  have hpos := List.length_pos_iff.mpr hwords
  obtain ⟨hlength, hcount⟩ | hpart := separator_cases hparted hne (getElem?_last segs)
  · have hmono := separatorsBefore_mono (assemble segs)
      (show k ≤ (assemble segs).length - 1 by omega)
    exact ⟨_, by omega, wordAt_eq hk⟩
  · obtain ⟨d, hd, -⟩ := (inPart_iff hparted).mp hpart
    obtain ⟨hlt, -⟩ := List.getElem?_eq_some_iff.mp hd
    omega

end

theorem wordAt_mono {s : Text} {j k : ℤ} {m n : ℕ} (hjk : j ≤ k) (hj : wordAt s j = .ok m)
    (hk : wordAt s k = .ok n) : m ≤ n := by
  unfold wordAt at hj hk
  split at hj
  · cases hj
  · split at hk
    · cases hk
    · obtain rfl := Except.ok.inj hj
      obtain rfl := Except.ok.inj hk
      exact Nat.sub_le_sub_right (separatorsBefore_mono s (by omega)) 1

end VerseSearch.Highlight
