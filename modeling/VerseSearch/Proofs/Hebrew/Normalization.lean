import Mathlib.Data.List.Basic
import Mathlib.Data.List.TakeWhile
import VerseSearch.Hebrew.Spelling
import VerseSearch.Proofs.Text.Fields

/-! # Normalized words

* `toRegular_cases`: a final form and its letter, or a character that stays as it is.
* `compose_of_not_mem`: a text without dots has nothing to compose.
* `cutVerseEnd_cutVerseEnd`: a text has one end of a verse.
* `contains_of_normalize`: a normalized text consists of symbols.
* `normalize_of_contains`: a text of symbols has a normalized form.
* `normalize_of_normalize`: a normalized text is its own normalized form.
-/

namespace VerseSearch.Hebrew
set_option autoImplicit false

/-! ## Final forms -/

/-- A character is its own letter unless it is a final form. -/
theorem toRegular_cases (c : Char) :
    toRegular c = c ∨ ∃ f ∈ finalForms, c = f.1 ∧ toRegular c = f.2 := by
  rw [toRegular]
  cases h : finalForms.lookup c with
  | none => exact .inl rfl
  | some e =>
    obtain ⟨before, after, hsplit, -⟩ := List.lookup_eq_some_iff.mp h
    exact .inr ⟨(c, e), by rw [hsplit]; simp, rfl, rfl⟩

theorem toRegular_eq_iff {c d : Char} (hd : ∀ f ∈ finalForms, d ≠ f.1 ∧ d ≠ f.2) :
    toRegular c = d ↔ c = d := by
  obtain h | ⟨f, hf, hc, h⟩ := toRegular_cases c
  · rw [h]
  · rw [h, hc]
    exact ⟨fun heq => absurd heq.symm (hd f hf).2, fun heq => absurd heq.symm (hd f hf).1⟩

theorem toRegular_of_not_final {c : Char} (hc : ∀ f ∈ finalForms, c ≠ f.1 ∧ c ≠ f.2) :
    toRegular c = c := (toRegular_eq_iff hc).mpr rfl

theorem mem_regularize_iff {t : Text} {d : Char} (hd : ∀ f ∈ finalForms, d ≠ f.1 ∧ d ≠ f.2) :
    d ∈ regularize t ↔ d ∈ t := by
  simp only [regularize, List.mem_map, toRegular_eq_iff hd, exists_eq_right]

/-! ## Shin and sin -/

theorem beforeLast_of_not_mem {c : Char} {t : Text} (h : c ∉ t) : beforeLast c t = none := by
  induction t with
  | nil => rfl
  | cons d t ih =>
    obtain ⟨hd, ht⟩ := List.ne_and_not_mem_of_not_mem_cons h
    rw [beforeLast, ih ht]
    simp [Ne.symm hd]

theorem composeShin_of_not_mem {t : Text} (h : shinDot ∉ t) : composeShin t = t := by
  fun_induction composeShin t with
  | case1 => rfl
  | case2 rest marks hmarks ih =>
    have hrest : shinDot ∉ rest.takeWhile isInterleaved := fun hmem =>
      h (List.mem_cons_of_mem _ ((List.takeWhile_prefix _).subset hmem))
    rw [beforeLast_of_not_mem hrest] at hmarks
    cases hmarks
  | case3 rest hmarks ih => rw [ih fun hmem => h (List.mem_cons_of_mem _ hmem)]
  | case4 c rest hc ih => rw [ih fun hmem => h (List.mem_cons_of_mem _ hmem)]

theorem composeSin_of_not_mem {t : Text} (h : sinDot ∉ t) : composeSin t = t := by
  fun_induction composeSin t with
  | case1 => rfl
  | case2 rest marks hdot ih => exact absurd (List.mem_cons_of_mem _ (List.mem_of_getElem? hdot)) h
  | case3 rest marks hdot ih => rw [ih fun hmem => h (List.mem_cons_of_mem _ hmem)]
  | case4 c rest hc ih => rw [ih fun hmem => h (List.mem_cons_of_mem _ hmem)]

theorem compose_of_not_mem {t : Text} (hshin : shinDot ∉ t) (hsin : sinDot ∉ t) : compose t = t := by
  rw [compose, composeShin_of_not_mem hshin, composeSin_of_not_mem hsin]

/-! ## The end of a verse -/

/-- Every text has a longest end of verse-end characters. -/
theorem exists_verseEnd (t : Text) : ∃ a b, t = a ++ b ∧ (∀ c ∈ a.getLast?, isVerseEnd c = false) ∧
    ∀ c ∈ b, isVerseEnd c = true := by
  obtain ⟨b, ht, hb⟩ := Text.exists_dropRightWhile isVerseEnd t
  exact ⟨_, b, ht, fun c => Text.of_getLast?_dropRightWhile, hb⟩

theorem verseEnd_append {a b : Text} (ha : ∀ c ∈ a.getLast?, isVerseEnd c = false)
    (hb : ∀ c ∈ b, isVerseEnd c = true) : ((a ++ b).reverse.takeWhile isVerseEnd).reverse = b := by
  have htake : a.reverse.takeWhile isVerseEnd = [] := by
    rw [List.getLast?_eq_head?_reverse] at ha
    cases h : a.reverse with
    | nil => rfl
    | cons c rest => simp [ha c (by simp [h])]
  rw [List.reverse_append, List.takeWhile_append_of_pos (by simpa using hb), htake, List.append_nil,
    List.reverse_reverse]

theorem cutVerseEnd_append {a b : Text} (ha : ∀ c ∈ a.getLast?, isVerseEnd c = false)
    (hb : ∀ c ∈ b, isVerseEnd c = true) (hbreak : (a ++ b).getLast? ≠ some '\n') :
    cutVerseEnd (a ++ b) = a ++ b.takeWhile (· ≠ sofPasuq) := by
  rw [cutVerseEnd, splitFinalBreak, if_neg hbreak]
  simp only [verseEnd_append ha hb, List.length_append, Nat.add_sub_cancel, List.take_left',
    List.append_nil]

/-- A line feed at the end stays where it is. -/
theorem cutVerseEnd_append_break {a b : Text} (ha : ∀ c ∈ a.getLast?, isVerseEnd c = false)
    (hb : ∀ c ∈ b, isVerseEnd c = true) :
    cutVerseEnd (a ++ b ++ ['\n']) = a ++ b.takeWhile (· ≠ sofPasuq) ++ ['\n'] := by
  rw [cutVerseEnd, splitFinalBreak, if_pos (by simp), List.dropLast_concat]
  simp only [verseEnd_append ha hb, List.length_append, Nat.add_sub_cancel, List.take_left']

theorem cutVerseEnd_cutVerseEnd {t : Text} (h : '\n' ∉ cutVerseEnd t) :
    cutVerseEnd (cutVerseEnd t) = cutVerseEnd t := by
  have hbreak : t.getLast? ≠ some '\n' := fun hlast => by
    rw [cutVerseEnd, splitFinalBreak, if_pos hlast] at h
    simp at h
  obtain ⟨a, b, rfl, ha, hb⟩ := exists_verseEnd t
  rw [cutVerseEnd_append ha hb hbreak] at h ⊢
  rw [cutVerseEnd_append ha (fun c hc => hb c ((List.takeWhile_prefix _).subset hc))
    fun hlast => h (List.mem_of_getLast? hlast), List.takeWhile_idem]

theorem mem_of_mem_cutVerseEnd {t : Text} {c : Char} (h : c ∈ cutVerseEnd t) : c ∈ t := by
  have hsplit : (splitFinalBreak t).1 ++ (splitFinalBreak t).2 = t := by
    rw [splitFinalBreak]
    split
    · next hlast => exact List.dropLast_append_getLast? _ hlast
    · exact List.append_nil t
  rw [← hsplit]
  simp only [cutVerseEnd, List.mem_append] at h ⊢
  obtain (hbody | htail) | hfinal := h
  · exact .inl (List.mem_of_mem_take hbody)
  · have htail := List.mem_reverse.mp ((List.takeWhile_prefix _).subset htail)
    exact .inl (List.mem_reverse.mp ((List.takeWhile_prefix _).subset htail))
  · exact .inr hfinal

/-! ## Symbols -/

theorem normalize_eq_ok_iff {t n : Text} :
    normalize t = .ok n ↔ canonical t = n ∧ ∀ c ∈ n, Alphabet.hebrew.contains c = true := by
  rw [normalize, normalizeIn]
  cases hf : (canonical t).find? fun c => !Alphabet.hebrew.contains c with
  | some c =>
    have hc : Alphabet.hebrew.contains c = false := by simpa using List.find?_some hf
    refine ⟨nofun, ?_⟩
    rintro ⟨rfl, hsymbols⟩
    rw [hsymbols c (List.mem_of_find?_eq_some hf)] at hc
    cases hc
  | none =>
    simp only [Except.ok.injEq]
    refine ⟨?_, And.left⟩
    rintro rfl
    exact ⟨rfl, by simpa using List.find?_eq_none.mp hf⟩

theorem contains_of_normalize {t n : Text} (h : normalize t = .ok n) :
    ∀ c ∈ n, Alphabet.hebrew.contains c = true := (normalize_eq_ok_iff.mp h).2

theorem not_mem_of_contains {n : Text} (hn : ∀ c ∈ n, Alphabet.hebrew.contains c = true) {c : Char}
    (hc : Alphabet.hebrew.contains c = false) : c ∉ n := fun hmem => by
  rw [hn c hmem] at hc
  cases hc

theorem compose_of_contains {n : Text} (hn : ∀ c ∈ n, Alphabet.hebrew.contains c = true) :
    compose n = n :=
  compose_of_not_mem (not_mem_of_contains hn (by decide)) (not_mem_of_contains hn (by decide))

theorem normalize_of_contains {t : Text} (ht : ∀ c ∈ t, Alphabet.hebrew.contains c = true) :
    ∃ n, normalize t = .ok n := by
  refine ⟨canonical t, normalize_eq_ok_iff.mpr ⟨rfl, fun c hc => ht c ?_⟩⟩
  have hfiltered := mem_of_mem_cutVerseEnd hc
  rw [compose_of_contains ht] at hfiltered
  exact (List.mem_filter.mp hfiltered).1

theorem searchable_of_normalize {t n : Text} (h : normalize t = .ok n) :
    searchable t = .ok (regularize (keepLetters n)) := by
  rw [searchable, searchableIn, ← normalize, h]
  rfl

/-- Normalization leaves nothing to compose, to drop or to cut. -/
theorem normalize_of_normalize {t n : Text} (h : normalize t = .ok n) : normalize n = .ok n := by
  obtain ⟨hcanonical, hsymbols⟩ := normalize_eq_ok_iff.mp h
  have hmaqaf : maqaf ∉ n := not_mem_of_contains hsymbols (by decide)
  have hdropped : n.filter (· ≠ maqaf) = n :=
    List.filter_eq_self.mpr fun c hc => decide_eq_true fun heq => hmaqaf (heq ▸ hc)
  have hcut : cutVerseEnd n = n := by
    have hbreak : '\n' ∉ canonical t := hcanonical ▸ not_mem_of_contains hsymbols (by decide)
    rw [← hcanonical]
    exact cutVerseEnd_cutVerseEnd hbreak
  have hself : canonical n = n := by rw [canonical, compose_of_contains hsymbols, hdropped, hcut]
  exact normalize_eq_ok_iff.mpr ⟨hself, hsymbols⟩

end VerseSearch.Hebrew
