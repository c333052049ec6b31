import Mathlib.Data.Nat.Notation
import VerseSearch.Proofs.Bundle.Ingestion
import VerseSearch.Proofs.Hebrew.SearchableForms
import VerseSearch.Proofs.Query.Languages
import VerseSearch.VerseIndex

/-! # The layout of search strings

* `body`: parts, each with a separator after it.
* `split_at_separator`, `split_within`: where a separator and a text without separators stand.
* `Lays`: tagged words and their parts of the search string; `lays_of_indexVerse`.
* `segment_eq_letters`, `infix_segment_iff`: letters in the part of a word are letters of its form.
* `segment_eq_segment`: a word with a tag stands in the part of a word only at its end.
-/

namespace VerseSearch.SearchString
set_option autoImplicit false

/-! ## Texts and separators -/

theorem prefix_of_not_mem {sep : Char} {u s x y : Text} (hu : sep ∉ u)
    (h : s ++ sep :: x = u ++ y) : ∃ c, s = u ++ c ∧ y = c ++ sep :: x := by
  obtain ⟨c, rfl, hc⟩ | ⟨c, rfl, hc⟩ := List.append_eq_append_iff.mp h
  · cases c with
    | nil => exact ⟨[], by simp, by simpa using hc.symm⟩
    | cons d c =>
      obtain rfl : sep = d := (List.cons.inj hc).1
      exact absurd (by simp) hu
  · exact ⟨c, rfl, hc⟩

theorem eq_of_not_mem {sep : Char} {s u x y : Text} (hs : sep ∉ s) (hu : sep ∉ u)
    (h : s ++ sep :: x = u ++ sep :: y) : s = u ∧ x = y := by
  obtain ⟨c, rfl, hc⟩ := prefix_of_not_mem hu h
  cases c with
  | nil => exact ⟨by simp, (List.cons.inj hc).2.symm⟩
  | cons d c =>
    obtain rfl : sep = d := (List.cons.inj hc).1
    exact absurd (by simp) hs

/-! ## Parts -/

/-- Parts, each with a separator after it. -/
def body (segs : List Text) : Text := segs.flatMap (· ++ [Hebrew.separator])

theorem assemble_eq (segs : List Text) : assemble segs = Hebrew.separator :: body segs := rfl

@[simp] theorem body_cons (seg : Text) (segs : List Text) :
    body (seg :: segs) = seg ++ Hebrew.separator :: body segs := by
  simp [body]

@[simp] theorem body_append (segs segs' : List Text) : body
    (segs ++ segs') = body segs ++ body segs' := by
  simp [body]

@[simp] theorem assemble_append (pre post : List Text) : assemble
    (pre ++ post) = assemble pre ++ body post := by
  rw [assemble_eq, body_append, assemble_eq, List.cons_append]

theorem assemble_ends (segs : List Text) : ∃ before, assemble segs = before ++ [Hebrew.separator] := by
  obtain rfl | ⟨segs, seg, rfl⟩ := List.eq_nil_or_concat segs
  · exact ⟨[], rfl⟩
  · exact ⟨assemble segs ++ seg, by rw [List.concat_eq_append, assemble_append]; simp [body]⟩

/-- No part holds a separator. -/
def Parted (segs : List Text) : Prop := ∀ seg ∈ segs, Hebrew.separator ∉ seg

theorem Parted.tail {seg : Text} {segs : List Text} (h : Parted (seg :: segs)) : Parted segs :=
  fun s hs => h s (List.mem_cons_of_mem seg hs)

theorem Parted.of_append {pre post : List Text} (h : Parted (pre ++ post)) : Parted post :=
  fun s hs => h s (List.mem_append_right pre hs)

theorem Parted.cut {a s : Text} {post : List Text} (h : Parted ((a ++ s) :: post)) :
    Parted (s :: post) := by
  intro t ht hmem
  obtain rfl | ht := List.mem_cons.mp ht
  · exact h (a ++ t) (List.mem_cons_self ..) (List.mem_append_right a hmem)
  · exact h.tail t ht hmem

theorem count_body {segs : List Text} (h : Parted segs) :
    (body segs).count Hebrew.separator = segs.length := by
  induction segs with
  | nil => rfl
  | cons seg segs ih =>
    have hseg := List.count_eq_zero.mpr (h seg (by simp))
    rw [body_cons, List.count_append, List.count_cons_self, hseg,
      ih h.tail, List.length_cons, Nat.zero_add]

theorem count_assemble {segs : List Text} (h : Parted segs) :
    (assemble segs).count Hebrew.separator = segs.length + 1 := by
  rw [assemble_eq, List.count_cons_self, count_body h]

/-- A separator stands between two parts, before all of them or after them. -/
theorem split_at_separator {segs : List Text} (h : Parted segs) {before rest : Text}
    (heq : assemble segs = before ++ Hebrew.separator :: rest) :
    ∃ pre post, segs = pre ++ post ∧ before ++ [Hebrew.separator] = assemble pre ∧
      rest = body post := by
  induction segs generalizing before with
  | nil =>
    cases before with
    | nil => exact ⟨[], [], rfl, rfl, (List.cons.inj heq).2.symm⟩
    | cons c before => simp [assemble_eq, body] at heq
  | cons seg segs ih =>
    cases before with
    | nil => exact ⟨[], seg :: segs, rfl, rfl, (List.cons.inj heq).2.symm⟩
    | cons c before =>
      rw [assemble_eq, body_cons, List.cons_append] at heq
      obtain ⟨rfl, hrest⟩ := List.cons.inj heq
      have hseg := h seg (by simp)
      obtain ⟨between, rfl, hbetween⟩ | ⟨between, rfl, hbetween⟩ :=
        List.append_eq_append_iff.mp hrest
      · obtain ⟨pre, post, rfl, hpre, hpost⟩ :=
          ih h.tail hbetween
        refine ⟨seg :: pre, post, rfl, ?_, hpost⟩
        rw [assemble_eq, body_cons, ← assemble_eq, ← hpre]
        simp
      · cases between with
        | nil =>
          obtain ⟨-, rfl⟩ := List.cons.inj hbetween
          exact ⟨[before], segs, by simp, by simp [assemble_eq, body], rfl⟩
        | cons d between =>
          obtain rfl : Hebrew.separator = d := (List.cons.inj hbetween).1
          exact absurd (by simp) hseg

theorem split_within {segs : List Text} {before u after : Text} (hne : u ≠ [])
    (hu : Hebrew.separator ∉ u) (heq : assemble segs = before ++ (u ++ after)) :
    ∃ pre a c post, segs = pre ++ (a ++ (u ++ c)) :: post ∧ before = assemble pre ++ a ∧
      after = c ++ Hebrew.separator :: body post := by
  induction segs generalizing before with
  | nil =>
    obtain ⟨d, hd⟩ := List.exists_mem_of_ne_nil u hne
    have hmem : d ∈ assemble [] := heq ▸ List.mem_append_right _ (List.mem_append_left _ hd)
    obtain rfl : d = Hebrew.separator := by simpa [assemble] using hmem
    exact absurd hd hu
  | cons seg segs ih =>
    rw [assemble_eq, body_cons] at heq
    cases before with
    | nil =>
      obtain ⟨d, u, rfl⟩ := List.exists_cons_of_ne_nil hne
      obtain rfl : Hebrew.separator = d := (List.cons.inj heq).1
      exact absurd (by simp) hu
    | cons d before =>
      obtain ⟨rfl, hrest⟩ := List.cons.inj heq
      obtain ⟨between, rfl, hbetween⟩ | ⟨between, rfl, hbetween⟩ :=
        List.append_eq_append_iff.mp hrest
      · obtain ⟨pre, a, c, post, rfl, rfl, rfl⟩ := ih hbetween
        refine ⟨seg :: pre, a, c, post, rfl, ?_, rfl⟩
        rw [assemble_eq (seg :: pre), body_cons, ← assemble_eq]
        simp
      · obtain ⟨c, rfl, rfl⟩ := prefix_of_not_mem hu hbetween.symm
        exact ⟨[], before, c, segs, rfl, by simp [assemble], rfl⟩

/-! ## Words and their parts -/

theorem ofInt_of_nonneg {n : ℤ} (h : 0 ≤ n) : Text.ofInt n = Text.ofNat n.toNat := by
  obtain ⟨m, rfl⟩ := Int.eq_ofNat_of_zero_le h
  rfl

/-- Words with natural tags and their parts of the search string. -/
def Lays (ws : List TaggedWord) (segs : List Text) : Prop :=
  List.Forall₂ (fun w seg => ∃ form, Hebrew.searchable w.word = .ok form ∧ 0 ≤ w.tag ∧
    seg = segment form (Text.ofNat w.tag.toNat)) ws segs

theorem lays_of_segments {ws : List TaggedWord} {segs : List Text} (htags : ∀ w ∈ ws, 0 ≤ w.tag)
    (h : segments (ws.map fun w => (w.word, Text.ofInt w.tag)) = .ok segs) : Lays ws segs := by
  induction ws generalizing segs with
  | nil =>
    obtain rfl := Except.ok.inj h
    exact .nil
  | cons w ws ih =>
    have htag := htags w (by simp)
    rw [List.map_cons, segments] at h
    cases hform : Hebrew.searchable w.word with
    | error e =>
      rw [hform] at h
      cases h
    | ok form =>
      rw [hform] at h
      obtain ⟨rest, hrest, rfl⟩ := ok_of_map h
      refine .cons ⟨form, hform, htag, ?_⟩ (ih (fun w' hw' => htags w' (by simp [hw'])) hrest)
      rw [ofInt_of_nonneg htag]

theorem exists_lays {ws : List TaggedWord} (hwords : ∀ w ∈ ws, ∃ n, Hebrew.normalize w.word = .ok n)
    (htags : ∀ w ∈ ws, 0 ≤ w.tag) : ∃ segs, Lays ws segs ∧ ofWords ws = .ok (assemble segs) := by
  have hsegments : ∃ segs, segments (ws.map fun w => (w.word, Text.ofInt w.tag)) = .ok segs := by
    clear htags
    induction ws with
    | nil => exact ⟨[], rfl⟩
    | cons w ws ih =>
      obtain ⟨segs, hsegs⟩ := ih fun x hx => hwords x (List.mem_cons_of_mem w hx)
      obtain ⟨n, hn⟩ := hwords w (List.mem_cons_self ..)
      have hform := Hebrew.searchable_of_normalize hn
      exact ⟨_, by rw [List.map_cons, segments, hform, hsegs]; rfl⟩
  obtain ⟨segs, hsegs⟩ := hsegments
  refine ⟨segs, lays_of_segments htags hsegs, ?_⟩
  rw [ofWords, ofTexts, hsegs]
  rfl

/-- The search string of an indexed verse is made of the parts of its words. -/
theorem lays_of_indexVerse {index : ℕ} {book : Text} {chapter verse : ℕ} {ws : List TaggedWord}
    {v : IndexedVerse} (h : VerseIndex.indexVerse index book chapter verse ws = .ok v)
    (htags : ∀ w ∈ ws, 0 ≤ w.tag) : ∃ segs, Lays ws segs ∧ v.searchString = assemble segs := by
  rw [VerseIndex.indexVerse] at h
  split at h
  · cases h
  · cases h
  · next hstring =>
    obtain rfl := Except.ok.inj h
    rw [ofWords, ofTexts] at hstring
    obtain ⟨segs, hsegs, rfl⟩ := ok_of_map hstring
    exact ⟨segs, lays_of_segments htags hsegs, rfl⟩

/-! ## Forms -/

theorem letters_of_searchable {t form : Text} (h : Hebrew.searchable t = .ok form) :
    ∀ c ∈ form, c ∈ Hebrew.letters := fun c hc =>
  Hebrew.mem_letters_of_isPlainLetter (Hebrew.plain_of_searchable h c hc)

/-! ## Texts in the part of a word -/

theorem segment_eq (form tag : Text) : segment form tag = form ++ '<' :: (tag ++ ['>']) := by
  rw [segment, List.append_assoc, List.cons_append]

section
open Text (digits)
open Query (anyLetter digits_spec)
variable {form tag : Text} (hform : ∀ c ∈ form, anyLetter.accepts c = true)
  (htag : ∀ c ∈ tag, c ∈ digits)
include hform htag

theorem separator_not_mem_segment : Hebrew.separator ∉ segment form tag := by
  intro h
  rw [segment_eq, List.mem_append, List.mem_cons, List.mem_append, List.mem_singleton] at h
  obtain h | h | h | h := h
  · exact absurd (hform _ h) (by decide)
  · exact absurd h (by decide)
  · exact absurd (htag _ h) (by decide)
  · exact absurd h (by decide)

theorem count_segment : (segment form tag).count '<' = 1 := by
  have hform' : '<' ∉ form := fun h => absurd (hform _ h) (by decide)
  have htag' : '<' ∉ tag := fun h => absurd (htag _ h) (by decide)
  rw [segment_eq, List.count_append, List.count_cons_self, List.count_append,
    List.count_eq_zero.mpr hform', List.count_eq_zero.mpr htag']
  rfl

/-- Letters in the part of a word are letters of its form. -/
theorem segment_eq_letters {a u c : Text} (hne : u ≠ []) (hu : ∀ d ∈ u, anyLetter.accepts d = true)
    (h : segment form tag = a ++ (u ++ c)) :
    ∃ r, form = a ++ (u ++ r) ∧ c = r ++ '<' :: (tag ++ ['>']) := by
  have hform' : '<' ∉ form := fun h => absurd (hform _ h) (by decide)
  have hu' : '<' ∉ u := fun h => absurd (hu _ h) (by decide)
  rw [segment_eq] at h
  have ha : '<' ∉ a := by
    -- else the letters would stand in the tag
    intro hmem
    obtain ⟨x, y, rfl, hx⟩ := List.eq_append_cons_of_mem hmem
    rw [List.append_assoc, List.cons_append] at h
    obtain ⟨-, htags⟩ := eq_of_not_mem hform' hx h
    obtain ⟨d, hd⟩ := List.exists_mem_of_ne_nil u hne
    have hmem : d ∈ tag ++ ['>'] := htags ▸ by simp [hd]
    obtain hmem | hmem := List.mem_append.mp hmem
    · have := (digits_spec (htag d hmem)).2.2.2.2
      rw [hu d hd] at this
      cases this
    · obtain rfl := List.mem_singleton.mp hmem
      exact absurd (hu _ hd) (by decide)
  have hau : '<' ∉ a ++ u := by simp [ha, hu']
  rw [← List.append_assoc] at h
  obtain ⟨r, hr, hc⟩ := prefix_of_not_mem hau h
  exact ⟨r, by rw [hr, List.append_assoc], hc⟩

/-- A word with a tag stands in the part of a word only at its end, with the same tag. -/
theorem segment_eq_segment {a w tag' c : Text} (hw : ∀ d ∈ w, anyLetter.accepts d = true)
    (htag' : ∀ d ∈ tag', d ∈ digits) (h : segment form tag = a ++ (segment w tag' ++ c)) :
    form = a ++ w ∧ tag = tag' ∧ c = [] := by
  have hcount := congrArg (List.count '<') h
  rw [List.count_append, List.count_append, count_segment hform htag, count_segment hw htag'] at hcount
  have ha : '<' ∉ a := List.count_eq_zero.mp (by omega)
  have hw' : '<' ∉ w := fun h => absurd (hw _ h) (by decide)
  have hform' : '<' ∉ form := fun h => absurd (hform _ h) (by decide)
  have hclose : ∀ t : Text, (∀ d ∈ t, d ∈ digits) → '>' ∉ t := fun t ht h =>
    absurd (ht _ h) (by decide)
  have haw : '<' ∉ a ++ w := by simp [ha, hw']
  rw [segment_eq, segment_eq] at h
  simp only [List.append_assoc, List.cons_append, List.nil_append] at h
  rw [← List.append_assoc] at h
  obtain ⟨hforms, htags⟩ := eq_of_not_mem hform' haw h
  obtain ⟨htags, hnil⟩ := eq_of_not_mem (hclose tag htag) (hclose tag' htag') htags
  exact ⟨hforms, htags, hnil.symm⟩

theorem infix_segment_iff {u : Text} (hne : u ≠ []) (hu : ∀ d ∈ u, anyLetter.accepts d = true) :
    u <:+: segment form tag ↔ u <:+: form := by
  constructor
  · rintro ⟨a, c, h⟩
    rw [List.append_assoc] at h
    obtain ⟨r, rfl, -⟩ := segment_eq_letters hform htag hne hu h.symm
    exact ⟨a, r, by rw [List.append_assoc]⟩
  · intro h
    rw [segment_eq]
    exact h.trans (List.prefix_append _ _).isInfix

end

/-! ## The words of a verse -/

theorem accepts_of_searchable {t form : Text} (h : Hebrew.searchable t = .ok form) :
    ∀ c ∈ form, Query.anyLetter.accepts c = true := fun c hc =>
  Query.accepts_anyLetter (letters_of_searchable h c hc)

theorem digits_of_ofNat {n : ℕ} : ∀ c ∈ Text.ofNat n, c ∈ Text.digits := fun _ =>
  Text.mem_digits_of_mem_ofNat

/-- What a query of signs matches stands inside words. -/
theorem inner_of_mem_prod {t u : Text} (ht : ∀ c ∈ t, Query.isSign c = true)
    (hvisible : ∃ c ∈ t, c ≠ '@') (hu : u ∈ (t.map Query.matched).prod) :
    u ≠ [] ∧ Hebrew.separator ∉ u := by
  refine ⟨Query.ne_nil_of_mem_prod hvisible hu, fun hsep => ?_⟩
  exact absurd (Query.accepts_of_mem_prod ht hu _ hsep) (by decide)

theorem inner_of_mem_entriesLanguage {entries : List Entry} {u : Text}
    (hu : u ∈ Query.entriesLanguage entries) : u ≠ [] ∧ Hebrew.separator ∉ u := by
  obtain ⟨w, e, -, hw, -, rfl⟩ := Query.mem_entriesLanguage.mp hu
  exact ⟨by simp [segment], separator_not_mem_segment hw digits_of_ofNat⟩

theorem Lays.getElem?_iff {ws : List TaggedWord} {segs : List Text} (h : Lays ws segs) {n : ℕ}
    {seg : Text} : segs[n]? = some seg ↔ ∃ w form, ws[n]? = some w ∧
      Hebrew.searchable w.word = .ok form ∧ 0 ≤ w.tag ∧
        seg = segment form (Text.ofNat w.tag.toNat) := by
  induction h generalizing n with
  | nil => simp
  | cons hw hrest ih =>
    obtain ⟨form, hform, htag, rfl⟩ := hw
    cases n with
    | zero => simp [hform, htag, eq_comm]
    | succ n => simpa using ih

theorem Lays.ne_nil {ws : List TaggedWord} {segs : List Text} (h : Lays ws segs) :
    ∀ seg ∈ segs, seg ≠ [] := by
  intro seg hseg
  obtain ⟨n, hn⟩ := List.getElem?_of_mem hseg
  obtain ⟨w, form, -, -, -, rfl⟩ := h.getElem?_iff.mp hn
  simp [segment]

theorem Lays.parted {ws : List TaggedWord} {segs : List Text} (h : Lays ws segs) : Parted segs := by
  intro seg hseg
  obtain ⟨n, hn⟩ := List.getElem?_of_mem hseg
  obtain ⟨w, form, -, hform, -, rfl⟩ := h.getElem?_iff.mp hn
  exact separator_not_mem_segment (accepts_of_searchable hform) digits_of_ofNat

end VerseSearch.SearchString
