import VerseSearch.Proofs.Hebrew.SearchableForms
import VerseSearch.Proofs.Query.Languages

/-! # Words of queries

A word of a query is made of letters, and a bare shin in it is a shin or a sin.

* `isForm`: the searchable forms that a word of a query stands for.
* `mem_described_iff`, `mem_matched_iff_isForm`: the languages of a word hold these forms.
* `isForm_iff_eq`: a word that is a searchable form stands for itself.
-/

namespace VerseSearch.Query
set_option autoImplicit false

open Hebrew (bareShin isPlainLetter shin sin toRegular)

/-! ## Forms -/

/-- Whether a letter of a query stands for a letter of a form. -/
def standsFor (c d : Char) : Bool := if c = bareShin then d = shin || d = sin else d = toRegular c

/-- Whether a word of a query stands for a searchable form. -/
def isForm : Text → Text → Bool
  | [], [] => true
  | c :: q, d :: form => standsFor c d && isForm q form
  | _, _ => false

/-- The letters of queries, a bare shin among them. -/
def IsLetters (q : Text) : Prop := ∀ c ∈ q, Hebrew.isLetter c = true ∨ c = bareShin

theorem isLetters_of_plain {form : Text} (hform : ∀ c ∈ form, isPlainLetter c = true) :
    IsLetters form := fun c hc =>
  .inl (by simpa [Hebrew.isLetter] using Hebrew.mem_letters_of_isPlainLetter (hform c hc))

theorem described_of_letter {c : Char} (hc : Hebrew.isLetter c = true ∨ c = bareShin) :
    described c = Pattern.oneWith fun d => standsFor c d = true := by
  have hat : c ≠ '@' := by
    rintro rfl
    exact absurd hc (by decide)
  have hany : c ≠ '#' := by
    rintro rfl
    exact absurd hc (by decide)
  rw [described, if_neg hat, if_neg hany]
  by_cases hbare : c = bareShin
  · simp [hbare, standsFor, Pattern.oneOf]
  · simp [hbare, standsFor, Pattern.oneOf]

theorem mem_described_iff {q : Text} (hq : IsLetters q) {form : Text} :
    form ∈ (q.map described).prod ↔ isForm q form = true := by
  induction q generalizing form with
  | nil => cases form <;> simp [isForm, Language.mem_one]
  | cons c q ih =>
    have hrest : ∀ {form : Text}, form ∈ (q.map described).prod ↔ isForm q form = true :=
      ih fun d hd => hq d (List.mem_cons_of_mem c hd)
    rw [List.map_cons, List.prod_cons, described_of_letter (hq c (by simp)), Language.mem_mul]
    constructor
    · rintro ⟨_, ⟨d, hd, rfl⟩, v, hv, rfl⟩
      simp [isForm, hd, hrest.mp hv]
    · intro h
      cases form with
      | nil => simp [isForm] at h
      | cons d form =>
        obtain ⟨hd, hform⟩ := Bool.and_eq_true_iff.mp h
        exact ⟨[d], ⟨d, hd, rfl⟩, form, hrest.mpr hform, rfl⟩

/-- A searchable form stands for itself alone. -/
theorem isForm_iff_eq {form u : Text} (hform : ∀ c ∈ form, isPlainLetter c = true) :
    isForm form u = true ↔ u = form := by
  induction form generalizing u with
  | nil => cases u <;> simp [isForm]
  | cons c form ih =>
    obtain ⟨hc, hform⟩ := List.forall_mem_cons.mp hform
    cases u with
    | nil => simp [isForm]
    | cons d u =>
      have hbare : c ≠ bareShin := by
        rintro rfl
        exact absurd hc (by decide)
      simp [isForm, standsFor, hbare, Hebrew.toRegular_of_isPlainLetter hc, ih hform]

/-! ## Patterns of words -/

theorem matched_of_letter {c : Char} (hc : Hebrew.isLetter c = true ∨ c = bareShin) :
    matched c = Pattern.oneWith fun d => standsFor c d = true := by
  have hany : c ≠ '#' := by
    rintro rfl
    exact absurd hc (by decide)
  rw [matched, if_neg hany, described_of_letter hc]

theorem letter_of_standsFor {c d : Char} (hc : Hebrew.isLetter c = true ∨ c = bareShin)
    (h : standsFor c d = true) : d ∈ Hebrew.letters := by
  have hregular : ∀ c ∈ Hebrew.letters, toRegular c ∈ Hebrew.letters := by decide
  rw [standsFor] at h
  split at h
  · obtain h | h := by simpa using h
    · rw [h]
      decide
    · rw [h]
      decide
  · next hbare =>
    rw [of_decide_eq_true h]
    exact hregular c (by simpa [Hebrew.isLetter] using hc.resolve_right hbare)

theorem letters_of_mem_prod {w : Text} (hw : IsLetters w) {u : Text} (hu : u ∈ (w.map matched).prod) :
    ∀ d ∈ u, d ∈ Hebrew.letters := by
  induction w generalizing u with
  | nil =>
    obtain rfl : u = [] := hu
    simp
  | cons c w ih =>
    have hc := hw c (by simp)
    rw [List.map_cons, List.prod_cons, matched_of_letter hc, Language.mem_mul] at hu
    obtain ⟨_, ⟨e, he, rfl⟩, v, hv, rfl⟩ := hu
    intro d hd
    obtain rfl | hd := List.mem_cons.mp hd
    · exact letter_of_standsFor hc he
    · exact ih (fun f hf => hw f (List.mem_cons_of_mem c hf)) hv d hd

theorem mem_matched_iff_isForm {w : Text} (hw : IsLetters w) {u : Text} :
    u ∈ (w.map matched).prod ↔ isForm w u = true := by
  have hsame : w.map matched = w.map described := List.map_congr_left fun c hc => by
    rw [matched_of_letter (hw c hc), described_of_letter (hw c hc)]
  rw [hsame, mem_described_iff hw]

end VerseSearch.Query
