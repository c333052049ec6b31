import Mathlib.Data.Char
import Mathlib.Data.List.Lex
import VerseSearch.Proofs.Bundle.Ingestion

/-! # The searchable forms of a lexicon

* `Text.precedes_iff`: the order of texts is the lexicographic one.
* `Lexicon.pairwise_forms`, `Lexicon.mem_forms`: the forms that are not empty, each once and in order.
* `Lexicon.HasOwnForms`: every entry with a word has the searchable form of its word;
  `Lexicon.hasOwnForms_of_ofRows`, `Lexicon.Ingested.hasOwnForms`.
-/

namespace VerseSearch
set_option autoImplicit false

theorem Text.precedes_iff {s t : Text} : s.precedes t = true ↔ s < t := by
  induction s generalizing t with
  | nil => cases t <;> simp [precedes]
  | cons a s ih =>
    cases t with
    | nil => simp [precedes]
    | cons b t =>
      have hfirst : a.toNat < b.toNat ↔ a < b := Iff.rfl
      simp [precedes, List.cons_lt_cons_iff, ih, hfirst]

namespace Lexicon

/-! ## Forms in order -/

section
variable {t : Text} {fs : List Text}

@[simp] theorem mem_insertForm {s : Text} : s ∈ insertForm t fs ↔ s = t ∨ s ∈ fs := by
  induction fs with
  | nil => simp [insertForm]
  | cons u fs ih =>
    rw [insertForm]
    split
    · exact List.mem_cons
    · split
      · next heq => simp [heq]
      · rw [List.mem_cons, ih, List.mem_cons, or_left_comm]

theorem pairwise_insertForm (h : fs.Pairwise (· < ·)) : (insertForm t fs).Pairwise (· < ·) := by
  induction fs with
  | nil => exact List.pairwise_singleton _ _
  | cons u fs ih =>
    obtain ⟨hu, hfs⟩ := List.pairwise_cons.mp h
    rw [insertForm]
    simp only [Text.precedes_iff]
    obtain hlt | heq | hgt := lt_trichotomy t u
    · rw [if_pos hlt]
      refine List.pairwise_cons.mpr ⟨?_, h⟩
      exact List.forall_mem_cons.mpr ⟨hlt, fun s hs => hlt.trans (hu s hs)⟩
    · rw [if_neg heq.not_lt, if_pos heq]
      exact h
    · rw [if_neg hgt.not_gt, if_neg hgt.ne']
      refine List.pairwise_cons.mpr ⟨fun s hs => ?_, ih hfs⟩
      obtain rfl | hs := mem_insertForm.mp hs
      · exact hgt
      · exact hu s hs

end

theorem pairwise_forms (l : Lexicon) : l.forms.Pairwise (· < ·) := by
  have key : ∀ ts fs : List Text, fs.Pairwise (· < ·) →
      (ts.foldl (fun fs t => insertForm t fs) fs).Pairwise (· < ·) := by
    intro ts
    induction ts with
    | nil => exact fun _ h => h
    | cons t ts ih => exact fun fs h => ih _ (pairwise_insertForm h)
  exact key _ [] List.Pairwise.nil

theorem nodup_forms (l : Lexicon) : l.forms.Nodup := l.pairwise_forms.imp fun h => h.ne

@[simp] theorem mem_forms {l : Lexicon} {s : Text} :
    s ∈ l.forms ↔ s ≠ [] ∧ ∃ e ∈ l.entries, e.searchable = s := by
  have key : ∀ ts fs : List Text, s ∈ ts.foldl (fun fs t => insertForm t fs) fs ↔ s ∈ ts ∨ s ∈ fs := by
    intro ts
    induction ts with
    | nil => simp
    | cons t ts ih =>
      intro fs
      rw [List.foldl_cons, ih, mem_insertForm, List.mem_cons, or_left_comm, or_assoc]
  rw [forms, key]
  simp [and_comm]

end Lexicon

/-! ## Forms of words -/

/-- An entry has no word, or the searchable form of its word. -/
def Entry.HasOwnForm (e : Entry) : Prop :=
  e = .sentinel e.tag ∨ e.isSentinel = false ∧ Hebrew.searchable e.word = .ok e.searchable

namespace Lexicon

/-- Every entry of the lexicon with a word has the searchable form of its word. -/
def HasOwnForms (l : Lexicon) : Prop := ∀ e ∈ l.entries, e.HasOwnForm

theorem hasOwnForms_of_ofRows {rows : List Row} {l : Lexicon} (h : ofRows rows = .ok l) :
    l.HasOwnForms := by
  obtain ⟨found, hfound, rfl⟩ := ofRows_eq_ok_iff.mp h
  intro e he
  obtain hmem | hsentinel := mem_of_mem_ofEntries he
  · simp only [List.mem_filterMap, id_eq, exists_eq_right] at hmem
    obtain ⟨row, -, hrow⟩ := exists_of_forall₂ hfound _ hmem
    obtain ⟨tag, -, ⟨-, rfl⟩ | ⟨hcat, word, form, -, hform, rfl⟩⟩ := Row.entry?_eq_some_iff.mp hrow
    · exact .inl rfl
    · exact .inr ⟨by simpa [Entry.isSentinel] using hcat, hform⟩
  · exact .inl hsentinel

theorem Ingested.hasOwnForms {l : Lexicon} (h : l.Ingested) : l.HasOwnForms := by
  intro e he
  obtain ⟨n, hn⟩ := List.mem_iff_getElem?.mp he
  obtain ⟨-, hsentinel | ⟨hknown, -, -, hform⟩⟩ := h n e hn
  · exact .inl rfl
  · exact .inr ⟨by simpa [Entry.isSentinel] using Category.ne_unknown _ hknown, hform⟩

end Lexicon

end VerseSearch
