import Mathlib.Order.Lattice.Nat
import VerseSearch.Proofs.Matching.Scanning
import VerseSearch.Proofs.Query.Grouping
import VerseSearch.Proofs.Search.WholeWords

/-! # Matches of words in parentheses

A space right after an opening parenthesis gets a slot for a tag, so a match of the words in parentheses
takes in the tag before them.

* `prefixFree_phrase`: no text of a phrase begins with another one.
* `endsPlainly_phrase`: no text of a phrase ends inside a tag.
* `tagStart`: where an optional tag before a place begins.
* `findAll_grouped`: in parentheses, matches begin with the tag before them.
-/

namespace VerseSearch.Query
set_option autoImplicit false

open Pattern (SpanOf PrefixFree)

/-! ## The languages of words -/

theorem inWords_of_letters {w : Text} (hw : w ≠ [] ∧ IsLetters w) :
    SearchString.InWords (w.map matched).prod := by
  have hsound : (Item.word w).IsSound ⟨[]⟩ false := hw
  exact hsound.inWords

/-- A sign of a tag. -/
def IsTagSign (c : Char) : Prop := c = '<' ∨ c = '>' ∨ Text.isDigit c = true

theorem tagSign_of_mem_slot {u : Text} (hu : u ∈ slotLanguage) : ∀ c ∈ u, IsTagSign c := by
  intro c hc
  obtain rfl | ⟨digits, -, hdigits, rfl⟩ := mem_slotLanguage.mp hu
  · simp at hc
  · simp only [List.mem_cons, List.mem_append, List.not_mem_nil, or_false] at hc
    obtain h | h | h := hc
    · exact .inl h
    · exact .inr (.inr (hdigits c h))
    · exact .inr (.inl h)

theorem not_tagSign_of_letter {c : Char} (hc : c ∈ Hebrew.letters) : ¬ IsTagSign c := by
  have hall : ∀ c ∈ Hebrew.letters, c ≠ '<' ∧ c ≠ '>' ∧ Text.isDigit c = false := by decide
  obtain ⟨hopen, hclose, hdigit⟩ := hall c hc
  simp [IsTagSign, hopen, hclose, hdigit]

theorem not_tagSign_separator : ¬ IsTagSign Hebrew.separator := by
  have h : Text.isDigit ' ' = false := by decide
  simp [IsTagSign, h, Hebrew.separator]

/-- Every text of the language ends with a character that is no sign of a tag. -/
def EndsPlainly (L : Language Char) : Prop := ∀ u ∈ L, ∃ c ∈ u.getLast?, ¬ IsTagSign c

theorem EndsPlainly.mul {L M : Language Char} (h : EndsPlainly M) : EndsPlainly (L * M) := by
  intro _ hu
  obtain ⟨u, -, v, hv, rfl⟩ := Language.mem_mul.mp hu
  obtain ⟨c, hc, hplain⟩ := h v hv
  refine ⟨c, ?_, hplain⟩
  rw [List.getLast?_append_of_ne_nil _ (by rintro rfl; simp at hc)]
  exact hc

theorem endsPlainly_separator : EndsPlainly {[' ']} := by
  rintro _ rfl
  exact ⟨' ', rfl, not_tagSign_separator⟩

theorem prefixFree_slot : PrefixFree (slotLanguage * {[' ']}) :=
  Pattern.prefixFree_of_last fun _ => SearchString.separator_not_mem_slot

theorem prefixFree_spaced {trail : Bool} {Ls : List (Language Char)} (h : ∀ L ∈ Ls, PrefixFree L) :
    PrefixFree (spacedLanguage trail Ls) := by
  induction Ls with
  | nil => exact Pattern.prefixFree_one
  | cons L Ls ih =>
    have hL := h L (by simp)
    cases Ls with
    | nil =>
      refine hL.mul ?_
      cases trail with
      | false => exact Pattern.prefixFree_one
      | true => exact prefixFree_slot
    | cons M Ls =>
      rw [spacedLanguage, ← mul_assoc slotLanguage]
      exact hL.mul (prefixFree_slot.mul (ih fun N hN => h N (List.mem_cons_of_mem L hN)))

theorem endsPlainly_spaced {trail : Bool} {Ls : List (Language Char)} (hLs : Ls ≠ [])
    (h : ∀ L ∈ Ls, EndsPlainly L) : EndsPlainly (spacedLanguage trail Ls) := by
  induction Ls with
  | nil => exact absurd rfl hLs
  | cons L Ls ih =>
    cases Ls with
    | nil =>
      cases trail with
      | false => simpa [spacedLanguage] using h L (by simp)
      | true => exact endsPlainly_separator.mul.mul
    | cons M Ls =>
      rw [spacedLanguage]
      exact (ih (by simp) fun N hN => h N (List.mem_cons_of_mem L hN)).mul.mul.mul

section
variable {words : List Text} (hwords : words ≠ []) (hletters : ∀ w ∈ words, w ≠ [] ∧ IsLetters w)

include hletters

omit hwords in
theorem prefixFree_words (trail : Bool) :
    PrefixFree (spacedLanguage trail (words.map fun w => (w.map matched).prod)) := by
  refine prefixFree_spaced ?_
  simp only [List.forall_mem_map]
  refine fun w hw => PrefixFree.prod fun c hc => ?_
  rw [matched_of_letter ((hletters w hw).2 c hc)]
  exact Pattern.prefixFree_oneWith _

omit hwords in
theorem prefixFree_phrase (lead trail : Bool) : PrefixFree (phraseLanguage lead trail words) := by
  refine PrefixFree.mul ?_ (prefixFree_words hletters trail)
  cases lead with
  | false => exact Pattern.prefixFree_one
  | true =>
    rw [if_pos rfl, ← Pattern.oneOf_singleton]
    exact Pattern.prefixFree_oneWith _

omit hwords in
theorem prefixFree_slot_phrase (trail : Bool) :
    PrefixFree (slotLanguage * phraseLanguage true trail words) := by
  rw [phraseLanguage, if_pos rfl, ← mul_assoc]
  exact prefixFree_slot.mul (prefixFree_words hletters trail)

include hwords

theorem endsPlainly_phrase (lead trail : Bool) : EndsPlainly (phraseLanguage lead trail words) := by
  refine (endsPlainly_spaced (by simpa using hwords) ?_).mul
  simp only [List.forall_mem_map]
  intro w hw u hu
  have hne : u ≠ [] := (inWords_of_letters (hletters w hw) u hu).1
  refine ⟨u.getLast hne, List.getLast?_eq_some_getLast hne, not_tagSign_of_letter ?_⟩
  exact letters_of_mem_prod (hletters w hw).2 hu _ (List.getLast_mem hne)

theorem ne_nil_of_mem_phrase (lead trail : Bool) : ∀ u ∈ phraseLanguage lead trail words, u ≠ [] := by
  rintro _ hu rfl
  obtain ⟨c, hc, -⟩ := endsPlainly_phrase hwords hletters lead trail _ hu
  simp at hc

theorem ne_nil_of_mem_slot_phrase (trail : Bool) :
    ∀ u ∈ slotLanguage * phraseLanguage true trail words, u ≠ [] := by
  intro _ hall
  obtain ⟨slot, -, u, hu, rfl⟩ := Language.mem_mul.mp hall
  simp [ne_nil_of_mem_phrase hwords hletters true trail u hu]

end

/-! ## Tags before matches -/

/-- Where an optional tag before a place begins: at the place itself if there is no tag. -/
noncomputable def tagStart (s : Text) (i : ℕ) : ℕ := sInf {k | SpanOf slotLanguage s k i}

section
variable {s : Text} {i : ℕ}

theorem tagStart_spec (hi : i ≤ s.length) : SpanOf slotLanguage s (tagStart s i) i := by
  refine Nat.sInf_mem (s := {k | SpanOf slotLanguage s k i}) ⟨i, s.take i, [], s.drop i, ?_⟩
  exact ⟨by simp, by simp [hi], by simp [hi], mem_slotLanguage.mpr (.inl rfl)⟩

theorem tagStart_le {k : ℕ} (hk : SpanOf slotLanguage s k i) : tagStart s i ≤ k := Nat.sInf_le hk

theorem tagSign_of_tagStart_le {k : ℕ} (hi : i ≤ s.length) (hk : tagStart s i ≤ k) (hlt : k < i) :
    ∃ c, s[k]? = some c ∧ IsTagSign c :=
  (tagStart_spec hi).getElem? (fun _ => tagSign_of_mem_slot) hk hlt

/-- No separator stands in a tag. -/
theorem not_separator_of_tagStart_le {k : ℕ} (hi : i ≤ s.length) (hk : tagStart s i ≤ k) (hlt : k < i) :
    s[k]? ≠ some Hebrew.separator := by
  obtain ⟨c, hc, hsign⟩ := tagSign_of_tagStart_le hi hk hlt
  rw [hc]
  rintro ⟨⟩
  exact not_tagSign_separator hsign

end

theorem inWords_of_mem_words {words : List Text} (hletters : ∀ w ∈ words, w ≠ [] ∧ IsLetters w) :
    ∀ L ∈ words.map fun w => (w.map matched).prod, SearchString.InWords L := by
  rw [List.forall_mem_map]
  exact fun w hw => inWords_of_letters (hletters w hw)

/-- A match that begins with a separator goes on after it. -/
theorem spanOf_lead {s : Text} {i j : ℕ} {trail : Bool} {words : List Text} (hwords : words ≠ [])
    (hletters : ∀ w ∈ words, w ≠ [] ∧ IsLetters w)
    (h : SpanOf (phraseLanguage true trail words) s i j) :
    s[i]? = some Hebrew.separator ∧ i + 1 < j ∧ j ≤ s.length := by
  obtain ⟨before, _, after, rfl, rfl, rfl, hall⟩ := h
  obtain ⟨u, hu, rfl⟩ := Pattern.mem_singleton_mul.mp hall
  obtain ⟨v, w, rfl, hv, -⟩ :=
    SearchString.exists_first (by simpa using hwords) (inWords_of_mem_words hletters) hu
  have hpos := List.length_pos_iff.mpr hv
  refine ⟨by simp [Hebrew.separator], ?_, by simp⟩
  simp only [List.length_append, List.length_singleton]
  omega

theorem EndsPlainly.getElem? {L : Language Char} (hL : EndsPlainly L) {s : Text} {i j : ℕ}
    (h : SpanOf L s i j) : ∃ c, s[j - 1]? = some c ∧ ¬ IsTagSign c := by
  obtain ⟨before, u, after, rfl, rfl, rfl, hu⟩ := h
  obtain ⟨c, hc, hplain⟩ := hL u hu
  obtain ⟨v, rfl⟩ := List.getLast?_eq_some_iff.mp hc
  exact ⟨c, by simp, hplain⟩

/-- In parentheses, each match after a space begins with the tag before it. -/
theorem findAll_grouped {p q : Pattern} {trail : Bool} {words : List Text} (hwords : words ≠ [])
    (hletters : ∀ w ∈ words, w ≠ [] ∧ IsLetters w)
    (hp : p.node.Denotes (phraseLanguage true trail words))
    (hq : q.node.Denotes (slotLanguage * phraseLanguage true trail words)) (s : Text) :
    q.findAll s = (p.findAll s).map fun x => (tagStart s x.1, x.2) := by
  have hscan := Pattern.scan_findAll_of_denotes hp (ne_nil_of_mem_phrase hwords hletters true trail) s
  have hscan' := Pattern.scan_findAll_of_denotes hq (ne_nil_of_mem_slot_phrase hwords hletters trail) s
  -- a scan with the slot has one outcome, and widening each match by its tag gives such a scan
  refine hscan'.unique (fun i j k hj hk => hj.stop_eq (prefixFree_slot_phrase hletters trail) hk) ?_
  refine hscan.widen ?_ ?_ ?_ ?_ fun _ _ _ _ => Nat.zero_le _
  · intro i j h
    obtain ⟨-, hij, hj⟩ := spanOf_lead hwords hletters h
    have htag := tagStart_spec (s := s) (i := i) (by omega)
    exact ⟨Pattern.spanOf_mul_iff.mpr ⟨i, htag, h⟩, htag.le⟩
  · intro k j h
    obtain ⟨i, htag, hspan⟩ := Pattern.spanOf_mul_iff.mp h
    exact ⟨i, hspan, tagStart_le htag, htag.le⟩
  · intro i j i' j' h h' hlt
    obtain ⟨-, hij, hj⟩ := spanOf_lead hwords hletters h'
    obtain ⟨hsep, -, -⟩ := spanOf_lead hwords hletters h
    by_contra hle
    exact not_separator_of_tagStart_le (by omega) (Nat.not_lt.mp hle) hlt hsep
  · intro i j i' j' h h' hle
    obtain ⟨-, hij, hj⟩ := spanOf_lead hwords hletters h'
    obtain ⟨-, hlt, -⟩ := spanOf_lead hwords hletters h
    by_contra hnot
    -- else the last character of the first match would stand in the tag before the second one
    obtain ⟨c, hc, hsign⟩ := tagSign_of_tagStart_le (s := s) (i := i') (k := j - 1) (by omega)
      (by omega) (by omega)
    obtain ⟨d, hd, hplain⟩ := (endsPlainly_phrase hwords hletters true trail).getElem? h
    obtain rfl := Option.some.inj (hc.symm.trans hd)
    exact hplain hsign

end VerseSearch.Query
