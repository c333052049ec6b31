import VerseSearch.Proofs.Lexicon.Forms
import VerseSearch.Proofs.Query.WordBlocks
import VerseSearch.Proofs.Text.Ranking

/-! # Suggestions

A block that finds no entries is answered with searchable forms of the lexicon that are similar to it.

* `suggest_spec`: suggestions are distinct forms of the lexicon, no more than asked for.
* `resolveBlock_form_iff`: a form resolves as a block if an entry with it counts.
* `suggestions_resolve`: suggestions are chosen among the forms of all entries, so for verbs alone those
  resolve that are forms of verbs.
-/

namespace VerseSearch.Query
set_option autoImplicit false

/-! ## Suggested forms -/

theorem suggest_spec [r : Text.Ranking] (hr : r.FindsBest) (l : Lexicon) (inner : Text) (limit : ℕ) :
    (suggest l inner limit).Nodup ∧ (suggest l inner limit).length ≤ limit ∧
      ∀ s ∈ suggest l inner limit, s ∈ l.forms := by
  by_cases hblank : (Hebrew.regularize (Hebrew.compose inner)).isAllBlank = true
  · have hnone : suggest l inner limit = [] := if_pos hblank
    simp [hnone]
  · have hsome : suggest l inner limit = _ := if_neg hblank
    have hbest := hr r.score (Hebrew.regularize (Hebrew.compose inner)) l.forms suggestionScore limit
    rw [hsome]
    refine ⟨hbest.nodup l.nodup_forms, (List.length_map _).trans_le hbest.length_le, fun s hs => ?_⟩
    obtain ⟨m, hm, rfl⟩ := List.mem_map.mp hs
    exact List.mem_of_getElem? (hbest.candidate m hm)

/-! ## Blocks that are resolved -/

section
variable [Pattern.CharNames] [Text.Ranking] {l : Lexicon} {inner : Text} {verbsOnly : Bool} {limit : ℕ}

theorem eq_suggest_of_resolveBlock {block : Text} {suggestions : List Text}
    (h : resolveBlock l inner verbsOnly limit =
      .error (.query (.noMatchingEntries block suggestions))) : suggestions = suggest l inner limit := by
  rw [resolveBlock] at h
  cases hparse : Pattern.parseAnchored (normalizeBlock inner) with
  | error e => cases e <;> simp [hparse, PatternError.toCompileError] at h
  | ok p =>
    simp only [hparse] at h
    split at h
    · obtain ⟨-, rfl⟩ := QueryError.noMatchingEntries.inj (CompileError.query.inj (Except.error.inj h))
      rfl
    · cases h

theorem findEntries_of_resolveBlock {b : Block} (h : resolveBlock l inner verbsOnly limit = .ok b) :
    findEntries l inner verbsOnly = .ok b.entries ∧ b.entries ≠ [] := by
  rw [resolveBlock] at h
  rw [findEntries]
  cases hparse : Pattern.parseAnchored (normalizeBlock inner) with
  | error e => simp [hparse] at h
  | ok p =>
    simp only [hparse] at h ⊢
    split at h
    · cases h
    · next hne =>
      obtain rfl := Except.ok.inj h
      exact ⟨rfl, hne⟩

theorem resolveBlock_iff : (∃ b, resolveBlock l inner verbsOnly limit = .ok b ∧ b.entries ≠ []) ↔
    ∃ entries, findEntries l inner verbsOnly = .ok entries ∧ entries ≠ [] := by
  constructor
  · rintro ⟨b, hb, hne⟩
    exact ⟨b.entries, (findEntries_of_resolveBlock hb).1, hne⟩
  · rintro ⟨entries, hentries, hne⟩
    exact ⟨_, resolveBlock_of_findEntries hentries hne, hne⟩

end

section
variable {l : Lexicon} (hl : l.HasOwnForms)
include hl

theorem plain_of_mem_forms {s : Text} (hs : s ∈ l.forms) : ∀ c ∈ s, Hebrew.isPlainLetter c = true := by
  obtain ⟨hne, e, he, rfl⟩ := Lexicon.mem_forms.mp hs
  obtain hsentinel | ⟨-, hform⟩ := hl e he
  · rw [hsentinel] at hne
    exact absurd rfl hne
  · exact Hebrew.plain_of_searchable hform

/-- A form of the lexicon resolves as a block if it is the form of an entry, for verbs alone of a verb. -/
theorem resolveBlock_form_iff [Pattern.CharNames] [Text.Ranking] {s : Text} (hs : s ∈ l.forms)
    (verbsOnly : Bool) (limit : ℕ) :
    (∃ b, resolveBlock l s verbsOnly limit = .ok b ∧ b.entries ≠ []) ↔
      ∃ e ∈ l.entries, e.searchable = s ∧ (verbsOnly = true → e.isVerb = true) := by
  have hplain := plain_of_mem_forms hl hs
  obtain ⟨entries, hfind, -, hmem⟩ := findEntries_words l verbsOnly [s] (by simp)
    (List.forall_mem_singleton.mpr (isLetters_of_plain hplain))
  have hfound : findEntries l s verbsOnly = .ok entries := by simpa [wordsText] using hfind
  have hiff : (∃ found, findEntries l s verbsOnly = .ok found ∧ found ≠ []) ↔ ∃ e, e ∈ entries := by
    rw [hfound]
    constructor
    · rintro ⟨_, ⟨⟩, hne⟩
      exact List.exists_mem_of_ne_nil _ hne
    · rintro ⟨_, he⟩
      exact ⟨_, rfl, List.ne_nil_of_mem he⟩
  rw [resolveBlock_iff, hiff]
  refine exists_congr fun e => ?_
  rw [hmem]
  simp only [List.mem_singleton, exists_eq_left, isForm_iff_eq hplain]
  refine and_congr_right fun he => ?_
  constructor
  · rintro ⟨_, hverb, hform⟩
    exact ⟨hform, hverb⟩
  · rintro ⟨rfl, hverb⟩
    refine ⟨?_, hverb, rfl⟩
    obtain hsentinel | ⟨hword, -⟩ := hl e he
    · have hne := (Lexicon.mem_forms.mp hs).1
      rw [hsentinel] at hne
      exact absurd rfl hne
    · exact hword

/-- The suggestions for a block that finds no entries are distinct and no more than asked for. Each of
them resolves as a block if some entry with that form counts; so all do, unless the block was for verbs
alone and the form is that of other words only. -/
theorem suggestions_resolve [Pattern.CharNames] [r : Text.Ranking] (hr : r.FindsBest)
    {inner block : Text} {suggestions : List Text} {verbsOnly : Bool} {limit : ℕ}
    (h : resolveBlock l inner verbsOnly limit =
      .error (.query (.noMatchingEntries block suggestions))) :
    suggestions.Nodup ∧ suggestions.length ≤ limit ∧
      (∀ s ∈ suggestions, (∃ b, resolveBlock l s verbsOnly limit = .ok b ∧ b.entries ≠ []) ↔
        ∃ e ∈ l.entries, e.searchable = s ∧ (verbsOnly = true → e.isVerb = true)) ∧
      (verbsOnly = false → ∀ s ∈ suggestions,
        ∃ b, resolveBlock l s verbsOnly limit = .ok b ∧ b.entries ≠ []) := by
  obtain rfl := eq_suggest_of_resolveBlock h
  obtain ⟨hnodup, hlength, hforms⟩ := suggest_spec hr l inner limit
  have hiff := fun s hs => resolveBlock_form_iff hl (hforms s hs) verbsOnly limit
  refine ⟨hnodup, hlength, hiff, fun hall s hs => (hiff s hs).mpr ?_⟩
  obtain ⟨-, e, he, hform⟩ := Lexicon.mem_forms.mp (hforms s hs)
  exact ⟨e, he, hform, by simp [hall]⟩

end

/-- For verbs alone a noun is suggested, and does not resolve. -/
theorem suggestions_resolve_of_noun :
    let father : Entry := ⟨1, ['א', 'ב'], .noun, ['א', 'ב']⟩
    let l : Lexicon := ⟨[.sentinel 0, father]⟩
    Lexicon.ofRows [⟨['א', 'ב'], .noun, 1⟩] = .ok l ∧ l.HasOwnForms ∧
      resolveBlock l ['א', 'ב', 'ג'] true 5 = .error (.query (.noMatchingEntries
        ['<', 'א', 'ב', 'ג', '>'] [['א', 'ב']])) ∧
      ¬ ∃ b, resolveBlock l ['א', 'ב'] true 5 = .ok b ∧ b.entries ≠ [] := by
  intro father l
  have hrows : Lexicon.ofRows [⟨['א', 'ב'], .noun, 1⟩] = .ok l := by decide +kernel
  have hl : l.HasOwnForms := Lexicon.hasOwnForms_of_ofRows hrows
  have hnone : resolveBlock l ['א', 'ב', 'ג'] true 5 = .error (.query (.noMatchingEntries
      ['<', 'א', 'ב', 'ג', '>'] [['א', 'ב']])) := by decide +kernel
  obtain ⟨-, -, hiff, -⟩ := suggestions_resolve hl Text.Ranking.findsBest_bySorting hnone
  refine ⟨hrows, hl, hnone, (hiff ['א', 'ב'] (by simp)).not.mpr ?_⟩
  decide

end VerseSearch.Query
