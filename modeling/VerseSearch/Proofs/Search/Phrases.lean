import VerseSearch.Proofs.Search.Alignment
import VerseSearch.Proofs.Search.BlockSearch

/-! # Searches for phrases

* `Item`: a word of letters or a block, and the language of its pattern.
* `Item.Holds`: what an item says about a word of a verse.
* `fits_iff_holds`: the pattern of an item fits the part of a word when the item holds of the word.
* `phrase_matches_words_in_row`: a query of items with single spaces between them has a match in a
  verse when words in a row are such that each item holds of its word.
-/

namespace VerseSearch.Query
set_option autoImplicit false

open Hebrew (bareShin)
open SearchString (Aligned Fits InWords)

/-! ## Items -/

/-- An item of a phrase: a word, or a block with a given inside. -/
inductive Item where
  | word (letters : Text)
  | block (inner : Text)

namespace Item

/-- The text of an item in a query. -/
def text : Item → Text
  | word t => t
  | block p => '<' :: p ++ ['>']

section
variable [Pattern.CharNames]

/-- A word is a text of letters, a bare shin among them, and a block finds entries. -/
def IsSound (l : Lexicon) (verbsOnly : Bool) : Item → Prop
  | word t => t ≠ [] ∧ ∀ c ∈ t, Hebrew.isLetter c = true ∨ c = bareShin
  | block p => IsInner p ∧ ∃ entries, findEntries l p verbsOnly = .ok entries ∧ entries ≠ []

/-- What an item says about a word with a given form and tag. A word of letters describes the form, or
a part of it if one may begin before the item or end after it. A block asks for a letter and for the tag
of one of its entries. -/
def Holds (l : Lexicon) (verbsOnly openLeft openRight : Bool) (form : Text) (tag : ℤ) : Item → Prop
  | word t => ∃ a u b, form = a ++ (u ++ b) ∧ u ∈ (t.map described).prod ∧
      (openLeft = false → a = []) ∧ (openRight = false → b = [])
  | block p => form ≠ [] ∧ ∃ entries, findEntries l p verbsOnly = .ok entries ∧
      ∃ e ∈ entries, (e.tag : ℤ) = tag

def entries (l : Lexicon) (verbsOnly : Bool) : Item → List Entry
  | word _ => []
  | block p => (findEntries l p verbsOnly).toOption.getD []

/-- The text that takes the place of an item. -/
def resolved (l : Lexicon) (verbsOnly : Bool) : Item → Text
  | word t => t
  | block p => entriesPattern ((block p).entries l verbsOnly)

def blocks (l : Lexicon) (verbsOnly : Bool) : Item → List Block
  | word _ => []
  | block p => [blockOf p ((block p).entries l verbsOnly)]

/-- What the pattern of an item matches. -/
def language (l : Lexicon) (verbsOnly : Bool) : Item → Language Char
  | word t => (t.map matched).prod
  | block p => entriesLanguage ((block p).entries l verbsOnly)

variable {l : Lexicon} {verbsOnly : Bool}

theorem findEntries_of_isSound {p : Text} (h : (block p).IsSound l verbsOnly) :
    findEntries l p verbsOnly = .ok ((block p).entries l verbsOnly) ∧
      (block p).entries l verbsOnly ≠ [] := by
  obtain ⟨-, found, hfound, hne⟩ := h
  rw [entries, hfound]
  exact ⟨rfl, hne⟩

theorem signs_of_isSound {t : Text} (h : (word t).IsSound l verbsOnly) :
    (∀ c ∈ t, isSign c = true) ∧ ∃ c ∈ t, c ≠ '@' := by
  obtain ⟨hne, hletters⟩ := h
  constructor
  · intro c hc
    obtain hletter | hbare := hletters c hc
    · simp [isSign, hletter]
    · simp [isSign, hbare]
  · obtain ⟨c, hc⟩ := List.exists_mem_of_ne_nil t hne
    refine ⟨c, hc, ?_⟩
    rintro rfl
    exact absurd (hletters '@' hc) (by decide)

theorem IsSound.stands [Text.Ranking] {item : Item} (h : item.IsSound l verbsOnly) (limit : ℕ) :
    Stands l verbsOnly limit item.text (item.resolved l verbsOnly) (item.blocks l verbsOnly)
      (item.language l verbsOnly) := by
  cases item with
  | word t => exact stands_signs l verbsOnly limit h.1 (signs_of_isSound h).1
  | block p =>
    obtain ⟨hfound, hne⟩ := findEntries_of_isSound h
    exact stands_block limit h.1 hfound hne

theorem IsSound.inWords {item : Item} (h : item.IsSound l verbsOnly) :
    InWords (item.language l verbsOnly) := by
  intro u hu
  cases item with
  | word t =>
    obtain ⟨hsigns, hvisible⟩ := signs_of_isSound h
    exact SearchString.inner_of_mem_prod hsigns hvisible hu
  | block p => exact SearchString.inner_of_mem_entriesLanguage hu

end

end Item

/-! ## Items and the parts of words -/

theorem tag_mem_slotLanguage (n : ℕ) : '<' :: (Text.ofNat n ++ ['>']) ∈ slotLanguage :=
  mem_slotLanguage.mpr (.inr ⟨Text.ofNat n, Nat.toDigits_ne_nil,
    fun _ hc => (digits_spec (SearchString.digits_of_ofNat _ hc)).1, rfl⟩)

section
variable [Pattern.CharNames] {l : Lexicon} {verbsOnly openLeft openRight : Bool} {form : Text} {tag : ℕ}
  (hform : ∀ c ∈ form, c ∈ Hebrew.letters)
include hform

theorem fits_word_iff {t : Text} (ht : (Item.word t).IsSound l verbsOnly) :
    Fits ((Item.word t).language l verbsOnly) openLeft openRight
      (SearchString.segment form (Text.ofNat tag)) ↔
      (Item.word t).Holds l verbsOnly openLeft openRight form tag := by
  obtain ⟨hsigns, hvisible⟩ := Item.signs_of_isSound ht
  have haccepts : ∀ c ∈ form, anyLetter.accepts c = true := fun c hc => accepts_anyLetter (hform c hc)
  constructor
  · rintro ⟨a, u, b, hseg, hu, ha, hb⟩
    obtain ⟨r, rfl, rfl⟩ := SearchString.segment_eq_letters haccepts SearchString.digits_of_ofNat
      (ne_nil_of_mem_prod hvisible hu) (accepts_of_mem_prod hsigns hu) hseg
    refine ⟨a, u, r, rfl, (mem_matched_iff fun d hd => hform d (by simp [hd])).mp hu, ha, ?_⟩
    intro hright
    -- an optional tag begins with no letter
    cases r with
    | nil => rfl
    | cons d r =>
      obtain h | ⟨_, -, -, h⟩ := mem_slotLanguage.mp (hb hright)
      · cases h
      · obtain rfl := (List.cons.inj h).1
        exact absurd (hform '<' (by simp)) (by decide)
  · rintro ⟨a, u, b, rfl, hu, ha, hb⟩
    have hu' := (mem_matched_iff fun d hd => hform d (by simp [hd])).mpr hu
    refine ⟨a, u, b ++ '<' :: (Text.ofNat tag ++ ['>']), ?_, hu', ha, fun hright => ?_⟩
    · simp [SearchString.segment_eq]
    · rw [hb hright]
      exact tag_mem_slotLanguage tag

theorem fits_block_iff {p : Text} (hp : (Item.block p).IsSound l verbsOnly) :
    Fits ((Item.block p).language l verbsOnly) openLeft openRight
      (SearchString.segment form (Text.ofNat tag)) ↔
      (Item.block p).Holds l verbsOnly openLeft openRight form tag := by
  obtain ⟨hfound, -⟩ := Item.findEntries_of_isSound hp
  have haccepts : ∀ c ∈ form, anyLetter.accepts c = true := fun c hc => accepts_anyLetter (hform c hc)
  constructor
  · rintro ⟨a, u, b, hseg, hu, -, -⟩
    obtain ⟨-, hne, e, he, rfl⟩ := part_of_mem_entriesLanguage haccepts hu hseg
    exact ⟨hne, _, hfound, e, he, rfl⟩
  · rintro ⟨hne, entries, hentries, e, he, htag⟩
    obtain rfl := Except.ok.inj (hfound.symm.trans hentries)
    obtain rfl : e.tag = tag := by exact_mod_cast htag
    refine ⟨[], _, [], by simp, mem_entriesLanguage.mpr ⟨form, e, hne, haccepts, he, rfl⟩, by simp, ?_⟩
    exact fun _ => mem_slotLanguage.mpr (.inl rfl)

/-- The pattern of an item fits the part of a word when the item holds of the word. -/
theorem fits_iff_holds {item : Item} (h : item.IsSound l verbsOnly) :
    Fits (item.language l verbsOnly) openLeft openRight (SearchString.segment form (Text.ofNat tag)) ↔
      item.Holds l verbsOnly openLeft openRight form tag := by
  cases item with
  | word t => exact fits_word_iff hform h
  | block p => exact fits_block_iff hform h

end

/-! ## Phrases -/

theorem exists_split_iff {segs : List Text} {P : List Text → Prop} :
    (∃ pre post, segs = pre ++ post ∧ P post) ↔ ∃ n, P (segs.drop n) := by
  constructor
  · rintro ⟨pre, post, rfl, h⟩
    exact ⟨pre.length, by rwa [List.drop_left]⟩
  · rintro ⟨n, h⟩
    exact ⟨segs.take n, segs.drop n, (List.take_append_drop n segs).symm, h⟩

section
variable [Pattern.CharNames] {l : Lexicon} {verbsOnly : Bool} {items : List Item}
  (hsound : ∀ item ∈ items, item.IsSound l verbsOnly) {lead trail : Bool}
include hsound

theorem inWords_of_mem_map : ∀ L ∈ items.map (Item.language l verbsOnly), InWords L := by
  rw [List.forall_mem_map]
  exact fun item hitem => (hsound item hitem).inWords

theorem phrase_ne_nil (hitems : items ≠ []) :
    ∀ u ∈ (if lead then {[' ']} else 1) *
      spacedLanguage trail (items.map (Item.language l verbsOnly)), u ≠ [] := by
  intro _ hall
  obtain ⟨x, -, u, hu, rfl⟩ := Language.mem_mul.mp hall
  obtain ⟨v, w, rfl, hv, -⟩ := SearchString.exists_first (by simpa using hitems)
    (inWords_of_mem_map hsound) hu
  simp [hv]

theorem aligned_iff_holds {ws : List TaggedWord} {segs : List Text}
    (hlays : SearchString.Lays ws segs) (htags : ∀ w ∈ ws, 0 ≤ w.tag) {n : ℕ} :
    Aligned trail (!lead) (items.map (Item.language l verbsOnly)) (segs.drop n) ↔
      ∀ i item, items[i]? = some item → ∃ w form, ws[n + i]? = some w ∧
        Hebrew.searchable w.word = .ok form ∧ item.Holds l verbsOnly (decide (i = 0) && !lead)
          (decide (i + 1 = items.length) && !trail) form w.tag := by
  rw [SearchString.aligned_iff_getElem?]
  simp only [List.getElem?_map, List.getElem?_drop, List.length_map]
  constructor
  · intro h i item hitem
    obtain ⟨seg, hseg, hfits⟩ := h i _ (by rw [hitem]; rfl)
    obtain ⟨w, form, hw, hform, htag, rfl⟩ := hlays.getElem?_iff.mp hseg
    have hholds := (fits_iff_holds (SearchString.letters_of_searchable hform)
      (hsound item (List.mem_of_getElem? hitem))).mp hfits
    rw [Int.toNat_of_nonneg htag] at hholds
    exact ⟨w, form, hw, hform, hholds⟩
  · intro h i L hL
    obtain ⟨item, hitem, rfl⟩ := Option.map_eq_some_iff.mp hL
    obtain ⟨w, form, hw, hform, hholds⟩ := h i item hitem
    have htag := htags w (List.mem_of_getElem? hw)
    rw [← Int.toNat_of_nonneg htag] at hholds
    exact ⟨_, hlays.getElem?_iff.mpr ⟨w, form, hw, hform, htag, rfl⟩,
      (fits_iff_holds (SearchString.letters_of_searchable hform)
        (hsound item (List.mem_of_getElem? hitem))).mpr hholds⟩

end

/-- A query of items with single spaces between them, and maybe a space before them and one after them,
compiles, and has a match in a verse when words in a row are such that each item holds of its word. Only
a word that is the first item, with no space before it, may begin inside the form of its word, and only
one that is the last item, with no space after it, may end inside. -/
theorem phrase_matches_words_in_row [Pattern.CharNames] [Text.Ranking] (l : Lexicon)
    (verbsOnly : Bool) (limit : ℕ) {items : List Item}
    (hitems : items ≠ []) (hsound : ∀ item ∈ items, item.IsSound l verbsOnly) (lead trail : Bool)
    {index : ℕ} {book : Text} {chapter verse : ℕ} {ws : List TaggedWord} {v : IndexedVerse}
    (hv : VerseIndex.indexVerse index book chapter verse ws = .ok v) (htags : ∀ w ∈ ws, 0 ≤ w.tag) :
    ∃ c, compile l (spaced [] lead trail (items.map Item.text)) verbsOnly limit = .ok c ∧
      (nonemptyMatches c.pattern v.searchString ≠ [] ↔
        ∃ n : ℕ, ∀ (i : ℕ) (item : Item), items[i]? = some item → ∃ w form, ws[n + i]? = some w ∧
          Hebrew.searchable w.word = .ok form ∧ item.Holds l verbsOnly (decide (i = 0) && !lead)
            (decide (i + 1 = items.length) && !trail) form w.tag) := by
  obtain ⟨c, hc, -, -, hdenotes⟩ := compile_spaced hitems
    (fun item hitem => (hsound item hitem).stands limit) lead trail
  obtain ⟨segs, hlays, hstring⟩ := SearchString.lays_of_indexVerse hv htags
  refine ⟨c, hc, ?_⟩
  rw [nonemptyMatches_ne_nil_iff hdenotes (phrase_ne_nil hsound hitems), hstring,
    SearchString.spaced_infix_iff (by simpa using hitems) (inWords_of_mem_map hsound) hlays.parted,
    exists_split_iff]
  exact exists_congr fun n => aligned_iff_holds hsound hlays htags

/-- A word alone is not found in every verse, though it is neither the first item of several nor the last
one. -/
theorem word_alone_is_sought : ∃ c v, compile ⟨[]⟩ ['א'] false 5 = .ok c ∧
    VerseIndex.indexVerse 0 [] 0 0 [⟨['ב'], 1⟩] = .ok v ∧
    ¬(nonemptyMatches c.pattern v.searchString ≠ [] ↔
      ∃ n : ℕ, ∀ (i : ℕ) (item : Item), [Item.word ['א']][i]? = some item → ∃ w form,
        [(⟨['ב'], 1⟩ : TaggedWord)][n + i]? = some w ∧ Hebrew.searchable w.word = .ok form ∧
          ((∃ p, item = .block p) ∨ 2 ≤ [Item.word ['א']].length → item.Holds ⟨[]⟩ false
            (decide (i = 0)) (decide (i + 1 = [Item.word ['א']].length)) form w.tag)) := by
  have hnone : (compile ⟨[]⟩ ['א'] false 5).map (fun c => nonemptyMatches c.pattern " ב<1> ".toList) =
      .ok [] := by decide +kernel
  have hv : VerseIndex.indexVerse 0 [] 0 0 [⟨['ב'], 1⟩] =
      .ok ⟨0, [], 0, 0, [['ב']], [1], " ב<1> ".toList⟩ := by decide +kernel
  obtain ⟨c, hc, hmatches⟩ := ok_of_map hnone
  refine ⟨c, _, hc, hv, fun h => h.mpr ⟨0, fun i item hitem => ?_⟩ hmatches⟩
  cases i with
  | zero =>
    obtain rfl := Option.some.inj hitem
    exact ⟨_, ['ב'], rfl, by decide +kernel, by simp⟩
  | succ i => cases hitem

/-- A word, a block and a word, in a verse of three words. -/
theorem phrase_matches_words_in_row_of_three :
    (∀ item ∈ [Item.word ['ב'], .block ['א', 'ב'], .word ['ש']],
      item.IsSound fatherLexicon false) ∧
    VerseIndex.indexVerse 0 [] 0 0 [⟨['ג', 'ב'], 11⟩, ⟨['א', 'ב'], 1⟩, ⟨['\ufb2a', 'ל'], 3⟩] =
      .ok ⟨0, [], 0, 0, [['ג', 'ב'], ['א', 'ב'], ['\ufb2a', 'ל']], [11, 1, 3],
        " גב<11> אב<1> \ufb2aל<3> ".toList⟩ ∧
    ∃ c, compile fatherLexicon "ב <אב> ש".toList false 5 = .ok c ∧
      (nonemptyMatches c.pattern " גב<11> אב<1> \ufb2aל<3> ".toList ≠ [] ↔
        ∃ n : ℕ, ∀ (i : ℕ) (item : Item),
          [Item.word ['ב'], .block ['א', 'ב'], .word ['ש']][i]? = some item → ∃ w form,
            [(⟨['ג', 'ב'], 11⟩ : TaggedWord), ⟨['א', 'ב'], 1⟩, ⟨['\ufb2a', 'ל'], 3⟩][n + i]? = some w ∧
            Hebrew.searchable w.word = .ok form ∧
            item.Holds fatherLexicon false (decide (i = 0) && !false) (decide (i + 1 = 3) && !false)
              form w.tag) := by
  have hfind : findEntries fatherLexicon ['א', 'ב'] false =
      .ok [⟨1, ['א', 'ב'], .noun, ['א', 'ב']⟩] := by decide +kernel
  have hsound : ∀ item ∈ [Item.word ['ב'], .block ['א', 'ב'], .word ['ש']],
      item.IsSound fatherLexicon false := by
    simp only [List.forall_mem_cons, List.not_mem_nil, false_imp_iff, implies_true, and_true]
    exact ⟨⟨by simp, by decide⟩, ⟨⟨by decide, by decide⟩, _, hfind, by simp⟩, by simp, by decide⟩
  have hv : VerseIndex.indexVerse 0 [] 0 0
      [⟨['ג', 'ב'], 11⟩, ⟨['א', 'ב'], 1⟩, ⟨['\ufb2a', 'ל'], 3⟩] =
      .ok ⟨0, [], 0, 0, [['ג', 'ב'], ['א', 'ב'], ['\ufb2a', 'ל']], [11, 1, 3],
        " גב<11> אב<1> \ufb2aל<3> ".toList⟩ := by decide +kernel
  exact ⟨hsound, hv, phrase_matches_words_in_row fatherLexicon false 5 (by simp) hsound false false
    hv (by decide)⟩

end VerseSearch.Query
