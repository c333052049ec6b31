import VerseSearch.Proofs.Query.Languages
import VerseSearch.Proofs.Query.Resolving

/-! # Queries that compile

* `Stands`: an item of a query, the text that takes its place, its blocks and its language.
* `stands_signs`, `stands_block`: the two kinds of items.
* `compile_spaced`: a query of items compiles, to a pattern for the languages of its items.
-/

namespace VerseSearch.Query
set_option autoImplicit false

open Pattern (ReadsAs NoAppetite)

/-! ## Items -/

/-- An item of a query stands for a text, some blocks and a language. -/
structure Stands [Pattern.CharNames] [Text.Ranking] (l : Lexicon) (verbsOnly : Bool) (limit : ℕ)
    (text resolved : Text) (blocks : List Block) (L : Language Char) : Prop where
  resolves : Resolves l verbsOnly limit text resolved blocks
  visible : ∃ c ∈ text, Text.isBlank c = false
  noRoot : text.head? ≠ some '2'
  nonempty : resolved ≠ []
  ordinary : ∀ c ∈ resolved, isOrdinary c = true
  ending : ∀ c ∈ (resolved.flatMap signText).getLast?, c ≠ '>' ∧ c ≠ '\\'
  reads : ReadsAs (resolved.flatMap signText) L
  noAppetite : NoAppetite (resolved.flatMap signText)

section
variable {l : Lexicon} {verbsOnly : Bool} {limit : ℕ}

theorem intercalate_ne_nil {sep t : Text} (ht : t ≠ []) (rest : List Text) :
    List.intercalate sep (t :: rest) ≠ [] := by
  cases rest with
  | nil => simpa using ht
  | cons u rest => simp [List.intercalate_cons_cons, ht]

theorem getLast?_intercalate {sep : Text} {items : List Text} {c : Char} (hitems : ∀ s ∈ items, s ≠ [])
    (h : c ∈ (List.intercalate sep items).getLast?) : ∃ s ∈ items, c ∈ s.getLast? := by
  induction items with
  | nil => simp at h
  | cons t items ih =>
    cases items with
    | nil => exact ⟨t, by simp, by simpa using h⟩
    | cons u rest =>
      rw [List.intercalate_cons_cons,
        List.getLast?_append_of_ne_nil _ (intercalate_ne_nil (hitems u (by simp)) rest)] at h
      obtain ⟨s, hs, hc⟩ := ih (fun s hs => hitems s (List.mem_cons_of_mem t hs)) h
      exact ⟨s, List.mem_cons_of_mem t hs, hc⟩

theorem getLast?_spaced {gap : Text} {items : List Text} {c : Char} {lead trail : Bool}
    (hitems : ∀ s ∈ items, s ≠ []) (h : c ∈ (spaced gap lead trail items).getLast?) :
    c = ' ' ∨ ∃ s ∈ items, c ∈ s.getLast? := by
  rw [spaced] at h
  cases trail with
  | true =>
    left
    simpa [eq_comm] using h
  | false =>
    rw [if_neg Bool.false_ne_true, List.append_nil] at h
    cases items with
    | nil =>
      left
      cases lead <;> simp [List.intercalate] at h
      exact h.symm
    | cons t items =>
      rw [List.getLast?_append_of_ne_nil _ (intercalate_ne_nil (hitems t (by simp)) items)] at h
      exact .inr (getLast?_intercalate hitems h)

theorem head?_spaced {gap t : Text} {items : List Text} {lead trail : Bool} (ht : t ≠ [])
    (hhead : t.head? ≠ some '2') : (spaced gap lead trail (t :: items)).head? ≠ some '2' := by
  cases lead with
  | true => simp
  | false =>
    cases items with
    | nil => rwa [spaced_singleton, List.head?_append_of_ne_nil _ ht]
    | cons u items => rwa [spaced_cons_cons, List.head?_append_of_ne_nil _ ht]

theorem isAllBlank_spaced {gap : Text} {items : List Text} {lead trail : Bool}
    (h : ∃ s ∈ items, ∃ c ∈ s, Text.isBlank c = false) :
    (spaced gap lead trail items).isAllBlank = false := by
  obtain ⟨s, hs, c, hc, hblank⟩ := h
  have hmem : ∀ sep items, s ∈ items → c ∈ List.intercalate sep items := by
    intro sep items hs
    induction items with
    | nil => simp at hs
    | cons t items ih =>
      obtain rfl | hs := List.mem_cons.mp hs
      · cases items <;> simp [List.intercalate_cons_cons, hc]
      · cases items with
        | nil => simp at hs
        | cons u rest =>
          rw [List.intercalate_cons_cons]
          exact List.mem_append_right _ (ih hs)
  rw [Text.isAllBlank, List.all_eq_false]
  refine ⟨c, ?_, by simp [hblank]⟩
  rw [spaced]
  exact List.mem_append_left _ (List.mem_append_right _ (hmem _ _ hs))

/-- A query of items compiles to a pattern for the languages of its items. -/
theorem compile_spaced [Pattern.CharNames] [Text.Ranking] {α : Type} {text resolved : α → Text}
    {blocks : α → List Block} {L : α → Language Char} {items : List α} (hitems : items ≠ [])
    (h : ∀ i ∈ items, Stands l verbsOnly limit (text i) (resolved i) (blocks i) (L i))
    (lead trail : Bool) :
    ∃ c, compile l (spaced [] lead trail (items.map text)) verbsOnly limit = .ok c ∧
      c.blocks = items.flatMap blocks ∧ c.verbsOnly = verbsOnly ∧
      c.pattern.node.Denotes
        ((if lead then {[' ']} else 1) * spacedLanguage trail (items.map L)) := by
  have hmap : items.map resolved ≠ [] := by simpa using hitems
  have hnormal : normalizeSource (spaced [] lead trail (items.map resolved)) =
      spaced tagSlot lead trail (items.map fun i => (resolved i).flatMap signText) := by
    rw [normalizeSource_spaced hmap, List.map_map]
    · rfl
    · simp only [List.forall_mem_map]
      intro i hi
      exact ⟨(h i hi).nonempty, (h i hi).ordinary, fun hlast => ((h i hi).ending '>' hlast).1 rfl⟩
  have hsources : ∀ s ∈ items.map fun i => (resolved i).flatMap signText, s ≠ [] := by
    simp only [List.forall_mem_map]
    intro i hi
    exact flatMap_ne_nil (h i hi).nonempty fun c hc => (signText_spec ((h i hi).ordinary c hc)).1
  have hreads := readsAs_spaced hitems (fun i hi => ⟨(h i hi).reads, (h i hi).noAppetite⟩) lead trail
  have hlast : (spaced tagSlot lead trail
      (items.map fun i => (resolved i).flatMap signText)).getLast? ≠ some '\\' := by
    intro hlast
    obtain hspace | ⟨s, hs, hc⟩ := getLast?_spaced hsources hlast
    · exact absurd hspace (by decide)
    · obtain ⟨i, hi, rfl⟩ := List.mem_map.mp hs
      exact ((h i hi).ending '\\' hc).2 rfl
  obtain ⟨p, hp, hdenotes⟩ := Pattern.parse_of_readsAs hreads hlast
  obtain ⟨i, rest, rfl⟩ := List.exists_cons_of_ne_nil hitems
  have hi := h i (by simp)
  have hquery : (spaced [] lead trail ((i :: rest).map text)).isAllBlank = false :=
    isAllBlank_spaced ⟨text i, by simp, hi.visible⟩
  have hroot : (spaced [] lead trail ((i :: rest).map text)).head? ≠ some '2' := by
    obtain ⟨c, hc, -⟩ := hi.visible
    exact head?_spaced (List.ne_nil_of_mem hc) hi.noRoot
  have hsource : (normalizeSource (spaced [] lead trail ((i :: rest).map resolved))).isAllBlank =
      false := by
    rw [hnormal]
    refine isAllBlank_spaced ⟨_, List.mem_map_of_mem (List.mem_cons_self ..), ?_⟩
    obtain ⟨c, hc⟩ := List.exists_mem_of_ne_nil _ hi.nonempty
    obtain ⟨hne, hd⟩ := signText_spec (hi.ordinary c hc)
    obtain ⟨d, hdc⟩ := List.exists_mem_of_ne_nil _ hne
    exact ⟨d, List.mem_flatMap.mpr ⟨c, hc, hdc⟩, hd d hdc⟩
  rw [← hnormal] at hp
  exact ⟨_, compile_of_resolves hquery hroot
    (resolves_spaced (fun j hj => (h j hj).resolves) lead trail) hsource hp, rfl, rfl, hdenotes⟩

theorem compile_single [Pattern.CharNames] [Text.Ranking] {text resolved : Text} {blocks : List Block}
    {L : Language Char} (h : Stands l verbsOnly limit text resolved blocks L) :
    ∃ c, compile l text verbsOnly limit = .ok c ∧ c.blocks = blocks ∧ c.verbsOnly = verbsOnly ∧
      c.pattern.node.Denotes L := by
  have hone : ∀ i ∈ [()], Stands l verbsOnly limit text resolved blocks L := fun _ _ => h
  obtain ⟨c, hc, hblocks, hverbs, hdenotes⟩ := compile_spaced (by simp) hone false false
  refine ⟨c, ?_, by simpa using hblocks, hverbs, by simpa [spacedLanguage] using hdenotes⟩
  simpa using hc

/-! ## Signs -/

theorem mem_of_isSign {c : Char} (hc : isSign c = true) :
    c ∈ Hebrew.letters ++ [Hebrew.bareShin, '#', '@'] := by
  simpa [isSign, Hebrew.isLetter, or_assoc] using hc

/-- A sign is no part of the notation, and becomes no angle bracket and no backslash. -/
theorem isSign_spec {c : Char} (hc : isSign c = true) : isOrdinary c = true ∧ c ∉ Pattern.signs ∧
    c ∉ ['<', '2'] ∧ ∀ d ∈ signText c, d ≠ '>' ∧ d ≠ '\\' := by
  have hall : ∀ c ∈ Hebrew.letters ++ [Hebrew.bareShin, '#', '@'], isOrdinary c = true ∧
      c ∉ Pattern.signs ∧ c ∉ ['<', '2'] ∧ ∀ d ∈ signText c, d ≠ '>' ∧ d ≠ '\\' := by
    decide +kernel
  exact hall c (mem_of_isSign hc)

/-- A text of signs stands for itself and for the product of what the signs match. -/
theorem stands_signs [Pattern.CharNames] [Text.Ranking] (l : Lexicon) (verbsOnly : Bool) (limit : ℕ)
    {t : Text} (hne : t ≠ [])
    (ht : ∀ c ∈ t, isSign c = true) : Stands l verbsOnly limit t t [] (t.map matched).prod := by
  obtain ⟨hreads, hhead⟩ := readsAs_flatMap_signText fun c hc => (isSign_spec (ht c hc)).2.1
  refine ⟨resolves_text fun h => ?_, ?_, fun h => ?_, hne, fun c hc => (isSign_spec (ht c hc)).1, ?_,
    hreads, hhead⟩
  · exact (isSign_spec (ht '<' h)).2.2.1 (by decide)
  · obtain ⟨c, hc⟩ := List.exists_mem_of_ne_nil t hne
    exact ⟨c, hc, (isOrdinary_iff.mp (isSign_spec (ht c hc)).1).2.1⟩
  · exact (isSign_spec (ht '2' (List.mem_of_head? h))).2.2.1 (by decide)
  · intro d hd
    obtain ⟨c, hc, hd⟩ := List.mem_flatMap.mp (List.mem_of_getLast? hd)
    exact (isSign_spec (ht c hc)).2.2.2 d hd

/-! ## Blocks -/

/-- The block with a given inside that stands for given entries. -/
def blockOf (p : Text) (entries : List Entry) : Block :=
  ⟨'<' :: p ++ ['>'], entriesPattern entries, entries⟩

theorem resolveBlock_of_findEntries [Pattern.CharNames] [Text.Ranking] {p : Text} {entries : List Entry}
    (h : findEntries l p verbsOnly = .ok entries) (hne : entries ≠ []) :
    resolveBlock l p verbsOnly limit = .ok (blockOf p entries) := by
  rw [findEntries] at h
  rw [resolveBlock]
  cases hp : Pattern.parseAnchored (normalizeBlock p) with
  | error e =>
    rw [hp] at h
    cases h
  | ok pattern =>
    rw [hp] at h
    obtain rfl := Except.ok.inj h
    simp only
    rfl

theorem isOrdinary_entriesPattern (entries : List Entry) :
    ∀ c ∈ entriesPattern entries, isOrdinary c = true := by
  intro c hc
  rw [entriesPattern, List.mem_append, List.mem_append] at hc
  obtain (hc | hc) | hc := hc
  · revert c
    decide
  · obtain rfl | ⟨t, ht, hc⟩ := mem_intercalate hc
    · decide
    · obtain ⟨e, -, rfl⟩ := List.mem_map.mp ht
      exact (digits_spec (Text.mem_digits_of_mem_ofNat hc)).2.2.2.1
  · revert c
    decide

/-- A block stands for the words of its entries. -/
theorem stands_block [Text.Ranking] [Pattern.CharNames] (limit : ℕ) {p : Text} (hp : IsInner p)
    {entries : List Entry} (h : findEntries l p verbsOnly = .ok entries) (hne : entries ≠ []) :
    Stands l verbsOnly limit ('<' :: p ++ ['>']) (entriesPattern entries) [blockOf p entries]
      (entriesLanguage entries) := by
  have hlast : ((entriesPattern entries).flatMap signText).getLast? = some ')' := by
    have hclose : ")>)".toList.flatMap signText = [')', '>', ')'] := by decide
    rw [entriesPattern, List.flatMap_append, hclose]
    simp
  refine ⟨resolves_block hp (resolveBlock_of_findEntries h hne), ⟨'<', by simp, by decide⟩, by simp, ?_,
    isOrdinary_entriesPattern entries, ?_, (readsOne_entriesPattern hne).readsAs, ?_⟩
  · simp [entriesPattern]
  · rw [hlast]
    rintro c hc
    obtain rfl := Option.some.inj hc
    decide
  · have hopen : "(#+<(".toList.flatMap signText =
        '(' :: (anyLetterSubstitution.outside ++ ['+', '<', '(']) := by decide
    rw [entriesPattern, List.flatMap_append, List.flatMap_append, hopen]
    exact .cons (by decide) _

end

end VerseSearch.Query
