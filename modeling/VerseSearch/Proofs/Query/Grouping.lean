import VerseSearch.Proofs.Query.Vocalization

/-! # Queries in parentheses

A parenthesis changes nothing in the pattern of a query but for one thing: a space right after it gets
a slot for a tag, as any space does that does not follow a tag.

* `grouped`: a query in parentheses.
* `insertTagSlots_grouped`: where the slots of a query in parentheses stand.
* `compile_grouped`: the language of its pattern.
-/

namespace VerseSearch.Query
set_option autoImplicit false

open Text (isBlank)
open Pattern (ReadsAs NoAppetite)

/-- A query in parentheses. -/
def grouped (query : Text) : Text := '(' :: (query ++ [')'])

/-! ## Rewriting -/

theorem collapseBlanksFrom_append_cons {c : Char} (hc : isBlank c = false) (inRun : Bool) (s t : Text) :
    collapseBlanksFrom inRun (s ++ c :: t) =
      collapseBlanksFrom inRun s ++ c :: collapseBlanksFrom false t := by
  induction s generalizing inRun with
  | nil => simp [collapseBlanksFrom, hc]
  | cons d s ih =>
    rw [List.cons_append, collapseBlanksFrom, collapseBlanksFrom]
    split
    · split <;> simp [ih]
    · simp [ih]

theorem collapseBlanks_grouped (query : Text) :
    collapseBlanks (grouped query) = grouped (collapseBlanks query) := by
  have hopen := @collapseBlanksFrom_append_cons '(' (by decide) false [] (query ++ [')'])
  have hclose := @collapseBlanksFrom_append_cons ')' (by decide) false query []
  rw [collapseBlanks, grouped, ← List.nil_append ('(' :: (query ++ [')'])), hopen, hclose]
  rfl

theorem insertTagSlots_concat {c : Char} (hc : c ≠ ' ') (t : Text) :
    insertTagSlots (t ++ [c]) = insertTagSlots t ++ [c] := by
  have hone : insertTagSlots [c] = [c] := insertTagSlots_of_not_mem (by simpa using hc.symm)
  fun_induction insertTagSlots t with
  | case1 => exact hone
  | case2 rest ih =>
    rw [List.cons_append, List.cons_append, insertTagSlots, if_pos rfl, ← List.cons_append, ih]
    rfl
  | case3 d rest hd ih =>
    rw [List.cons_append, List.cons_append, insertTagSlots, if_neg hd, ih]
    simp
  | case4 d rest hrest ih =>
    have hhead : (rest ++ [c]).head? ≠ some ' ' := by
      cases rest with
      | nil => simpa using hc
      | cons e rest =>
        intro h
        exact hrest rest (by rw [Option.some.inj h])
    rw [List.cons_append, insertTagSlots_cons hhead, ih]
    rfl

theorem head?_spaced_cons {gap t : Text} (ht : t ≠ []) (trail : Bool) (items : List Text) :
    (spaced gap false trail (t :: items)).head? = t.head? := by
  cases items with
  | nil => rw [spaced_singleton, List.head?_append_of_ne_nil _ ht]
  | cons u items => rw [spaced_cons_cons, List.head?_append_of_ne_nil _ ht]

/-- A slot for a tag stands before each space after an item, and before one after the opening
parenthesis. -/
theorem insertTagSlots_grouped {items : List Text} (hitems : items ≠ [])
    (h : ∀ s ∈ items, s ≠ [] ∧ ' ' ∉ s ∧ s.getLast? ≠ some '>') (lead trail : Bool) :
    insertTagSlots (grouped (spaced [] lead trail items)) =
      grouped ((if lead then tagSlot else []) ++ spaced tagSlot lead trail items) := by
  have hslots := insertTagSlots_spaced hitems h
  rw [grouped, ← List.cons_append, insertTagSlots_concat (by decide)]
  cases lead with
  | true =>
    rw [spaced_lead, insertTagSlots, if_neg (by decide), hslots, spaced_lead]
    simp [grouped]
  | false =>
    have hhead : (spaced [] false trail items).head? ≠ some ' ' := by
      obtain ⟨s, rest, rfl⟩ := List.exists_cons_of_ne_nil hitems
      obtain ⟨hne, hspace, -⟩ := h s (by simp)
      rw [head?_spaced_cons hne]
      exact fun h => hspace (List.mem_of_head? h)
    rw [insertTagSlots_cons hhead, hslots]
    rfl

/-! ## Words in parentheses -/

/-- The language of words with spaces between them, and around them or not. -/
def phraseLanguage (lead trail : Bool) (words : List Text) : Language Char :=
  (if lead then {[' ']} else 1) * spacedLanguage trail (words.map fun w => (w.map matched).prod)

section
variable {words : List Text} (hwords : words ≠ [])
  (hsigns : ∀ w ∈ words, w ≠ [] ∧ ∀ c ∈ w, isSign c = true) (lead trail : Bool)
include hwords hsigns

theorem compile_phrase [Pattern.CharNames] [Text.Ranking] (l : Lexicon) (verbsOnly : Bool) (limit : ℕ) :
    ∃ c, compile l (spaced [] lead trail words) verbsOnly limit = .ok c ∧
      c.pattern.node.Denotes (phraseLanguage lead trail words) := by
  obtain ⟨c, hc, -, -, hdenotes⟩ := compile_spaced hwords (fun w hw =>
    stands_signs l verbsOnly limit (hsigns w hw).1 (hsigns w hw).2) lead trail
  exact ⟨c, by rwa [List.map_id'] at hc, hdenotes⟩

omit hwords in
theorem mem_phrase {c : Char} (hc : c ∈ spaced [] lead trail words) : c = ' ' ∨ isSign c = true :=
  (mem_spaced hc).imp_right fun ⟨w, hw, hmem⟩ => (hsigns w hw).2 c hmem

omit hwords in
theorem ordinary_of_mem_grouped {c : Char} (hc : c ∈ grouped (spaced [] lead trail words)) :
    c ∉ interfering ∧ Hebrew.isNonLetter c = false := by
  simp only [grouped, List.mem_cons, List.mem_append, List.not_mem_nil, or_false] at hc
  obtain rfl | hc | rfl := hc
  · decide
  · obtain rfl | hsign := mem_phrase hsigns lead trail hc
    · decide
    · obtain ⟨hplain, -, hletter⟩ := isOrdinary_iff.mp (isSign_spec hsign).1
      exact ⟨hplain, hletter⟩
  · decide

theorem normalizeSource_grouped : normalizeSource (grouped (spaced [] lead trail words)) =
    grouped ((if lead then tagSlot else []) ++
      spaced tagSlot lead trail (words.map (·.flatMap signText))) := by
  have hcollapse : collapseBlanks (spaced [] lead trail words) = spaced [] lead trail words :=
    collapseBlanks_spaced hwords (fun w hw => ⟨(hsigns w hw).1, fun c hc =>
      (isOrdinary_iff.mp (isSign_spec ((hsigns w hw).2 c hc)).1).2.1⟩) lead trail
  have hdrop : dropNonLetters (grouped (spaced [] lead trail words)) =
      grouped (spaced [] lead trail words) := List.filter_eq_self.mpr fun c hc => by
    simp [(ordinary_of_mem_grouped hsigns lead trail hc).2]
  have hparens : signText '(' = ['('] ∧ signText ')' = [')'] := by decide
  have hsignText : (grouped (spaced [] lead trail words)).flatMap signText =
      grouped (spaced [] lead trail (words.map (·.flatMap signText))) := by
    rw [← flatMap_spaced signText_space]
    simp [grouped, hparens]
  rw [normalizeSource_plain fun c hc => (ordinary_of_mem_grouped hsigns lead trail hc).1,
    collapseBlanks_grouped, hcollapse, hdrop, hsignText]
  refine insertTagSlots_grouped (by simpa using hwords) ?_ lead trail
  simp only [List.forall_mem_map]
  intro w hw
  obtain ⟨hne, hw⟩ := hsigns w hw
  refine ⟨flatMap_ne_nil hne fun c hc => (signText_spec (isSign_spec (hw c hc)).1).1, fun h => ?_,
    fun h => ?_⟩
  · obtain ⟨c, hc, hmem⟩ := List.mem_flatMap.mp h
    exact absurd ((signText_spec (isSign_spec (hw c hc)).1).2 ' ' hmem) (by decide)
  · obtain ⟨c, hc, hmem⟩ := List.mem_flatMap.mp (List.mem_of_getLast? h)
    exact ((isSign_spec (hw c hc)).2.2.2 '>' hmem).1 rfl

theorem readsAs_grouped [Pattern.CharNames] : ReadsAs
    (grouped ((if lead then tagSlot else []) ++
      spaced tagSlot lead trail (words.map (·.flatMap signText))))
    ((if lead then slotLanguage else 1) * phraseLanguage lead trail words) := by
  have hwordsRead : ∀ w ∈ words, ReadsAs (w.flatMap signText) (w.map matched).prod ∧
      NoAppetite (w.flatMap signText) := fun w hw =>
    readsAs_flatMap_signText fun c hc => (isSign_spec ((hsigns w hw).2 c hc)).2.1
  have hspaced := readsAs_spaced hwords hwordsRead lead trail
  have hbody : ReadsAs ((if lead then tagSlot else []) ++
        spaced tagSlot lead trail (words.map (·.flatMap signText)))
      ((if lead then slotLanguage else 1) * phraseLanguage lead trail words) ∧
      NoAppetite ((if lead then tagSlot else []) ++
        spaced tagSlot lead trail (words.map (·.flatMap signText))) := by
    cases lead with
    | true =>
      have hhead : NoAppetite (spaced tagSlot true trail (words.map (·.flatMap signText))) := by
        rw [spaced_lead]
        exact .cons (by decide) _
      exact ⟨readsOne_tagSlot.readsAs.append hspaced hhead, .cons (by decide) _⟩
    | false =>
      obtain ⟨w, rest, rfl⟩ := List.exists_cons_of_ne_nil hwords
      have hne := flatMap_ne_nil (hsigns w (by simp)).1 fun c hc =>
        (signText_spec (isSign_spec ((hsigns w (by simp)).2 c hc)).1).1
      refine ⟨by simpa [phraseLanguage] using hspaced, ?_⟩
      rw [if_neg Bool.false_ne_true, List.nil_append, List.map_cons, NoAppetite,
        head?_spaced_cons hne]
      exact (hwordsRead w (by simp)).2
  have hhead : ((if lead then tagSlot else []) ++
      spaced tagSlot lead trail (words.map (·.flatMap signText))).head? ≠ some '?' := fun h =>
    (hbody.2 '?' h).1 rfl
  have hgroup := hbody.1.readsChoice.capture (by simp) hhead
  rw [List.sum_singleton] at hgroup
  exact hgroup.readsAs

/-- Words in parentheses compile to a pattern for the words, with an optional tag before them if a space
stands before them. -/
theorem compile_grouped [Pattern.CharNames] [Text.Ranking] (l : Lexicon) (verbsOnly : Bool)
    (limit : ℕ) :
    ∃ c, compile l (grouped (spaced [] lead trail words)) verbsOnly limit = .ok c ∧
      c.pattern.node.Denotes
        ((if lead then slotLanguage else 1) * phraseLanguage lead trail words) := by
  have hnormal := normalizeSource_grouped hwords hsigns lead trail
  have hopen : '<' ∉ grouped (spaced [] lead trail words) := by
    intro h
    simp only [grouped, List.mem_cons, List.mem_append, List.not_mem_nil, or_false] at h
    obtain h | h | h := h
    · exact absurd h (by decide)
    · obtain h | h := mem_phrase hsigns lead trail h
      · exact absurd h (by decide)
      · exact absurd h (by decide)
    · exact absurd h (by decide)
  have hvisible : ∀ t : Text, (grouped t).isAllBlank = false := fun t => by
    rw [grouped, Text.isAllBlank, List.all_cons]
    rfl
  obtain ⟨p, hp, hdenotes⟩ := Pattern.parse_of_readsAs (readsAs_grouped hwords hsigns lead trail)
    (by rw [grouped, ← List.cons_append, List.getLast?_concat]; decide)
  rw [← hnormal] at hp
  have hsource : (normalizeSource (grouped (spaced [] lead trail words))).isAllBlank = false := by
    rw [hnormal]
    exact hvisible _
  exact ⟨_, compile_of_resolves (hvisible _) (by simp [grouped]) (resolves_text hopen) hsource hp,
    hdenotes⟩

end

end VerseSearch.Query
