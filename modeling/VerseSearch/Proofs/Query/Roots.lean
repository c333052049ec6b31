import VerseSearch.Proofs.Lexicon.Entries
import VerseSearch.Proofs.Query.Outcomes
import VerseSearch.Proofs.Query.WordBlocks

/-! # Queries for roots

Two letters between two digits stand for the words that are formed from a root of these letters.

* `compile_root_eq`: the query is a block of these words, for verbs alone.
* `compile_root`: the verbs that the query finds.
-/

namespace VerseSearch.Query
set_option autoImplicit false

open Hebrew (bareShin shin sin)

/-! ## Expansion -/

/-- The query for a root of two letters. -/
def rootQuery (x y : Char) : Text := ['2', x, y, '2']

section
variable {x y : Char} (hxy : IsLetters [x, y])
include hxy

theorem isLetters_rootForms : ∀ w ∈ rootForms x y, IsLetters w := by
  obtain ⟨hx, hy⟩ : (Hebrew.isLetter x = true ∨ x = bareShin) ∧
      (Hebrew.isLetter y = true ∨ y = bareShin) := ⟨hxy x (by simp), hxy y (by simp)⟩
  have hadded : ∀ c ∈ ['נ', 'י', 'ו', 'ה'], Hebrew.isLetter c = true := by decide
  intro w hw c hc
  have hcases : c = x ∨ c = y ∨ c ∈ ['נ', 'י', 'ו', 'ה'] := by
    simp only [rootForms, List.mem_cons, List.not_mem_nil, or_false] at hw ⊢
    obtain rfl | rfl | rfl | rfl | rfl | rfl | rfl | rfl := hw <;> simp at hc <;> tauto
  obtain rfl | rfl | hc := hcases
  · exact hx
  · exact hy
  · exact .inl (hadded c hc)

theorem expandRoot_rootQuery :
    expandRoot (rootQuery x y) = some ('<' :: wordsText (rootForms x y) ++ ['>']) := by
  have hbreak : ∀ c ∈ [x, y], c ≠ '\n' := fun c hc heq => by
    have hnot := hxy c hc
    rw [heq] at hnot
    exact absurd hnot (by decide)
  rw [rootQuery, expandRoot, if_neg (by simp [hbreak x, hbreak y])]
  rfl

/-- The query for a root is a block of the forms of the root, for verbs alone. -/
theorem compile_root_eq [Pattern.CharNames] [Text.Ranking] (l : Lexicon) (verbsOnly : Bool)
    (limit : ℕ) :
    compile l (rootQuery x y) verbsOnly limit =
      compile l ('<' :: wordsText (rootForms x y) ++ ['>']) true limit := by
  have hroot : (rootQuery x y).isAllBlank = false :=
    List.all_eq_false.mpr ⟨'2', List.mem_cons_self .., by decide⟩
  have hblock : Text.isAllBlank ('<' :: wordsText (rootForms x y) ++ ['>']) = false :=
    List.all_eq_false.mpr ⟨'<', List.mem_cons_self .., by decide⟩
  have hplain : expandRoot ('<' :: wordsText (rootForms x y) ++ ['>']) = none :=
    expandRoot_of_head? (by simp)
  rw [compile_eq hroot, compile_eq hblock, expand, expandRoot_rootQuery hxy, expand, hplain]

end

/-! ## Verbs -/

/-- The query for a root resolves one block to the verbs whose searchable form is a form of the root, in
the order of their numbers, and asks for verbs alone; it finds no entries exactly if there is no such
verb. -/
theorem compile_root [Pattern.CharNames] [Text.Ranking] (es : List Entry) (verbsOnly : Bool)
    (limit : ℕ) {x y : Char} (hxy : IsLetters [x, y]) :
    ∃ entries : List Entry, entries.Pairwise (·.tag < ·.tag) ∧
      (∀ e, e ∈ entries ↔ e ∈ (Lexicon.ofEntries es).entries ∧ e.category = .verb ∧
        ∃ w ∈ [[x, y], ['נ', x, y], ['י', x, y], [x, 'ו', y], [x, 'י', y], [x, y, 'ה'], [x, y, y],
          [x, y, x, y]], isForm w e.searchable = true) ∧
      ((∃ e, compile (.ofEntries es) ['2', x, y, '2'] verbsOnly limit = .error e ∧
        e.IsNoMatchingEntries) ↔ entries = []) ∧
      (entries ≠ [] → ∃ c b, compile (.ofEntries es) ['2', x, y, '2'] verbsOnly limit = .ok c ∧
        c.verbsOnly = true ∧ c.blocks = [b] ∧ b.entries = entries) := by
  have hletters := isLetters_rootForms hxy
  obtain ⟨entries, hfind, hsub, hmem⟩ :=
    findEntries_words (.ofEntries es) true (rootForms x y) (by simp [rootForms]) hletters
  have hquery := compile_root_eq hxy (.ofEntries es) verbsOnly limit
  refine ⟨entries, (Lexicon.pairwise_tag es).sublist hsub, fun e => ?_, ?_⟩
  · rw [hmem]
    refine and_congr_right fun _ => ?_
    simp only [Entry.isSentinel, Entry.isVerb, decide_eq_true_eq, decide_eq_false_iff_not, true_imp_iff]
    constructor
    · exact fun ⟨_, hverb, hform⟩ => ⟨hverb, hform⟩
    · exact fun ⟨hverb, hform⟩ => ⟨by simp [hverb], hverb, hform⟩
  rw [rootQuery] at hquery
  rw [hquery]
  obtain ⟨f, hbad, -⟩ | ⟨lim, hlimit, -⟩ | ⟨hnone, hcompile⟩ | ⟨found, c, hok, hne, hcompile, hblocks, -⟩ :=
    compile_block (.ofEntries es) true limit (isInner_wordsText hletters)
  · cases hfind.symm.trans hbad
  · cases hfind.symm.trans hlimit
  · obtain rfl := Except.ok.inj (hfind.symm.trans hnone)
    exact ⟨iff_of_true ⟨_, hcompile, trivial⟩ rfl, fun h => absurd rfl h⟩
  · obtain rfl := Except.ok.inj (hfind.symm.trans hok)
    refine ⟨iff_of_false ?_ hne, fun _ => ⟨c, _, hcompile, ?_, hblocks, rfl⟩⟩
    · rintro ⟨e, he, -⟩
      cases hcompile.symm.trans he
    · rw [verbsOnly_of_compile hcompile, expand, expandRoot_of_head? (by simp)]

/-- A root of shin and a final form finds two verbs, one with a sin, and not the noun of its letters. -/
theorem compile_root_of_shin_mem :
    let name : Entry := ⟨1, [shin, 'ם'], .noun, [shin, 'מ']⟩
    let put : Entry := ⟨2, [sin, 'י', 'ם'], .verb, [sin, 'י', 'מ']⟩
    let desolate : Entry := ⟨3, [shin, 'מ', 'ם'], .verb, [shin, 'מ', 'מ']⟩
    IsLetters [bareShin, 'ם'] ∧ ∃ c b,
      compile (.ofEntries [name, put, desolate]) ['2', bareShin, 'ם', '2'] false 5 = .ok c ∧
        c.verbsOnly = true ∧ c.blocks = [b] ∧ put ∈ b.entries ∧ desolate ∈ b.entries ∧
        name ∉ b.entries := by
  intro name put desolate
  have hletters : IsLetters [bareShin, 'ם'] := by
    unfold IsLetters
    decide
  obtain ⟨entries, -, hmem, -, hok⟩ := compile_root [name, put, desolate] false 5 hletters
  have hput : put ∈ entries := (hmem put).mpr (by decide +kernel)
  have hdesolate : desolate ∈ entries := (hmem desolate).mpr (by decide +kernel)
  have hname : name ∉ entries := fun h => absurd ((hmem name).mp h).2.1 (by decide)
  obtain ⟨c, b, hcompile, hverbs, hblocks, rfl⟩ := hok (List.ne_nil_of_mem hput)
  exact ⟨hletters, c, b, hcompile, hverbs, hblocks, hput, hdesolate, hname⟩

end VerseSearch.Query
